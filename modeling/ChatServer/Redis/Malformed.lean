import ChatServer.Redis.Error

/-!
Bytes that are no reply, and how they are told: what was found, what should have stood there, and
for every array that the place lies in how many elements it still lacks.
-/

namespace ChatServer.Redis

inductive Flaw
  /-- A line should hold an integer. -/
  | noInteger
  /-- A line break should follow. -/
  | noLineBreak (found : UInt8)
  /-- A line feed should follow. -/
  | noLineFeed (found : UInt8)
  /-- No reply begins this way. -/
  | unknownKind (found : UInt8) (next : Option UInt8)
  /-- Arrays are nested too deeply. -/
  | tooDeep (next : Option UInt8)
  deriving DecidableEq

namespace Flaw

def byteText (b : UInt8) : String := "`" ++ toString b.toNat ++ "`"

/-- What should not have been there. -/
def unexpected : Flaw → List String
  | .noInteger => []
  | .noLineBreak found => [byteText found]
  | .noLineFeed found => [byteText found]
  | .unknownKind found next => next.toList.map byteText ++ [byteText found]
  | .tooDeep next => next.toList.map byteText ++ ["Maximum recursion depth exceeded"]

/-- What should have been there, and what else there is to say. -/
def remarks : Flaw → List String
  | .noInteger => ["Expected integer, got garbage"]
  | .noLineBreak _ => ["Expected crlf newline"]
  | .noLineFeed _ => ["Expected lf newline"]
  | .unknownKind .. => []
  | .tooDeep _ => []

end Flaw

structure Malformed where
  /-- How many bytes stand before it. -/
  position : Nat
  flaw : Flaw
  /-- How many elements each array around it lacks, from the inside out. -/
  lacking : List Nat
  deriving DecidableEq

namespace Malformed

/-- One line for each thing there is to say; nothing is said twice. -/
def text (m : Malformed) : String :=
  let unexpected := m.flaw.unexpected.map fun s => "Unexpected " ++ s
  let lacking := m.lacking.map fun n => "expected " ++ toString n ++ " more elements"
  String.join ((("Parse error at " ++ toString m.position) ::
    (unexpected ++ m.flaw.remarks ++ lacking).eraseDups).map fun line => line ++ "\n")

def error (m : Malformed) : Error := .described .parseError "parse error" (some m.text)

end Malformed

end ChatServer.Redis
