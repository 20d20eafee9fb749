import ChatServer.Number.Shortest

/-!
JSON values. The members of an object keep their order, and one name may stand more than once.
-/

namespace ChatServer.Json

/-- A number as a reader tells it apart: whole ones of 64 bits, and doubles. -/
inductive Number
  | natural (n : Nat)
  | negative (n : Nat)
  | real (x : Double)
  deriving DecidableEq, Inhabited

inductive Value
  | null
  | flag (b : Bool)
  | number (n : Number)
  | text (s : String)
  | array (items : List Value)
  | object (members : List (String × Value))
  deriving Inhabited

def Number.chars : Number → List Char
  | .natural n => Nat.toDigits 10 n
  | .negative n => '-' :: Nat.toDigits 10 n
  | .real x => x.text

end ChatServer.Json
