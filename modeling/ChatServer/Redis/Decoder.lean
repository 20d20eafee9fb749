import ChatServer.Number.Integer
import ChatServer.Redis.Malformed
import ChatServer.Redis.Reply
import ChatServer.Text.Blank
import ChatServer.Text.Bytes

/-!
Reading replies from bytes that arrive piece by piece. A reply begins with the byte of its kind
and a line, which ends with a carriage return and a line feed; behind a length stand as many bytes
and another line break, behind a count as many replies. What has been read of an unfinished reply
is kept, and reading goes on behind it when more bytes arrive.
-/

namespace ChatServer.Redis

/-- What the line of a reply holds. -/
inductive LineKind
  | status
  | failure
  | integer
  | length
  /-- The number of replies that follow. -/
  | count
  deriving DecidableEq

inductive Expected
  | kind
  | line (k : LineKind)
  | data (length : Nat)
  /-- The line break behind data. -/
  | lineBreak (data : List UInt8)
  deriving DecidableEq

/-- An array of which some elements have been read, the last one first; an error among them stands
for all. -/
structure OpenArray where
  size : Nat
  read : Nat
  items : Except Error (List Reply)

namespace OpenArray

/-- How many elements are to be read. -/
def lacking (a : OpenArray) : Nat := a.size - a.read

def add (a : OpenArray) (r : Except Error Reply) : OpenArray :=
  { a with
    read := a.read + 1
    items :=
      match a.items, r with
      | .error e, _ => .error e
      | .ok _, .error e => .error e
      | .ok rs, .ok r => .ok (r :: rs) }

/-- The reply that an array with all its elements is. -/
def reply (a : OpenArray) : Except Error Reply := a.items.map fun rs => .array rs.reverse

end OpenArray

/-- How many arrays may lie around an array. -/
def deepest : Nat := 100

/-- A reader of replies between two pieces of its input. -/
structure Decoder where
  /-- The arrays around the place reached, from the inside out. -/
  around : List OpenArray
  expected : Expected
  /-- The bytes behind the place reached. -/
  rest : List UInt8

inductive Progress
  | waiting
  | further (d : Decoder)
  | complete (r : Except Error Reply) (rest : List UInt8)
  /-- A flaw so many bytes behind the place reached. -/
  | malformed (flaw : Flaw) (offset : Nat)

namespace Decoder

def new : Decoder := ⟨[], .kind, []⟩

/-- Puts a reply that has been read into the array around it, and that array, once it has all its
elements, into the one around it. -/
def place (r : Except Error Reply) (rest : List UInt8) : List OpenArray → Progress
  | [] => .complete r rest
  | a :: around =>
    let a := a.add r
    if a.lacking = 0 then place a.reply rest around else .further ⟨a :: around, .kind, rest⟩

/-- The line that some bytes begin with, and what follows its end; nothing if it has no end. -/
def splitLine : List UInt8 → Option (List UInt8 × List UInt8)
  | [] => none
  | 0x0d :: 0x0a :: rest => some ([], rest)
  | b :: rest => (splitLine rest).map fun (line, rest) => (b :: line, rest)

/-- The kind of line that follows the first byte of a reply. -/
def lineKind? (b : UInt8) : Option LineKind :=
  match Char.ofNat b.toNat with
  | '+' => some .status
  | '-' => some .failure
  | ':' => some .integer
  | '$' => some .length
  | '*' => some .count
  | _ => none

/-- The text between the blanks at its two ends. -/
def trim (cs : List Char) : List Char := (trimStart (trimStart cs).reverse).reverse

def takeLine (around : List OpenArray) (k : LineKind) (line : String) (rest : List UInt8) :
    Progress :=
  match k with
  | .status => place (.ok (Reply.ofStatus line)) rest around
  | .failure => place (.error (errorOf line)) rest around
  | k =>
    match integer? (trim line.toList) with
    | none => .malformed .noInteger 0
    | some n =>
      match k, n with
      | .length, .ofNat n => .further ⟨around, .data n, rest⟩
      | .count, .ofNat 0 => place (.ok (.array [])) rest around
      | .count, .ofNat n => .further ⟨⟨n, 0, .ok []⟩ :: around, .kind, rest⟩
      | .integer, n => place (.ok (.integer n)) rest around
      | _, _ => place (.ok .nil) rest around

def step (d : Decoder) : Progress :=
  match d.expected with
  | .kind =>
    match d.rest with
    | [] => .waiting
    | b :: rest =>
      match lineKind? b with
      | none => .malformed (.unknownKind b rest.head?) 1
      | some k =>
        if k = .count ∧ deepest ≤ d.around.length then .malformed (.tooDeep rest.head?) 1
        else .further ⟨d.around, .line k, rest⟩
  | .line k =>
    match splitLine d.rest with
    | none => .waiting
    | some (line, rest) => takeLine d.around k ((spelled? line).getD "") rest
  | .data n =>
    if d.rest.length < n then .waiting
    else .further ⟨d.around, .lineBreak (d.rest.take n), d.rest.drop n⟩
  | .lineBreak data =>
    match d.rest with
    | [] => .waiting
    | [0x0d] => .waiting
    | 0x0d :: 0x0a :: rest => place (.ok (.data ((spelled? data).getD ""))) rest d.around
    | 0x0d :: b :: _ => .malformed (.noLineFeed b) 1
    | b :: _ => .malformed (.noLineBreak b) 0

/-- At most `fuel` steps: the replies read, and either the reader behind them or the flaw that was
met. Positions count from where the piece or the last reply ended, `length` bytes before the
end. -/
def run (d : Decoder) (length : Nat) : Nat →
    List (Except Error Reply) × Except Malformed Decoder
  | 0 => ([], .ok d)
  | fuel + 1 =>
    match d.step with
    | .waiting => ([], .ok d)
    | .further d => run d length fuel
    | .complete r rest =>
      let (rs, stop) := run { new with rest } rest.length fuel
      (r :: rs, stop)
    | .malformed flaw offset =>
      ([], .error ⟨length - d.rest.length + offset, flaw, d.around.map OpenArray.lacking⟩)

/-- Reads as far as a piece of the input leads: every step but the one that skips empty data takes
a byte, and the line before it takes two. -/
def feed (d : Decoder) (bytes : List UInt8) :
    List (Except Error Reply) × Except Malformed Decoder :=
  let d := { d with rest := d.rest ++ bytes }
  d.run d.rest.length (2 * d.rest.length + 2)

end Decoder

end ChatServer.Redis
