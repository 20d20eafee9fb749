import ChatServer.Number.Bounds
import ChatServer.Text.Digits

/-!
Whole numbers given as arguments: digits behind at most one sign, within bounds.
-/

namespace ChatServer.CommandLine

inductive NumberError
  | empty
  | invalidDigit
  | tooLarge
  | tooSmall
  /-- A number that is not a port. -/
  | noPort (n : Int)
  deriving DecidableEq

def NumberError.message : NumberError → String
  | .empty => "cannot parse integer from empty string"
  | .invalidDigit => "invalid digit found in string"
  | .tooLarge => "number too large to fit in target type"
  | .tooSmall => "number too small to fit in target type"
  | .noPort n => toString n ++ " is not in 0..=65535"

/-- Digits one by one, starting from `n`; the first that is none or leads beyond `most` is
refused, whatever follows it. -/
def readDigits (most : Nat) (beyond : NumberError) : Nat → List Char → Except NumberError Nat
  | n, [] => .ok n
  | n, c :: cs =>
    if !isDigit c then .error .invalidDigit
    else if most < 10 * n + (c.toNat - 48) then .error beyond
    else readDigits most beyond (10 * n + (c.toNat - 48)) cs

/-- A natural number up to `most`; a plus sign may stand before it. -/
def readNatural (most : Nat) : List Char → Except NumberError Nat
  | [] => .error .empty
  | ['+'] => .error .invalidDigit
  | '+' :: cs => readDigits most .tooLarge 0 cs
  | cs => readDigits most .tooLarge 0 cs

def readInteger : List Char → Except NumberError Int
  | [] => .error .empty
  | ['+'] => .error .invalidDigit
  | ['-'] => .error .invalidDigit
  | '+' :: cs => (readDigits (integerEnd - 1) .tooLarge 0 cs).map Int.ofNat
  | '-' :: cs => (readDigits integerEnd .tooSmall 0 cs).map fun n => -Int.ofNat n
  | cs => (readDigits (integerEnd - 1) .tooLarge 0 cs).map Int.ofNat

def readSize (s : String) : Except NumberError Nat := readNatural (naturalEnd - 1) s.toList

def readPort (s : String) : Except NumberError Nat :=
  match readInteger s.toList with
  | .error e => .error e
  | .ok n => if 0 ≤ n ∧ n ≤ 65535 then .ok n.toNat else .error (.noPort n)

end ChatServer.CommandLine
