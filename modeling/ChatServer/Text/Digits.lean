/-!
Digits, and the numbers that runs of decimal digits write.
-/

namespace ChatServer

def hexValue? (c : Char) : Option Nat :=
  if '0' ≤ c ∧ c ≤ '9' then some (c.toNat - 48)
  else if 'a' ≤ c ∧ c ≤ 'f' then some (c.toNat - 87)
  else if 'A' ≤ c ∧ c ≤ 'F' then some (c.toNat - 55)
  else none

def isDigit (c : Char) : Bool := '0' ≤ c && c ≤ '9'

/-- The number written by digits after the ones already read as `n`. -/
def digitsFrom (n : Nat) (cs : List Char) : Nat := cs.foldl (fun n c => 10 * n + (c.toNat - 48)) n

def digitsValue (cs : List Char) : Nat := digitsFrom 0 cs

/-- A number in exactly `width` digits. -/
def padded (width n : Nat) : List Char :=
  let ds := Nat.toDigits 10 n
  List.replicate (width - ds.length) '0' ++ ds

end ChatServer
