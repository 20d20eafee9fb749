import ChatServer.Text.Digits
import ChatServer.Time.Instant

/-!
The written form of moments: date, time and the letter of the zero meridian. A leap second is
written as second 60, and the fraction takes the fewest of zero, three, six or nine digits.
-/

namespace ChatServer.Instant

/-- Four digits for the years 0 to 9999; other years carry a sign. -/
def yearChars (year : Int) : List Char :=
  if 0 ≤ year ∧ year ≤ 9999 then padded 4 year.natAbs
  else (if year < 0 then '-' else '+') :: padded 4 year.natAbs

def fractionChars (nano : Nat) : List Char :=
  if nano = 0 then []
  else if nano % 1000000 = 0 then '.' :: padded 3 (nano / 1000000)
  else if nano % 1000 = 0 then '.' :: padded 6 (nano / 1000)
  else '.' :: padded 9 nano

def chars (t : Instant) : List Char :=
  let leap := 1000000000 ≤ t.nano
  yearChars t.year ++ '-' :: padded 2 t.month ++ '-' :: padded 2 t.day ++
    'T' :: padded 2 t.hour ++ ':' :: padded 2 t.minute ++
    ':' :: padded 2 (if leap then t.second + 1 else t.second) ++
    fractionChars (if leap then t.nano - 1000000000 else t.nano) ++ ['Z']

def text (t : Instant) : String := String.ofList t.chars

end ChatServer.Instant
