/-!
Moments of civil time at the zero meridian, with nanoseconds. A leap second is the sixtieth
second of a minute: it is kept as second 59 with a full further second of nanoseconds.
-/

namespace ChatServer

structure Instant where
  year : Int
  month : Nat
  day : Nat
  hour : Nat
  minute : Nat
  second : Nat
  /-- Below `10 ^ 9`, or below `2 * 10 ^ 9` within a leap second. -/
  nano : Nat
  deriving DecidableEq, Inhabited

/-- Every fourth year is a leap year, except for full centuries not divisible by 400. -/
def isLeapYear (year : Int) : Bool :=
  year % 4 = 0 && (year % 100 ≠ 0 || year % 400 = 0)

def daysIn (year : Int) : Nat → Nat
  | 2 => if isLeapYear year then 29 else 28
  | 4 | 6 | 9 | 11 => 30
  | _ => 31

/-- The years a moment can lie in. -/
def firstYear : Int := -262143

def lastYear : Int := 262142

/-- Whether a day exists and can be represented. -/
def isDate (year : Int) (month day : Nat) : Bool :=
  firstYear ≤ year && year ≤ lastYear && 1 ≤ month && month ≤ 12 && 1 ≤ day &&
    day ≤ daysIn year month

def nextDay (year : Int) (month day : Nat) : Int × Nat × Nat :=
  if day < daysIn year month then (year, month, day + 1)
  else if month < 12 then (year, month + 1, 1)
  else (year + 1, 1, 1)

def previousDay (year : Int) (month day : Nat) : Int × Nat × Nat :=
  if 1 < day then (year, month, day - 1)
  else if 1 < month then (year, month - 1, daysIn year (month - 1))
  else (year - 1, 12, 31)

namespace Instant

/-- The parts of a moment are in range. -/
def IsValid (t : Instant) : Prop :=
  isDate t.year t.month t.day ∧ t.hour ≤ 23 ∧ t.minute ≤ 59 ∧ t.second ≤ 59 ∧
    (t.nano < 1000000000 ∨ (t.second = 59 ∧ t.nano < 2000000000))

instance (t : Instant) : Decidable t.IsValid := inferInstanceAs (Decidable (_ ∧ _))

/-- The moment at the zero meridian when clocks `offset` seconds ahead of it show `t`. An offset
is shorter than a day. Nothing if the date cannot be represented. -/
def fromOffset (t : Instant) (offset : Int) : Option Instant :=
  let seconds : Int := (t.hour * 3600 + t.minute * 60 + t.second : Nat) - offset
  let (year, month, day) :=
    if seconds < 0 then previousDay t.year t.month t.day
    else if 86400 ≤ seconds then nextDay t.year t.month t.day
    else (t.year, t.month, t.day)
  let s := (seconds % 86400).toNat
  if isDate year month day then
    some { t with year, month, day, hour := s / 3600, minute := s / 60 % 60, second := s % 60 }
  else none

end Instant

end ChatServer
