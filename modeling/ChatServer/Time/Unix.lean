import ChatServer.Time.Instant

/-!
Moments counted in nanoseconds from the beginning of the year 1970, as system clocks give them.
-/

namespace ChatServer

/-- The day that lies a number of days after the first of January 1970. Years are counted from
the first of March, so that a leap day is the last of its year, in cycles of 400 years. -/
def dayAfter (days : Int) : Int × Nat × Nat :=
  let shifted := days + 719468
  let cycle := shifted / 146097
  let day := (shifted % 146097).toNat
  let year := (day - day / 1460 + day / 36524 - day / 146096) / 365
  let ofYear := day - (365 * year + year / 4 - year / 100)
  let month := (5 * ofYear + 2) / 153
  let ofMonth := ofYear - (153 * month + 2) / 5 + 1
  if month < 10 then (cycle * 400 + year, month + 3, ofMonth)
  else (cycle * 400 + year + 1, month - 9, ofMonth)

example : dayAfter 0 = (1970, 1, 1) := by decide
example : dayAfter 11016 = (2000, 2, 29) := by decide
example : dayAfter (-1) = (1969, 12, 31) := by decide

/-- The moment that lies a number of nanoseconds after the beginning of 1970. -/
def Instant.ofUnixNanos (n : Int) : Instant :=
  let seconds := n / 1000000000
  let (year, month, day) := dayAfter (seconds / 86400)
  let s := (seconds % 86400).toNat
  ⟨year, month, day, s / 3600, s / 60 % 60, s % 60, (n % 1000000000).toNat⟩

end ChatServer
