import ChatServer.Number.Bounds

/-!
The monotonic clock against which stored values expire. It counts nanoseconds and has a last
reading, so a deadline may lie beyond it.
-/

namespace ChatServer

/-- A reading of the monotonic clock, in nanoseconds. -/
abbrev Time := Nat

/-- A length of time in nanoseconds. -/
abbrev Duration := Nat

namespace Duration

def ofSeconds (n : Nat) : Duration := n * 1000000000

def ofMillis (n : Nat) : Duration := n * 1000000

def ofMicros (n : Nat) : Duration := n * 1000

end Duration

namespace Time

/-- The clock starts a day after its origin. -/
def start : Time := Duration.ofSeconds 86400

/-- No reading reaches 2⁶³ seconds. -/
def limit : Time := Duration.ofSeconds integerEnd

/-- The reading `d` after `now`, if the clock can show it. -/
def after? (now : Time) (d : Duration) : Option Time :=
  if now + d < limit then some (now + d) else none

theorem after?_eq_some {now : Time} {d : Duration} {t : Time} :
    after? now d = some t ↔ now + d = t ∧ now + d < limit := by
  grind [after?]

theorem after?_eq_none {now : Time} {d : Duration} :
    after? now d = none ↔ limit ≤ now + d := by
  grind [after?]

end Time

end ChatServer
