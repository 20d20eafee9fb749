/-!
Permits that are handed out in the order in which they were asked for. Whoever finds none, or
finds others waiting, joins the end of the line.
-/

namespace ChatServer

/-- Permits at hand and those waiting for one, the longest waiting first. -/
structure Gate (α : Type) where
  permits : Nat
  waiting : List α
  deriving DecidableEq, Inhabited

namespace Gate

variable {α : Type} [DecidableEq α]

def shut : Gate α := ⟨0, []⟩

def add (g : Gate α) (n : Nat) : Gate α := { g with permits := g.permits + n }

/-- It is the turn of `who` if nobody, or `who`, stands first in line. -/
def turnOf (g : Gate α) (who : α) : Bool :=
  match g.waiting with
  | [] => true
  | first :: _ => first = who

/-- Whether `who` would get a permit now. -/
def admits (g : Gate α) (who : α) : Bool := decide (0 < g.permits) && g.turnOf who

/-- Takes a permit for `who`, or puts `who` in line. -/
def acquire (g : Gate α) (who : α) : Bool × Gate α :=
  if g.admits who then (true, { permits := g.permits - 1, waiting := g.waiting.tail })
  else if who ∈ g.waiting then (false, g)
  else (false, { g with waiting := g.waiting ++ [who] })

end Gate

end ChatServer
