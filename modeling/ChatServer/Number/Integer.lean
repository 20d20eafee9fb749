import ChatServer.Number.Bounds
import ChatServer.Text.Digits

/-!
Integers of 64 bits as text.
-/

namespace ChatServer

/-- The integer that digits behind at most one sign write, if it has 64 bits. -/
def integer? (cs : List Char) : Option Int :=
  let (negative, ds) : Bool × List Char :=
    match cs with
    | '-' :: ds => (true, ds)
    | '+' :: ds => (false, ds)
    | ds => (false, ds)
  if ds.isEmpty || !ds.all isDigit then none
  else
    let n : Int := if negative then -(digitsValue ds : Int) else digitsValue ds
    if -(integerEnd : Int) ≤ n ∧ n < integerEnd then some n else none

end ChatServer
