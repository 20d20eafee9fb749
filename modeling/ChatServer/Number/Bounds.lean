/-!
Powers of ten, and the ends of the ranges of numbers of fixed width.
-/

namespace ChatServer

/-- Ten to the power of `e`. -/
def tenPow (e : Nat) : Nat := Nat.pow 10 e

/-- The first natural number that has no 64 bits: 2⁶⁴. -/
def naturalEnd : Nat := 0x10000000000000000

/-- The first integer that has no 64 bits with a sign: 2⁶³. -/
def integerEnd : Nat := 0x8000000000000000

/-- The first integer that has no 32 bits with a sign: 2³¹. -/
def shortIntegerEnd : Nat := 0x80000000

end ChatServer
