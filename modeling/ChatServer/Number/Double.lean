import ChatServer.Number.Bounds

/-!
Double-precision numbers in exact arithmetic: a finite one is a sign, a mantissa below 2⁵³ and a
power of two. Every operation rounds the exact result to the nearest double, a tie to the even
mantissa.
-/

namespace ChatServer

/-- A finite double, `mantissa · 2 ^ exponent` up to its sign. The exponent is never below
`-1074`, and the mantissa is below `2 ^ 52` only there. -/
structure Double where
  negative : Bool
  mantissa : Nat
  exponent : Int
  deriving DecidableEq, Inhabited

/-- The quotient rounded to the nearest integer, a tie to the even one. -/
def roundEven (n d : Nat) : Nat :=
  let q := n / d
  let r := n % d
  if d < 2 * r ∨ (d = 2 * r ∧ q % 2 = 1) then q + 1 else q

/-- The numerator of `n · 2 ^ k`, given as a ratio of naturals. -/
def scaleUp (n : Nat) (k : Int) : Nat := n <<< k.toNat

namespace Double

/-- The least mantissa of a double whose exponent is not the least: 2⁵². -/
def implicitBit : Nat := 0x10000000000000

def zero : Double := ⟨false, 0, -1074⟩

def isZero (x : Double) : Bool := x.mantissa = 0

/-- The double nearest to the ratio `n / d`, if it is not beyond the largest one. -/
def ofRatio (n d : Nat) : Option Double :=
  if n = 0 then some zero
  else
    let guess : Int := max ((n.log2 : Int) - d.log2 - 53) (-1074)
    let fits := scaleUp n (-guess) / scaleUp d guess < 2 * implicitBit
    let e := if fits then guess else guess + 1
    let m := roundEven (scaleUp n (-e)) (scaleUp d e)
    let (m, e) := if m = 2 * implicitBit then (implicitBit, e + 1) else (m, e)
    if 971 < e then none else some ⟨false, m, e⟩

/-- The double nearest to a natural number below 2⁶⁴. -/
def ofNat (n : Nat) : Double := (ofRatio n 1).getD zero

/-- The double nearest to `10 ^ e`. -/
def tenTo (e : Nat) : Double := (ofRatio (tenPow e) 1).getD zero

/-- The product of two magnitudes, unless it is too large. -/
def mul (x y : Double) : Option Double :=
  let e := x.exponent + y.exponent
  ofRatio (scaleUp (x.mantissa * y.mantissa) e) (scaleUp 1 (-e))

/-- The quotient of two magnitudes, unless it is too large. -/
def div (x y : Double) : Option Double :=
  let e := x.exponent - y.exponent
  ofRatio (scaleUp x.mantissa e) (scaleUp y.mantissa (-e))

/-- Multiplies `x` by `10 ^ e` in at most `fuel` roundings: powers up to `10 ^ 308` are applied at
once, and smaller factors are split off 308 places at a time. Fails if the result is too large. -/
def timesTenTo (x : Double) (e : Int) : Nat → Option Double
  | 0 => some x
  | fuel + 1 =>
    if e.natAbs ≤ 308 then
      if 0 ≤ e then x.mul (tenTo e.natAbs) else x.div (tenTo e.natAbs)
    else if x.isZero then some x
    else if 0 ≤ e then none
    else
      match x.div (tenTo 308) with
      | none => none
      | some y => timesTenTo y (e + 308) fuel

/-- `digits · 10 ^ e` with the sign given, unless it is too large. -/
def ofDecimal (negative : Bool) (digits : Nat) (e : Int) : Option Double :=
  (timesTenTo (ofNat digits) e (e.natAbs / 308 + 2)).map fun x => { x with negative }

end Double

end ChatServer
