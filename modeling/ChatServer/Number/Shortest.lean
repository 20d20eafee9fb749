import ChatServer.Number.Double

/-!
The text of a double: the fewest decimal digits that lie closer to it than to any other double,
and of those the nearest. Of two that are equally near, the one with the even last digit is taken.
-/

namespace ChatServer

structure Decimal where
  digits : Nat
  exponent : Int
  deriving DecidableEq, Inhabited

namespace Double

/-- `n · 2 ^ e / 10 ^ g` rounded down. -/
def gridFloor (n : Nat) (e g : Int) : Nat :=
  scaleUp n e * tenPow (-g).toNat / (scaleUp 1 (-e) * tenPow g.toNat)

/-- Whether `n · 2 ^ e ≤ digits · 10 ^ g`. -/
def leGrid (n : Nat) (e : Int) (digits : Nat) (g : Int) : Bool :=
  scaleUp n e * tenPow (-g).toNat ≤ digits * tenPow g.toNat * scaleUp 1 (-e)

/-- Whether `digits · 10 ^ g ≤ n · 2 ^ e`. -/
def gridLe (digits : Nat) (g : Int) (n : Nat) (e : Int) : Bool :=
  digits * tenPow g.toNat * scaleUp 1 (-e) ≤ scaleUp n e * tenPow (-g).toNat

/-- The position of the first decimal digit of a magnitude that is not zero. -/
def leadingPlace (x : Double) : Int :=
  ((Nat.toDigits 10 (gridFloor x.mantissa x.exponent (-400))).length : Int) - 401

/-- The decimal with `n` digits that reads back as `x` and is nearest to it, if there is one. In
quarters of the mantissa's unit, the decimals that read back as `x` reach from `4m - 2` (from
`4m - 1` at a power of two) to `4m + 2`; both ends belong to them when the mantissa is even. -/
def withDigits (x : Double) (n : Nat) : Option Decimal :=
  let g := x.leadingPlace - n + 1
  let e := x.exponent - 2
  let v := 4 * x.mantissa
  let lo := if x.mantissa = implicitBit ∧ x.exponent ≠ -1074 then v - 1 else v - 2
  let hi := v + 2
  let below := gridFloor v e g
  let even := x.mantissa % 2 = 0
  let inside (d : Nat) : Bool :=
    if even then leGrid lo e d g && gridLe d g hi e
    else !gridLe d g lo e && !leGrid hi e d g
  let half := 2 * below + 1
  let nearer : Bool := leGrid (2 * v) e half g && (below % 2 = 0 || !gridLe half g (2 * v) e)
  match inside below, inside (below + 1) with
  | true, true => some ⟨if nearer then below else below + 1, g⟩
  | true, false => some ⟨below, g⟩
  | false, true => some ⟨below + 1, g⟩
  | false, false => none

/-- The first of at most `fuel` digit counts from `n` on for which a decimal reads back. -/
def shortestFrom (x : Double) (n : Nat) : Nat → Decimal
  | 0 => ⟨0, 0⟩
  | fuel + 1 =>
    match x.withDigits n with
    | some d => d
    | none => shortestFrom x (n + 1) fuel

/-- The shortest decimal that reads back as `x`; seventeen digits always do. -/
def shortest (x : Double) : Decimal := shortestFrom x 1 17

/-- The digits of a decimal without the zeros at its end, and the position of its first digit. -/
def significant (d : Decimal) : List Char × Int :=
  let ds := Nat.toDigits 10 d.digits
  ((ds.reverse.dropWhile (· = '0')).reverse, d.exponent + ds.length - 1)

/-- Digits around a point are written when the first one stands from the fifth place behind the
point to the sixteenth before it; elsewhere a signed exponent follows the digits. -/
def magnitudeText (x : Double) : List Char :=
  if x.isZero then ['0', '.', '0']
  else
    let (ds, place) := significant x.shortest
    if 0 ≤ place ∧ place ≤ 15 then
      let whole := ds.take (place.toNat + 1)
      let pad := List.replicate (place.toNat + 1 - ds.length) '0'
      let fraction := ds.drop (place.toNat + 1)
      whole ++ pad ++ '.' :: (if fraction.isEmpty then ['0'] else fraction)
    else if -5 ≤ place ∧ place < 0 then
      '0' :: '.' :: (List.replicate (place.natAbs - 1) '0' ++ ds)
    else
      let mark := if 0 ≤ place then ['e', '+'] else ['e', '-']
      let first := ds.take 1
      let others := ds.drop 1
      first ++ (if others.isEmpty then [] else '.' :: others) ++ mark ++
        Nat.toDigits 10 place.natAbs

def text (x : Double) : List Char :=
  if x.negative then '-' :: x.magnitudeText else x.magnitudeText

end Double

end ChatServer
