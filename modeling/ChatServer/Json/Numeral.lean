import ChatServer.Json.Scan

/-!
Numbers in JSON texts. A whole number of 64 bits is kept as it is; any other is read as a double
from the leading digits that fit 64 bits and a power of ten.
-/

namespace ChatServer.Json

/-- Reads digits on as long as the number stays below `bound`. -/
def absorb (bound n : Nat) : List Char → Nat × List Char
  | [] => (n, [])
  | c :: cs =>
    if isDigit c ∧ 10 * n + (c.toNat - 48) < bound then absorb bound (10 * n + (c.toNat - 48)) cs
    else (n, c :: cs)

/-- The number of digits at the front, and the rest. -/
def countDigits : List Char → Nat × List Char
  | [] => (0, [])
  | c :: cs =>
    if isDigit c then
      let (n, rest) := countDigits cs
      (n + 1, rest)
    else (0, c :: cs)

/-- The double `digits · 10 ^ e`. -/
def realNumber (negative : Bool) (digits : Nat) (e : Int) : Reader Number := fun cs =>
  match Double.ofDecimal negative digits e with
  | some x => .ok (.real x, cs)
  | none => .error (stopAt .numberOutOfRange cs)

/-- An exponent from behind its letter on, for the number `digits · 10 ^ e`. An exponent of 32
bits and more makes the number zero or too large. -/
def readExponent (negative : Bool) (digits : Nat) (e : Int) : Reader Number := fun cs =>
  let (up, cs) : Bool × List Char :=
    match cs with
    | '+' :: cs => (true, cs)
    | '-' :: cs => (false, cs)
    | cs => (true, cs)
  match cs with
  | [] => .error (stopAt .valueEnds [])
  | c :: rest =>
    if !isDigit c then .error (stopOn .invalidNumber (c :: rest))
    else
      match absorb shortIntegerEnd 0 (c :: rest) with
      | (n, d :: rest) =>
        if isDigit d then
          if digits ≠ 0 ∧ up then .error (stopAt .numberOutOfRange rest)
          else .ok (.real { Double.zero with negative }, rest.dropWhile isDigit)
        else realNumber negative digits (if up then e + n else e - n) (d :: rest)
      | (n, []) => realNumber negative digits (if up then e + n else e - n) []

/-- An exponent if there is one. -/
def readScale (negative : Bool) (digits : Nat) (e : Int) : Reader Number
  | 'e' :: cs => readExponent negative digits e cs
  | 'E' :: cs => readExponent negative digits e cs
  | cs => realNumber negative digits e cs

/-- A fraction from behind the point on, for a number that begins `digits · 10 ^ e`. Digits that
no longer fit are passed over. -/
def readFraction (negative : Bool) (digits : Nat) (e : Int) : Reader Number := fun cs =>
  match cs with
  | [] => .error (stopAt .valueEnds [])
  | c :: rest =>
    if !isDigit c then .error (stopOn .invalidNumber (c :: rest))
    else
      let (n, unread) := absorb naturalEnd digits cs
      readScale negative n (e - (cs.length - unread.length : Nat)) (unread.dropWhile isDigit)

/-- What may follow the whole part of a number that is not kept as a whole number. -/
def readTail (negative : Bool) (digits : Nat) (e : Int) : Reader Number
  | '.' :: cs => readFraction negative digits e cs
  | cs => readScale negative digits e cs

/-- A whole number, which is a double if it has no 64-bit form. -/
def wholeNumber (negative : Bool) (n : Nat) : Number :=
  if !negative then .natural n
  else if n = 0 ∨ integerEnd < n then .real { Double.ofNat n with negative := true }
  else .negative n

/-- A number from its first digit on. -/
def readNumber (negative : Bool) : Reader Number
  | [] => .error (stopAt .valueEnds [])
  | c :: cs =>
    if !isDigit c then .error (stopOn .invalidNumber (c :: cs))
    else if c = '0' ∧ (cs.head?.any isDigit) then .error (stopOn .invalidNumber cs)
    else
      match absorb naturalEnd (c.toNat - 48) cs with
      | (n, []) => .ok (wholeNumber negative n, [])
      | (n, d :: rest) =>
        if isDigit d then
          let (k, rest) := countDigits (d :: rest)
          readTail negative n k rest
        else if d = '.' ∨ d = 'e' ∨ d = 'E' then readTail negative n 0 (d :: rest)
        else .ok (wholeNumber negative n, d :: rest)

/-- Passes over an exponent from behind its letter on. -/
def skipExponent (cs : List Char) : Except Fault (List Char) :=
  let cs :=
    match cs with
    | '+' :: cs => cs
    | '-' :: cs => cs
    | cs => cs
  if cs.head?.any isDigit then .ok (cs.dropWhile isDigit) else .error (stopOn .invalidNumber cs)

/-- Passes over an exponent if there is one. -/
def skipScale : List Char → Except Fault (List Char)
  | 'e' :: cs => skipExponent cs
  | 'E' :: cs => skipExponent cs
  | cs => .ok cs

/-- Passes over a number from its first digit on; its size does not matter. -/
def skipNumber : List Char → Except Fault (List Char)
  | [] => .error (stopAt .invalidNumber [])
  | c :: cs =>
    if !isDigit c then .error (stopOn .invalidNumber (c :: cs))
    else if c = '0' ∧ (cs.head?.any isDigit) then .error (stopOn .invalidNumber cs)
    else
      match cs.dropWhile isDigit with
      | '.' :: rest =>
        if rest.head?.any isDigit then skipScale (rest.dropWhile isDigit)
        else .error (stopOn .invalidNumber rest)
      | rest => skipScale rest

end ChatServer.Json
