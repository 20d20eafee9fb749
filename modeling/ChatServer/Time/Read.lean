import ChatServer.Number.Bounds
import ChatServer.Text.Blank
import ChatServer.Text.Digits
import ChatServer.Time.Instant

/-!
Reading moments, more freely than they are written: parts may be short of digits and preceded by
blanks, date and time may be divided by a blank, fractions may be longer than nine digits, and
the distance from the zero meridian is given as a signed number of hours and minutes, as `Z` or
as `UTC`. Each part is checked for its range as it is read; whether the day exists is checked at
the end.
-/

namespace ChatServer.Instant

inductive ReadError
  | outOfRange
  | impossible
  | invalid
  | tooShort
  | tooLong
  deriving DecidableEq

def ReadError.message : ReadError → String
  | .outOfRange => "input is out of range"
  | .impossible => "no possible date and time matching input"
  | .invalid => "input contains invalid characters"
  | .tooShort => "premature end of input"
  | .tooLong => "trailing input"

/-- The digits at the front, at most `width` of them, and the rest. -/
def takeDigits : Nat → List Char → List Char × List Char
  | 0, cs => ([], cs)
  | _, [] => ([], [])
  | width + 1, c :: cs =>
    if isDigit c then
      let (ds, rest) := takeDigits width cs
      (c :: ds, rest)
    else ([], c :: cs)

/-- A number of at least one and at most `width` digits. -/
def readNumber (width : Nat) (cs : List Char) : Except ReadError (Nat × List Char) :=
  match takeDigits width cs with
  | ([], []) => .error .tooShort
  | ([], _) => .error .invalid
  | (ds, rest) => .ok (digitsValue ds, rest)

/-- A part of one or two digits after blanks, between two bounds. -/
def readPart (least most : Nat) (cs : List Char) : Except ReadError (Nat × List Char) :=
  match readNumber 2 (trimStart cs) with
  | .error e => .error e
  | .ok (n, rest) => if least ≤ n ∧ n ≤ most then .ok (n, rest) else .error .outOfRange

/-- A divider after blanks. -/
def readMark (mark : Char) (cs : List Char) : Except ReadError (List Char) :=
  match trimStart cs with
  | [] => .error .tooShort
  | c :: rest => if c = mark then .ok rest else .error .invalid

/-- A year after blanks; with a sign it may have any number of digits. -/
def readYear (cs : List Char) : Except ReadError (Int × List Char) :=
  let bounded (y : Int) (rest : List Char) : Except ReadError (Int × List Char) :=
    if -(shortIntegerEnd : Int) ≤ y ∧ y < shortIntegerEnd then .ok (y, rest)
    else .error .outOfRange
  match trimStart cs with
  | '-' :: rest =>
    match readNumber rest.length rest with
    | .error e => .error e
    | .ok (n, rest) => bounded (-n) rest
  | '+' :: rest =>
    match readNumber rest.length rest with
    | .error e => .error e
    | .ok (n, rest) => bounded n rest
  | cs =>
    match readNumber 4 cs with
    | .error e => .error e
    | .ok (n, rest) => bounded n rest

/-- A fraction of a second in nanoseconds; digits after the ninth are passed over. -/
def readFraction : List Char → Except ReadError (Nat × List Char)
  | '.' :: cs =>
    match takeDigits 9 cs with
    | ([], []) => .error .tooShort
    | ([], _) => .error .invalid
    | (ds, rest) => .ok (digitsValue ds * tenPow (9 - ds.length), rest.dropWhile isDigit)
  | cs => .ok (0, cs)

/-- Two characters, both digits. -/
def readTwoDigits : List Char → Except ReadError (Nat × Nat × List Char)
  | [] => .error .tooShort
  | [c] => if c.utf8Size = 1 then .error .tooShort else .error .invalid
  | a :: b :: rest =>
    if isDigit a && isDigit b then .ok (a.toNat - 48, b.toNat - 48, rest) else .error .invalid

def readOffset (cs : List Char) : Except ReadError (Int × List Char) :=
  match readTwoDigits cs with
  | .error e => .error e
  | .ok (h₁, h₂, rest) =>
    match readTwoDigits (rest.dropWhile fun c => c = ':' || isBlank c) with
    | .error e => .error e
    | .ok (m₁, m₂, rest) =>
      if m₁ ≤ 5 then .ok (((10 * h₁ + h₂) * 3600 + (10 * m₁ + m₂) * 60 : Nat), rest)
      else .error .outOfRange

/-- The distance from the zero meridian, in seconds. -/
def readZone (cs : List Char) : Except ReadError (Int × List Char) :=
  match cs with
  | [] => .error .tooShort
  | c :: rest =>
    if (cs.take 3).map Char.toLower = ['u', 't', 'c'] then .ok (0, cs.drop 3)
    else if c = 'Z' ∨ c = 'z' then .ok (0, rest)
    else if c = '+' then readOffset rest
    else if c = '-' ∨ c = '\u2212' then
      match readOffset rest with
      | .error e => .error e
      | .ok (n, rest) => .ok (-n, rest)
    else .error .invalid

/-- The letter or blank between date and time. -/
def readDivider : List Char → Except ReadError (List Char)
  | [] => .error .tooShort
  | c :: rest => if c = 't' ∨ c = 'T' ∨ c = ' ' then .ok rest else .error .invalid

def read (cs : List Char) : Except ReadError Instant := do
  let (year, cs) ← readYear cs
  let cs ← readMark '-' cs
  let (month, cs) ← readPart 1 12 cs
  let cs ← readMark '-' cs
  let (day, cs) ← readPart 1 31 cs
  let cs ← readDivider cs
  let (hour, cs) ← readPart 0 23 cs
  let cs ← readMark ':' cs
  let (minute, cs) ← readPart 0 59 cs
  let cs ← readMark ':' cs
  let (second, cs) ← readPart 0 60 cs
  let (fraction, cs) ← readFraction cs
  let (offset, cs) ← readZone (trimStart cs)
  if trimStart cs ≠ [] then .error .tooLong
  else if !isDate year month day then .error .outOfRange
  else if 86400 ≤ offset.natAbs then .error .outOfRange
  else
    let t : Instant :=
      if second = 60 then ⟨year, month, day, hour, minute, 59, fraction + 1000000000⟩
      else ⟨year, month, day, hour, minute, second, fraction⟩
    match t.fromOffset offset with
    | some t => .ok t
    | none => .error .impossible

end ChatServer.Instant
