import ChatServer.Json.Fault

/-!
The leaves of JSON texts: blanks, the three literals and strings.
-/

namespace ChatServer.Json

/-- The four characters that may stand between tokens. -/
def isSpace (c : Char) : Bool := c = ' ' || c = '\n' || c = '\t' || c = '\r'

/-- The text without the blanks it begins with. -/
def skipSpace (cs : List Char) : List Char := cs.dropWhile isSpace

/-- The rest of a literal, letter by letter. -/
def readLiteral : List Char → List Char → Except Fault (List Char)
  | [], cs => .ok cs
  | _ :: _, [] => .error (stopAt .valueEnds [])
  | l :: ls, c :: cs =>
    if c = l then readLiteral ls cs else .error (stopOn .expectedLiteral (c :: cs))

/-- The value of four hexadecimal digits. -/
def hexValue4? (a b c d : Char) : Option Nat :=
  match hexValue? a, hexValue? b, hexValue? c, hexValue? d with
  | some a, some b, some c, some d => some (4096 * a + 256 * b + 16 * c + d)
  | _, _, _, _ => none

/-- Why no four hexadecimal digits stand here. The next four bytes are taken for the digits. -/
def hexFault (cs : List Char) : Fault :=
  if byteCount cs < 4 then stopAt .stringEnds [] else ⟨.invalidEscape, some (byteCount cs - 4)⟩

def readHex : Reader Nat
  | a :: b :: c :: d :: rest =>
    match hexValue4? a b c d with
    | some n => .ok (n, rest)
    | none => .error (hexFault (a :: b :: c :: d :: rest))
  | cs => .error (hexFault cs)

/-- The code units that stand only in front of another. -/
def isHighSurrogate (n : Nat) : Bool := 0xd800 ≤ n && n ≤ 0xdbff

/-- The code units that stand only behind another. -/
def isLowSurrogate (n : Nat) : Bool := 0xdc00 ≤ n && n ≤ 0xdfff

/-- The character two surrogates stand for. -/
def joinSurrogates (high low : Nat) : Char :=
  Char.ofNat (0x10000 + (high - 0xd800) * 0x400 + (low - 0xdc00))

/-- The escape that must follow a high surrogate. -/
def readLowSurrogate (high : Nat) : Reader Char
  | [] => .error (stopAt .stringEnds [])
  | '\\' :: [] => .error (stopAt .stringEnds [])
  | '\\' :: 'u' :: cs =>
    match readHex cs with
    | .error f => .error f
    | .ok (low, rest) =>
      if isLowSurrogate low then .ok (joinSurrogates high low, rest)
      else .error (stopAt .loneSurrogate rest)
  | '\\' :: cs => .error (stopOn .escapeEnds cs)
  | cs => .error (stopOn .escapeEnds cs)

/-- The character an escape stands for, from behind the backslash on. -/
def readEscape : Reader Char
  | [] => .error (stopAt .stringEnds [])
  | '"' :: rest => .ok ('"', rest)
  | '\\' :: rest => .ok ('\\', rest)
  | '/' :: rest => .ok ('/', rest)
  | 'b' :: rest => .ok ('\x08', rest)
  | 'f' :: rest => .ok ('\x0c', rest)
  | 'n' :: rest => .ok ('\n', rest)
  | 'r' :: rest => .ok ('\r', rest)
  | 't' :: rest => .ok ('\t', rest)
  | 'u' :: cs =>
    match readHex cs with
    | .error f => .error f
    | .ok (n, rest) =>
      if isLowSurrogate n then .error (stopAt .loneSurrogate rest)
      else if isHighSurrogate n then readLowSurrogate n rest
      else .ok (Char.ofNat n, rest)
  | cs => .error (stopOn .invalidEscape cs)

/-- A string of at most `fuel` characters, from behind its opening quote on. -/
def readChars : Nat → Reader (List Char)
  | 0, cs => .error (stopAt .stringEnds cs)
  | _ + 1, [] => .error (stopAt .stringEnds [])
  | fuel + 1, c :: cs =>
    if c = '"' then .ok ([], cs)
    else if c = '\\' then
      match readEscape cs with
      | .error f => .error f
      | .ok (c, rest) =>
        match readChars fuel rest with
        | .error f => .error f
        | .ok (s, rest) => .ok (c :: s, rest)
    else if c.toNat < 0x20 then .error (stopOn .controlCharacter (c :: cs))
    else
      match readChars fuel cs with
      | .error f => .error f
      | .ok (s, rest) => .ok (c :: s, rest)

/-- A string from behind its opening quote on; it has no more characters than the text. -/
def readString (cs : List Char) : Except Fault (String × List Char) :=
  match readChars (cs.length + 1) cs with
  | .error f => .error f
  | .ok (s, rest) => .ok (String.ofList s, rest)

/-- Passes over an escape, from behind the backslash on, without joining surrogates. -/
def skipEscape : List Char → Except Fault (List Char)
  | [] => .error (stopAt .stringEnds [])
  | 'u' :: cs =>
    match readHex cs with
    | .error f => .error f
    | .ok (_, rest) => .ok rest
  | c :: cs =>
    if c ∈ ['"', '\\', '/', 'b', 'f', 'n', 'r', 't'] then .ok cs
    else .error (stopOn .invalidEscape (c :: cs))

/-- Passes over a string of at most `fuel` characters, from behind its opening quote on. -/
def skipChars : Nat → List Char → Except Fault (List Char)
  | 0, cs => .error (stopAt .stringEnds cs)
  | _ + 1, [] => .error (stopAt .stringEnds [])
  | fuel + 1, c :: cs =>
    if c = '"' then .ok cs
    else if c = '\\' then
      match skipEscape cs with
      | .error f => .error f
      | .ok rest => skipChars fuel rest
    else if c.toNat < 0x20 then .error (stopAt .controlCharacter (c :: cs))
    else skipChars fuel cs

/-- Passes over a string from behind its opening quote on. -/
def skipString (cs : List Char) : Except Fault (List Char) := skipChars (cs.length + 1) cs

end ChatServer.Json
