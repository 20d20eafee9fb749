import ChatServer.Json.Value

/-!
The written form of JSON values: no blanks, members in their order, and in strings only quotes,
backslashes and control characters escaped.
-/

namespace ChatServer.Json

def hexDigit (n : Nat) : Char :=
  if n < 10 then Char.ofNat (48 + n) else Char.ofNat (87 + n)

/-- One character inside a string. -/
def escapeChar (c : Char) : List Char :=
  if c = '"' then ['\\', '"']
  else if c = '\\' then ['\\', '\\']
  else if c = '\x08' then ['\\', 'b']
  else if c = '\x0c' then ['\\', 'f']
  else if c = '\n' then ['\\', 'n']
  else if c = '\r' then ['\\', 'r']
  else if c = '\t' then ['\\', 't']
  else if c.toNat < 0x20 then
    ['\\', 'u', '0', '0', hexDigit (c.toNat / 16), hexDigit (c.toNat % 16)]
  else [c]

/-- The characters of a string between the quotes. -/
def escape (cs : List Char) : List Char := cs.flatMap escapeChar

def stringChars (s : String) : List Char := '"' :: (escape s.toList ++ ['"'])

mutual

def Value.chars : Value → List Char
  | .null => ['n', 'u', 'l', 'l']
  | .flag true => ['t', 'r', 'u', 'e']
  | .flag false => ['f', 'a', 'l', 's', 'e']
  | .number n => n.chars
  | .text s => stringChars s
  | .array items => '[' :: (itemsChars items ++ [']'])
  | .object members => '\x7b' :: (membersChars members ++ ['\x7d'])
termination_by structural v => v

def itemsChars : List Value → List Char
  | [] => []
  | [v] => v.chars
  | v :: w :: vs => v.chars ++ ',' :: itemsChars (w :: vs)

def membersChars : List (String × Value) → List Char
  | [] => []
  | [(k, v)] => stringChars k ++ ':' :: v.chars
  | (k, v) :: m :: ms => stringChars k ++ ':' :: (v.chars ++ ',' :: membersChars (m :: ms))

end

def Value.render (v : Value) : String := String.ofList v.chars

end ChatServer.Json
