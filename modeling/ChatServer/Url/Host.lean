import ChatServer.Text.Digits
import ChatServer.Text.Fields

/-!
The host of a URL: a name, or an address of eight groups between brackets. Two colons in such an
address stand for as many groups of zeros as are missing, at least one, and its last two groups
may be written as four numbers with points between them.
-/

namespace ChatServer.Url

/-- A number up to 255 without needless zeros. -/
def isOctet (cs : List Char) : Bool :=
  !cs.isEmpty && cs.all isDigit && (cs.length = 1 || cs.head? ≠ some '0') &&
    digitsValue cs ≤ 255

/-- Four numbers up to 255 with points between them. -/
def isQuad (cs : List Char) : Bool :=
  let octets := fields '.' cs
  octets.length = 4 && octets.all isOctet

/-- Whether a text writes the last `left` groups of an address; once groups have been left out it
may write fewer, and none may be left out again. -/
def isGroups (shortened : Bool) : Nat → List Char → Bool
  | left, [] => shortened || left = 0
  | 0, _ :: _ => false
  | left + 1, ':' :: cs => !shortened && isGroups true left cs
  | left + 1, cs =>
    let digits := (cs.takeWhile fun c => (hexValue? c).isSome).take 4
    match cs.drop digits.length with
    | [] => isGroups shortened left []
    | '.' :: _ => !digits.isEmpty && (left = 1 || (shortened && 1 < left)) && isQuad cs
    | ':' :: rest => !rest.isEmpty && isGroups shortened left rest
    | _ => false

/-- Whether a text is an address of eight groups. -/
def isAddress : List Char → Bool
  | ':' :: ':' :: cs => isGroups true 7 cs
  | ':' :: _ => false
  | cs => isGroups false 8 cs

/-- Characters that may not stand in a name. -/
def badInName (c : Char) : Bool :=
  c.toNat = 0 || c ∈ ['\t', '\n', '\r', ' ', '#', '/', ':', '<', '>', '?', '@', '[', '\\', ']',
    '^', '|']

def isHost : List Char → Bool
  | '[' :: cs => cs.getLast? = some ']' && isAddress cs.dropLast
  | cs => !cs.any badInName

end ChatServer.Url
