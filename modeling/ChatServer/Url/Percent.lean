import ChatServer.Text.Bytes
import ChatServer.Text.Digits
import ChatServer.Text.Fields

/-!
Bytes written as text: a percent sign leads the two hexadecimal digits of a byte, and a percent
sign without such digits stands for itself. A query may be a list of pairs written this way.
-/

namespace ChatServer.Url

/-- The bytes of a text in which a percent sign may lead the two digits of a byte. -/
def percentBytes : List Char → List UInt8
  | [] => []
  | c :: cs =>
    match c, cs with
    | '%', a :: b :: rest =>
      match hexValue? a, hexValue? b with
      | some a, some b => UInt8.ofNat (16 * a + b) :: percentBytes rest
      | _, _ => 37 :: percentBytes (a :: b :: rest)
    | c, cs => String.utf8EncodeChar c ++ percentBytes cs

/-- The bytes of one side of a pair; a plus sign stands for a blank there. -/
def pairBytes (cs : List Char) : List UInt8 :=
  percentBytes (cs.map fun c => if c = '+' then ' ' else c)

/-- The pairs of a query, with an ampersand between pairs and an equals sign in each. -/
def queryPairs (query : List Char) : List (List UInt8 × List UInt8) :=
  ((fields '&' query).filter (· ≠ [])).map fun pair =>
    let (key, value) := halves '=' pair
    (pairBytes key, pairBytes value)

/-- The last value that a query gives a key. -/
def lastValue? (query : List Char) (key : String) : Option (List UInt8) :=
  (((queryPairs query).filter fun p => p.1 = bytesOf key).map Prod.snd).getLast?

end ChatServer.Url
