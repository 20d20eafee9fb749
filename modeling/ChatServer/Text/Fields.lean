/-!
Text divided at a separator.
-/

namespace ChatServer

/-- The texts between separators; there is one more of them than of separators. -/
def fields (separator : Char) : List Char → List (List Char)
  | [] => [[]]
  | c :: cs =>
    if c = separator then [] :: fields separator cs
    else
      match fields separator cs with
      | first :: others => (c :: first) :: others
      | [] => [[c]]

/-- The text before the first separator, and the text behind it. -/
def halves (separator : Char) (cs : List Char) : List Char × List Char :=
  (cs.takeWhile (· ≠ separator), (cs.dropWhile (· ≠ separator)).tail)

end ChatServer
