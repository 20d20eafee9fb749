import ChatServer.Text.Fields

/-!
The path of a URL. A path that begins with a slash is a list of segments, from which those that
only point to the same place or one place up have been resolved.
-/

namespace ChatServer.Url

abbrev Segment := List Char

/-- Whether a segment is a dot, which may be written with a percent sign. -/
def isDot (s : Segment) : Bool :=
  s = ['.'] || s.map Char.toLower = ['%', '2', 'e']

/-- Whether a segment is two dots. -/
def isDoubleDot (s : Segment) : Bool :=
  (s.take 1 = ['.'] && isDot (s.drop 1)) || (isDot (s.take 3) && isDot (s.drop 3))

/-- Whether a segment is the letter of a drive. -/
def isDrive : Segment → Bool
  | [letter, mark] => letter.isAlpha && (mark = ':' || mark = '|')
  | _ => false

/-- The segments above a place, the nearest first; one does not go up from a drive. -/
def goUp : List Segment → List Segment
  | [] => []
  | s :: above => if isDrive s then s :: above else above

/-- The segments of a path whose beginning has been resolved to `above`, the last one first. -/
def resolve (above : List Segment) : List Segment → List Segment
  | [] => above
  | s :: rest =>
    let shown : List Segment := if rest.isEmpty then [[]] else []
    if isDoubleDot s then resolve (shown ++ goUp above) rest
    else if isDot s then resolve (shown ++ above) rest
    else resolve (s :: above) rest

inductive Path
  | segments (ss : List Segment)
  /-- A path that does not begin with a slash. -/
  | bare (cs : List Char)
  deriving DecidableEq, Inhabited

namespace Path

/-- The path that the text behind a slash writes. -/
def ofRest (cs : List Char) : Path := .segments (resolve [] (fields '/' cs)).reverse

def text : Path → List Char
  | .segments ss => ss.flatMap fun s => '/' :: s
  | .bare cs => cs

end Path

end ChatServer.Url
