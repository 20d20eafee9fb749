import ChatServer.Json.Read

/-!
Reading a value that says by its member `type` which of several variants it is. The whole value is
read before its variant's fields are looked at, so a fault in a field has no place in the text.
-/

namespace ChatServer.Json

/-- What a tagged value holds beside its tag: the other members of an object, or the items of an
array after the first. -/
inductive Body
  | members (ms : List (String × Value))
  | items (vs : List Value)
  deriving Inhabited

def tagName : String := "type"

/-- A tag out of a list of known ones. -/
def readTag (known : List String) : Reader String := fun cs =>
  match readText "variant identifier" cs with
  | .error f => .error f
  | .ok (s, rest) =>
    if s ∈ known then .ok (s, rest) else .error (stopAt (.unknownVariant s known) rest)

/-- The tag and the other members of an object, in at most `fuel` members. -/
def readTaggedMembers (known : List String) (depth : Nat) :
    Nat → Option String → Bool → Reader (String × List (String × Value))
  | 0, _, _, cs => .error (stopAt .objectEnds cs)
  | fuel + 1, tag, first, cs =>
    match nextKey first cs with
    | .error f => .error f
    | .ok (.closed rest) =>
      match tag with
      | none => .error (stopAt (.missingField tagName) rest)
      | some t => .ok ((t, []), rest)
    | .ok (.more k rest) =>
      if k = tagName then
        if tag.isSome then .error (stopAt (.duplicateField tagName) (behindName rest))
        else
          match readColon rest with
          | .error f => .error f
          | .ok rest =>
            match readTag known rest with
            | .error f => .error f
            | .ok (t, rest) => readTaggedMembers known depth fuel (some t) false rest
      else
        match readColon rest with
        | .error f => .error f
        | .ok rest =>
          match readValue depth rest with
          | .error f => .error f
          | .ok (v, rest) =>
            match readTaggedMembers known depth fuel tag false rest with
            | .error f => .error f
            | .ok ((t, ms), rest) => .ok ((t, (k, v) :: ms), rest)

/-- A tagged value: its tag and what it holds beside it. -/
def readTagged (known : List String) (expected : String) : Reader (String × Body) := fun cs =>
  match skipSpace cs with
  | '\x7b' :: rest =>
    match readTaggedMembers known (depthLimit - 1) (rest.length + 1) none true rest with
    | .error f => .error f
    | .ok ((t, ms), rest) => .ok ((t, .members ms), rest)
  | '[' :: rest =>
    match nextItem true rest with
    | .error f => .error f
    | .ok (.closed rest) => .error (stopAt (.missingField tagName) rest)
    | .ok (.more _ rest) =>
      match readTag known rest with
      | .error f => .error f
      | .ok (t, rest) =>
        match readItems (depthLimit - 1) false rest with
        | .error f => .error f
        | .ok (vs, rest) => .ok ((t, .items vs), rest)
  | cs => .error (wrongType expected cs)

/-- The content of a member that has to be a string. -/
def Value.asText : Value → Except Cause String
  | .text s => .ok s
  | v => .error (.wrongType v.found "a string")

/-- The strings among members under the names given, each name at most once; other members are
passed over. -/
def collect (names : List String) : List (String × String) → List (String × Value) →
    Except Cause (List (String × String))
  | found, [] => .ok found
  | found, (k, v) :: ms =>
    if k ∈ names then
      if (found.lookup k).isSome then .error (.duplicateField k)
      else
        match v.asText with
        | .error c => .error c
        | .ok s => collect names ((k, s) :: found) ms
    else collect names found ms

/-- What was found under each name in turn. -/
def pick (found : List (String × String)) : List String → Except Cause (List String)
  | [] => .ok []
  | name :: names =>
    match found.lookup name with
    | none => .error (.missingField name)
    | some s =>
      match pick found names with
      | .error c => .error c
      | .ok ss => .ok (s :: ss)

/-- A count with its noun. -/
def counted (n : Nat) : String := toString n ++ if n = 1 then " element" else " elements"

/-- The strings of an array that has to hold one for each name, from position `index` on. -/
def itemTexts (title : String) (names : List String) (vs : List Value) :
    Nat → List String → List Value → Except Cause (List String)
  | _, [], [] => .ok []
  | _, [], _ :: _ =>
    .error (.wrongLength vs.length (counted names.length ++ " in sequence"))
  | index, _ :: _, [] =>
    .error (.wrongLength index (title ++ " with " ++ counted names.length))
  | index, _ :: rest, v :: more =>
    match v.asText with
    | .error c => .error c
    | .ok s =>
      match itemTexts title names vs (index + 1) rest more with
      | .error c => .error c
      | .ok ss => .ok (s :: ss)

/-- The strings a variant with these fields holds, in the fields' order. -/
def Body.texts (title : String) (names : List String) : Body → Except Cause (List String)
  | .members ms =>
    match collect names [] ms with
    | .error c => .error c
    | .ok found => pick found names
  | .items vs => itemTexts title names vs 0 names vs

end ChatServer.Json
