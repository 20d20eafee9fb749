import ChatServer.Json.Read

/-!
Reading records with a fixed set of typed fields. A record is written as an object, its fields in
any order and unknown members passed over, or as an array of its fields in their declared order.
-/

namespace ChatServer.Json

inductive Kind
  | text
  | flag
  | timestamp
  deriving DecidableEq

inductive Datum
  | text (s : String)
  | flag (b : Bool)
  | timestamp (t : Instant)
  deriving DecidableEq

structure Field where
  name : String
  kind : Kind
  deriving DecidableEq

structure Schema where
  name : String
  fields : List Field

/-- How a record is named where something else stands. -/
def Schema.title (s : Schema) : String := "struct " ++ s.name

def readTimestamp : Reader Instant := fun cs =>
  match readText "an RFC 3339 formatted date and time string" cs with
  | .error f => .error f
  | .ok (s, rest) =>
    match Instant.read s.toList with
    | .ok t => .ok (t, rest)
    | .error e => .error (stopAt (.timestamp e) rest)

/-- The content of a field of a given type. -/
def readDatum (kind : Kind) : Reader Datum := fun cs =>
  match kind with
  | .text =>
    match readText "a string" cs with
    | .error f => .error f
    | .ok (s, rest) => .ok (.text s, rest)
  | .flag =>
    match readFlag cs with
    | .error f => .error f
    | .ok (b, rest) => .ok (.flag b, rest)
  | .timestamp =>
    match readTimestamp cs with
    | .error f => .error f
    | .ok (t, rest) => .ok (.timestamp t, rest)

/-- The fields of a record in declared order, from the item at position `index` of an array on. -/
def readFieldItems (s : Schema) : Nat → List Field → Reader (List Datum)
  | _, [], cs =>
    match closeArray cs with
    | .error f => .error f
    | .ok rest => .ok ([], rest)
  | index, field :: fields, cs =>
    match nextItem (index = 0) cs with
    | .error f => .error f
    | .ok (.closed rest) =>
      .error (stopAt (.wrongLength index
        (s.title ++ " with " ++ toString s.fields.length ++ " elements")) rest)
    | .ok (.more _ rest) =>
      match readDatum field.kind rest with
      | .error f => .error f
      | .ok (d, rest) =>
        match readFieldItems s (index + 1) fields rest with
        | .error f => .error f
        | .ok (ds, rest) => .ok (d :: ds, rest)

/-- The fields read so far, by name. -/
abbrev Partial := List (String × Datum)

/-- The content of each field, or the first field that is missing. -/
def gather (found : Partial) : List Field → Except Cause (List Datum)
  | [] => .ok []
  | field :: fields =>
    match found.lookup field.name with
    | none => .error (.missingField field.name)
    | some d =>
      match gather found fields with
      | .error c => .error c
      | .ok ds => .ok (d :: ds)

/-- The fields of a record from the members of an object, in at most `fuel` members. -/
def readFieldMembers (s : Schema) : Nat → Partial → Bool → Reader (List Datum)
  | 0, _, _, cs => .error (stopAt .objectEnds cs)
  | fuel + 1, found, first, cs =>
    match nextKey first cs with
    | .error f => .error f
    | .ok (.closed rest) =>
      match gather found s.fields with
      | .error c => .error (stopAt c rest)
      | .ok ds => .ok (ds, rest)
    | .ok (.more k rest) =>
      match s.fields.find? fun field => field.name = k with
      | none =>
        match readColon rest with
        | .error f => .error f
        | .ok rest =>
          match skipValue rest with
          | .error f => .error f
          | .ok rest => readFieldMembers s fuel found false rest
      | some field =>
        if (found.lookup k).isSome then .error (stopAt (.duplicateField k) (behindName rest))
        else
          match readColon rest with
          | .error f => .error f
          | .ok rest =>
            match readDatum field.kind rest with
            | .error f => .error f
            | .ok (d, rest) => readFieldMembers s fuel ((k, d) :: found) false rest

/-- The contents of a record's fields in their declared order. -/
def readRecord (s : Schema) : Reader (List Datum) := fun cs =>
  match skipSpace cs with
  | '[' :: rest => readFieldItems s 0 s.fields rest
  | '\x7b' :: rest => readFieldMembers s (rest.length + 1) [] true rest
  | cs => .error (wrongType s.title cs)

end ChatServer.Json
