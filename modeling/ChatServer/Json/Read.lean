import ChatServer.Json.Numeral

/-!
Reading JSON values: the steps that lead through arrays and objects, values as trees, and values
that are only passed over. Trees may be nested to a limit and their numbers have to be in range;
what is passed over is free of both.
-/

namespace ChatServer.Json

/-- What follows in an array or an object: its end, or a further item. -/
inductive Next (α : Type)
  | closed (rest : List Char)
  | more (a : α) (rest : List Char)

/-- Goes to the next item of an array, `first` before the first one. -/
def nextItem (first : Bool) (cs : List Char) : Except Fault (Next Unit) :=
  match skipSpace cs with
  | [] => .error (stopAt .arrayEnds [])
  | ']' :: rest => .ok (.closed rest)
  | c :: rest =>
    if first then .ok (.more () (c :: rest))
    else if c = ',' then
      match skipSpace rest with
      | [] => .error (stopAt .valueEnds [])
      | ']' :: rest => .error (stopOn .trailingComma (']' :: rest))
      | cs => .ok (.more () cs)
    else .error (stopOn .expectedArrayCommaOrEnd (c :: rest))

/-- Reads the name of the next member of an object, `first` before the first one. -/
def nextKey (first : Bool) (cs : List Char) : Except Fault (Next String) :=
  let key : List Char → Except Fault (Next String)
    | [] => .error (stopAt .valueEnds [])
    | '"' :: rest =>
      match readString rest with
      | .error f => .error f
      | .ok (k, rest) => .ok (.more k rest)
    | '\x7d' :: rest => .error (stopOn .trailingComma ('\x7d' :: rest))
    | cs => .error (stopOn .keyNotText cs)
  match skipSpace cs with
  | [] => .error (stopAt .objectEnds [])
  | '\x7d' :: rest => .ok (.closed rest)
  | c :: rest =>
    if first then key (c :: rest)
    else if c = ',' then key (skipSpace rest)
    else .error (stopOn .expectedObjectCommaOrEnd (c :: rest))

def readColon (cs : List Char) : Except Fault (List Char) :=
  match skipSpace cs with
  | [] => .error (stopAt .objectEnds [])
  | ':' :: rest => .ok rest
  | cs => .error (stopOn .expectedColon cs)

/-- Where the fault of a repeated name shows: before what follows the name, or behind the end of
the object. -/
def behindName (cs : List Char) : List Char :=
  match skipSpace cs with
  | '\x7d' :: rest => rest
  | cs => cs

/-- The end of an array all of whose items have been read. -/
def closeArray (cs : List Char) : Except Fault (List Char) :=
  match skipSpace cs with
  | [] => .error (stopAt .arrayEnds [])
  | ']' :: rest => .ok rest
  | ',' :: rest =>
    match skipSpace rest with
    | ']' :: rest => .error (stopOn .trailingComma (']' :: rest))
    | cs => .error (stopOn .trailingCharacters cs)
  | cs => .error (stopOn .trailingCharacters cs)

/-- A value that is neither array nor object, from its first character on. -/
def readScalar : Reader Value
  | [] => .error (stopAt .valueEnds [])
  | 'n' :: rest =>
    match readLiteral ['u', 'l', 'l'] rest with
    | .error f => .error f
    | .ok rest => .ok (.null, rest)
  | 't' :: rest =>
    match readLiteral ['r', 'u', 'e'] rest with
    | .error f => .error f
    | .ok rest => .ok (.flag true, rest)
  | 'f' :: rest =>
    match readLiteral ['a', 'l', 's', 'e'] rest with
    | .error f => .error f
    | .ok rest => .ok (.flag false, rest)
  | '"' :: rest =>
    match readString rest with
    | .error f => .error f
    | .ok (s, rest) => .ok (.text s, rest)
  | '-' :: rest =>
    match readNumber true rest with
    | .error f => .error f
    | .ok (n, rest) => .ok (.number n, rest)
  | c :: rest =>
    if isDigit c then
      match readNumber false (c :: rest) with
      | .error f => .error f
      | .ok (n, rest) => .ok (.number n, rest)
    else .error (stopOn .expectedValue (c :: rest))

mutual

/-- A value nested less than `depth` deep, in at most `fuel` steps. -/
def readValueFor : Nat → Nat → Reader Value
  | 0, _, cs => .error (stopAt .valueEnds cs)
  | fuel + 1, depth, cs =>
    match skipSpace cs with
    | '[' :: rest =>
      if depth ≤ 1 then .error (stopOn .tooDeep ('[' :: rest))
      else
        match readItemsFor fuel (depth - 1) true rest with
        | .error f => .error f
        | .ok (vs, rest) => .ok (.array vs, rest)
    | '\x7b' :: rest =>
      if depth ≤ 1 then .error (stopOn .tooDeep ('\x7b' :: rest))
      else
        match readMembersFor fuel (depth - 1) true rest with
        | .error f => .error f
        | .ok (ms, rest) => .ok (.object ms, rest)
    | cs => readScalar cs

/-- The items of an array up to and with its end. -/
def readItemsFor : Nat → Nat → Bool → Reader (List Value)
  | 0, _, _, cs => .error (stopAt .arrayEnds cs)
  | fuel + 1, depth, first, cs =>
    match nextItem first cs with
    | .error f => .error f
    | .ok (.closed rest) => .ok ([], rest)
    | .ok (.more _ rest) =>
      match readValueFor fuel depth rest with
      | .error f => .error f
      | .ok (v, rest) =>
        match readItemsFor fuel depth false rest with
        | .error f => .error f
        | .ok (vs, rest) => .ok (v :: vs, rest)

/-- The members of an object up to and with its end. -/
def readMembersFor : Nat → Nat → Bool → Reader (List (String × Value))
  | 0, _, _, cs => .error (stopAt .objectEnds cs)
  | fuel + 1, depth, first, cs =>
    match nextKey first cs with
    | .error f => .error f
    | .ok (.closed rest) => .ok ([], rest)
    | .ok (.more k rest) =>
      match readColon rest with
      | .error f => .error f
      | .ok rest =>
        match readValueFor fuel depth rest with
        | .error f => .error f
        | .ok (v, rest) =>
          match readMembersFor fuel depth false rest with
          | .error f => .error f
          | .ok (ms, rest) => .ok ((k, v) :: ms, rest)

end

/-- The steps any value takes that a text can hold: each character begins at most one value and
one item. -/
def enough (cs : List Char) : Nat := 2 * cs.length + 2

/-- A value nested less than `depth` deep. -/
def readValue (depth : Nat) : Reader Value := fun cs => readValueFor (enough cs) depth cs

/-- The items of an array from the given place on. -/
def readItems (depth : Nat) (first : Bool) : Reader (List Value) := fun cs =>
  readItemsFor (enough cs) depth first cs

/-- Passes over a value that is neither array nor object. -/
def skipScalar : List Char → Except Fault (List Char)
  | [] => .error (stopAt .valueEnds [])
  | 'n' :: rest => readLiteral ['u', 'l', 'l'] rest
  | 't' :: rest => readLiteral ['r', 'u', 'e'] rest
  | 'f' :: rest => readLiteral ['a', 'l', 's', 'e'] rest
  | '"' :: rest => skipString rest
  | '-' :: rest => skipNumber rest
  | c :: rest =>
    if isDigit c then skipNumber (c :: rest) else .error (stopOn .expectedValue (c :: rest))

mutual

/-- Passes over a value in at most `fuel` steps. -/
def skipValueFor : Nat → List Char → Except Fault (List Char)
  | 0, cs => .error (stopAt .valueEnds cs)
  | fuel + 1, cs =>
    match skipSpace cs with
    | '[' :: rest => skipItemsFor fuel true rest
    | '\x7b' :: rest => skipMembersFor fuel true rest
    | cs => skipScalar cs

/-- Passes over the items of an array and its end. -/
def skipItemsFor : Nat → Bool → List Char → Except Fault (List Char)
  | 0, _, cs => .error (stopAt .arrayEnds cs)
  | fuel + 1, first, cs =>
    let item (cs : List Char) : Except Fault (List Char) :=
      match skipValueFor fuel cs with
      | .error f => .error f
      | .ok rest => skipItemsFor fuel false rest
    match skipSpace cs with
    | [] => .error (stopAt .arrayEnds [])
    | ']' :: rest => .ok rest
    | c :: rest =>
      if first then item (c :: rest)
      else if c = ',' then item rest
      else .error (stopOn .expectedArrayCommaOrEnd (c :: rest))

/-- Passes over the members of an object and its end. -/
def skipMembersFor : Nat → Bool → List Char → Except Fault (List Char)
  | 0, _, cs => .error (stopAt .objectEnds cs)
  | fuel + 1, first, cs =>
    let member (cs : List Char) : Except Fault (List Char) :=
      match skipSpace cs with
      | [] => .error (stopAt .objectEnds [])
      | '"' :: rest =>
        match skipString rest with
        | .error f => .error f
        | .ok rest =>
          match readColon rest with
          | .error f => .error f
          | .ok rest =>
            match skipValueFor fuel rest with
            | .error f => .error f
            | .ok rest => skipMembersFor fuel false rest
      | cs => .error (stopOn .keyNotText cs)
    match skipSpace cs with
    | [] => .error (stopAt .objectEnds [])
    | '\x7d' :: rest => .ok rest
    | c :: rest =>
      if first then member (c :: rest)
      else if c = ',' then member rest
      else .error (stopOn .expectedObjectCommaOrEnd (c :: rest))

end

def skipValue (cs : List Char) : Except Fault (List Char) := skipValueFor (enough cs) cs

/-- The fault of a value that is not of the type expected. A value without parts is read first
and the fault stands behind it; an array or an object is refused where it begins. -/
def wrongType (expected : String) (cs : List Char) : Fault :=
  match cs with
  | '[' :: _ => stopAt (.wrongType .array expected) cs
  | '\x7b' :: _ => stopAt (.wrongType .object expected) cs
  | cs =>
    match readScalar cs with
    | .error f => f
    | .ok (v, rest) => stopAt (.wrongType v.found expected) rest

def readText (expected : String) : Reader String := fun cs =>
  match skipSpace cs with
  | '"' :: rest => readString rest
  | cs => .error (wrongType expected cs)

def readFlag : Reader Bool := fun cs =>
  match skipSpace cs with
  | 't' :: rest =>
    match readLiteral ['r', 'u', 'e'] rest with
    | .error f => .error f
    | .ok rest => .ok (true, rest)
  | 'f' :: rest =>
    match readLiteral ['a', 'l', 's', 'e'] rest with
    | .error f => .error f
    | .ok rest => .ok (false, rest)
  | cs => .error (wrongType "a boolean" cs)

/-- Reads a whole text, behind which only blanks may stand. -/
def readWhole {α : Type} (reader : Reader α) (text : String) : Except Refusal α :=
  let cs := text.toList
  match reader cs with
  | .error f => .error (f.refusal cs)
  | .ok (a, rest) =>
    match skipSpace rest with
    | [] => .ok a
    | unread => .error ((stopOn .trailingCharacters unread).refusal cs)

def depthLimit : Nat := 128

def parse (text : String) : Except Refusal Value := readWhole (readValue depthLimit) text

end ChatServer.Json
