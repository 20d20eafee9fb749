import ChatServer.Json.Value
import ChatServer.Text.Quoted
import ChatServer.Time.Read

/-!
Why a text is not the JSON that was asked for, and where that shows. A reader knows only what it
has not read yet, so it counts the place of a fault from the end of the text.
-/

namespace ChatServer.Json

/-- What stands where something else was expected. -/
inductive Found
  | null
  | flag (b : Bool)
  | number (n : Number)
  | text (s : String)
  | array
  | object

def Found.message : Found → String
  | .null => "null"
  | .flag true => "boolean `true`"
  | .flag false => "boolean `false`"
  | .number (.real x) => "floating point `" ++ String.ofList x.text ++ "`"
  | .number n => "integer `" ++ String.ofList n.chars ++ "`"
  | .text s => "string " ++ quoted s
  | .array => "sequence"
  | .object => "map"

/-- How a value would be named where it is not expected. -/
def Value.found : Value → Found
  | .null => .null
  | .flag b => .flag b
  | .number n => .number n
  | .text s => .text s
  | .array _ => .array
  | .object _ => .object

inductive Cause
  | valueEnds
  | stringEnds
  | arrayEnds
  | objectEnds
  | expectedColon
  | expectedArrayCommaOrEnd
  | expectedObjectCommaOrEnd
  | expectedLiteral
  | expectedValue
  | invalidEscape
  | invalidNumber
  | numberOutOfRange
  | controlCharacter
  | keyNotText
  | loneSurrogate
  | trailingComma
  | trailingCharacters
  | escapeEnds
  | tooDeep
  | wrongType (found : Found) (expected : String)
  | missingField (name : String)
  | duplicateField (name : String)
  | unknownVariant (name : String) (known : List String)
  | wrongLength (found : Nat) (expected : String)
  | timestamp (e : Instant.ReadError)

/-- Names between backquotes, divided by commas. -/
def listed (names : List String) : String :=
  String.intercalate ", " (names.map fun n => "`" ++ n ++ "`")

def Cause.message : Cause → String
  | .valueEnds => "EOF while parsing a value"
  | .stringEnds => "EOF while parsing a string"
  | .arrayEnds => "EOF while parsing a list"
  | .objectEnds => "EOF while parsing an object"
  | .expectedColon => "expected `:`"
  | .expectedArrayCommaOrEnd => "expected `,` or `]`"
  | .expectedObjectCommaOrEnd => "expected `,` or `\x7d`"
  | .expectedLiteral => "expected ident"
  | .expectedValue => "expected value"
  | .invalidEscape => "invalid escape"
  | .invalidNumber => "invalid number"
  | .numberOutOfRange => "number out of range"
  | .controlCharacter => "control character (\\u0000-\\u001F) found while parsing a string"
  | .keyNotText => "key must be a string"
  | .loneSurrogate => "lone leading surrogate in hex escape"
  | .trailingComma => "trailing comma"
  | .trailingCharacters => "trailing characters"
  | .escapeEnds => "unexpected end of hex escape"
  | .tooDeep => "recursion limit exceeded"
  | .wrongType found expected => "invalid type: " ++ found.message ++ ", expected " ++ expected
  | .missingField name => "missing field `" ++ name ++ "`"
  | .duplicateField name => "duplicate field `" ++ name ++ "`"
  | .unknownVariant name known =>
    "unknown variant `" ++ name ++ "`, expected one of " ++ listed known
  | .wrongLength found expected =>
    "invalid length " ++ toString found ++ ", expected " ++ expected
  | .timestamp e => e.message

/-- A cause and, where the fault has a place in the text, the number of bytes that follow the
place. -/
structure Fault where
  cause : Cause
  unread : Option Nat

def byteCount : List Char → Nat
  | [] => 0
  | c :: cs => c.utf8Size + byteCount cs

/-- A reader takes what it reads off the front of a text. -/
abbrev Reader (α : Type) := List Char → Except Fault (α × List Char)

/-- The fault stands where the unread text begins. -/
def stopAt (cause : Cause) (unread : List Char) : Fault := ⟨cause, some (byteCount unread)⟩

/-- The fault stands on the next byte, or at the end if there is none. -/
def stopOn (cause : Cause) (unread : List Char) : Fault := ⟨cause, some (byteCount unread - 1)⟩

/-- A place in a text: the line, from 1, and the number of bytes before it in the line. -/
structure Position where
  line : Nat
  column : Nat
  deriving DecidableEq, Inhabited

/-- The place `index` bytes into a text. -/
def positionAt : List Char → Nat → Position → Position
  | [], _, p => p
  | c :: cs, index, p =>
    if index < c.utf8Size then ⟨p.line, p.column + index⟩
    else
      positionAt cs (index - c.utf8Size)
        (if c = '\n' then ⟨p.line + 1, 0⟩ else ⟨p.line, p.column + c.utf8Size⟩)

structure Refusal where
  cause : Cause
  position : Option Position

def Refusal.message (r : Refusal) : String :=
  match r.position with
  | none => r.cause.message
  | some p =>
    r.cause.message ++ " at line " ++ toString p.line ++ " column " ++ toString p.column

/-- The place of a fault in the text it was found in. -/
def Fault.refusal (f : Fault) (text : List Char) : Refusal :=
  ⟨f.cause, f.unread.map fun n => positionAt text (byteCount text - n) ⟨1, 0⟩⟩

end ChatServer.Json
