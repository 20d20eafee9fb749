/-!
Text written for a terminal, and what the terminal shows of it: sequences that begin with an
escape character are left out, and of the other control characters only those that are blanks are
kept.
-/

namespace ChatServer

/-- Where a reader of terminal text stands. -/
inductive TerminalState
  | ground
  | escape
  /-- Behind an escape character and further marks. -/
  | intermediate
  /-- Inside a sequence that an opening bracket began. -/
  | sequence
  /-- Inside a command to the system, which runs to a bell. -/
  | command
  /-- At the head of a string for the device. -/
  | device
  /-- Among the parameters at the head of a string for the device. -/
  | deviceParameters
  /-- Among the marks at the head of a string for the device. -/
  | deviceIntermediate
  /-- Inside a string that runs to its terminator. -/
  | string
  deriving DecidableEq

/-- Control characters that are blanks. -/
def isBlankControl (c : Char) : Bool := c = '\t' || c = '\n' || c = '\x0c' || c = '\r'

/-- Whether the terminator of strings, the byte 9C, is among the bytes of a character. -/
def holdsTerminator (c : Char) : Bool := (String.utf8EncodeChar c).any (· = 0x9c)

namespace TerminalState

/-- What follows an escape character and a character that may be printed. -/
def afterEscape (c : Char) : TerminalState :=
  if c.toNat ≤ 0x2f then .intermediate
  else if c = '[' then .sequence
  else if c = ']' then .command
  else if c = 'P' then .device
  else if c = 'X' || c = '^' || c = '_' then .string
  else .ground

/-- What follows a character that may be printed and is not shown. -/
def skip (s : TerminalState) (c : Char) : TerminalState :=
  match s with
  | .ground => .ground
  | .escape => afterEscape c
  | .intermediate => if c.toNat ≤ 0x2f then .intermediate else .ground
  | .sequence => if c.toNat ≤ 0x3f then .sequence else .ground
  | .command => .command
  | .device =>
    if c.toNat ≤ 0x2f then .deviceIntermediate
    else if c.toNat ≤ 0x3f then .deviceParameters
    else .string
  | .deviceParameters =>
    if c.toNat ≤ 0x2f then .deviceIntermediate
    else if c.toNat ≤ 0x3b then .deviceParameters
    else .string
  | .deviceIntermediate => if c.toNat ≤ 0x2f then .deviceIntermediate else .string
  | .string => .string

/-- Whether a character is shown, and where the reader stands behind it. A blank that stands in
the middle of an escape sequence breaks it off. -/
def step (s : TerminalState) (c : Char) : Bool × TerminalState :=
  if c = '\x1b' then (false, .escape)
  else if c = '\x18' || c = '\x1a' then (false, .ground)
  else
    match s with
    | .ground => ((0x20 ≤ c.toNat && c ≠ '\x7f') || isBlankControl c, .ground)
    | .command => (false, if c = '\x07' then .ground else .command)
    | .string => (false, if holdsTerminator c then .ground else .string)
    | .device | .deviceParameters | .deviceIntermediate =>
      (false, if 0x20 ≤ c.toNat && c.toNat < 0x7f then s.skip c else s)
    | .escape | .intermediate | .sequence =>
      if isBlankControl c then (true, .ground)
      else (false, if 0x20 ≤ c.toNat && c.toNat < 0x7f then s.skip c else s)

/-- The characters shown from a given place on. -/
def shown : TerminalState → List Char → List Char
  | _, [] => []
  | s, c :: cs =>
    match s.step c with
    | (true, s) => c :: shown s cs
    | (false, s) => shown s cs

end TerminalState

/-- The text that a terminal would show. -/
def plain (s : String) : String := String.ofList (TerminalState.ground.shown s.toList)

/-- A part of a text that a terminal sets off from the rest. -/
def setOff (style s : String) : String := "\x1b[" ++ style ++ "m" ++ s ++ "\x1b[0m"

end ChatServer
