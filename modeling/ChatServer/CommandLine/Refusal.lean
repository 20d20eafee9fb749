import ChatServer.CommandLine.Option
import ChatServer.Text.Plain

/-!
What a command line is refused with, and the help. Both are written for a terminal, with names and
refused parts set off, and given back as the terminal would show them.
-/

namespace ChatServer.CommandLine

/-- The environment variables that are set. -/
abbrev Environment := List (String × String)

inductive Refusal
  | help
  | unknownArgument (arg : String)
  | missingValue (o : Opt)
  | repeated (o : Opt)
  | invalidValue (o : Opt) (value : String) (reason : NumberError)
  /-- A value for the help, which takes none. -/
  | needlessValue (value : String)
  deriving DecidableEq

def heading (s : String) : String := setOff "1" (setOff "4" s)

def literal (s : String) : String := setOff "1" s

/-- A part of the command line that is refused. -/
def invalid (s : String) : String := setOff "33" s

/-- The text with its further lines as far from the margin as the help of an option. -/
def indented (s : String) : String :=
  String.ofList (s.toList.flatMap fun c => if c = '\n' then c :: List.replicate 10 ' ' else [c])

def Opt.helpText (env : Environment) (o : Opt) : String :=
  let letter :=
    match o.short with
    | some c => "  " ++ literal ("-" ++ String.singleton c) ++ ", "
    | none => "      "
  let default :=
    match o.fallback with
    | some v => " [default: " ++ v ++ "]"
    | none => ""
  let value := (env.lookup o.envName).getD ""
  letter ++ literal ("--" ++ o.long) ++ " <" ++ o.valueName ++ ">\n          " ++ o.help ++
    " [env: " ++ o.envName ++ "=" ++ indented value ++ "]" ++ default ++ "\n"

/-- The help, as it is written to a terminal. -/
def helpText (env : Environment) : String :=
  "WebSocket chat room server with a short-lived message log\n\n" ++
    heading "Usage:" ++ " " ++ literal "classroom_chat" ++ " [OPTIONS]\n\n" ++
    heading "Options:" ++ "\n" ++ String.join (Opt.all.map (Opt.helpText env)) ++
    "  " ++ literal "-h" ++ ", " ++ literal "--help" ++ "\n          Print help\n"

/-- What is wrong with a command line, as it is written to a terminal. -/
def Refusal.text (env : Environment) : Refusal → String
  | .help => helpText env
  | .unknownArgument arg => "unexpected argument '" ++ invalid arg ++ "' found"
  | .missingValue o =>
    "a value is required for '" ++ invalid o.usage ++ "' but none was supplied"
  | .repeated o => "the argument '" ++ invalid o.usage ++ "' cannot be used multiple times"
  | .invalidValue o value reason =>
    "invalid value '" ++ invalid value ++ "' for '" ++ literal o.usage ++ "': " ++ reason.message
  | .needlessValue value =>
    "unexpected value '" ++ invalid value ++ "' for '" ++ literal "--help" ++
      "' found; no more were expected"

/-- The text before the first line break, which a carriage return may lead. -/
def firstLine (s : String) : String :=
  let line := s.toList.takeWhile (· ≠ '\n')
  let broken := line.length < s.toList.length
  String.ofList (if broken && line.getLast? = some '\r' then line.dropLast else line)

/-- The first line of a refusal, or the whole help, as a terminal shows it. -/
def Refusal.message (env : Environment) (r : Refusal) : String :=
  match r with
  | .help => plain (r.text env)
  | _ => firstLine (plain (setOff "1" (setOff "31" "error:") ++ " " ++ r.text env))

end ChatServer.CommandLine
