import ChatServer.CommandLine.Refusal

/-!
Reading the command line. A value is taken up when the next option is met or the arguments end;
so an argument that is no option's is reported before an earlier option's missing or bad value,
and an option after it is not.
-/

namespace ChatServer.CommandLine

/-- The options read so far: those whose values have been taken up, and the last one with the
value that follows it. -/
structure State where
  draft : Draft
  last : Option (Opt × Option String)

namespace State

def store (d : Draft) (o : Opt) (v : String) : Except Refusal Draft :=
  if d.has o then .error (.repeated o)
  else
    match d.set o v with
    | .ok d => .ok d
    | .error reason => .error (.invalidValue o v reason)

/-- Takes the last option's value up. -/
def resolve (s : State) : Except Refusal Draft :=
  match s.last with
  | none => .ok s.draft
  | some (o, none) => .error (.missingValue o)
  | some (o, some v) => store s.draft o v

/-- Meets an option, perhaps with its value in the same argument. -/
def meet (s : State) (o : Opt) (value : Option String) : Except Refusal State :=
  match s.resolve with
  | .error e => .error e
  | .ok d =>
    match value with
    | none => .ok ⟨d, some (o, none)⟩
    | some v =>
      match store d o v with
      | .error e => .error e
      | .ok d => .ok ⟨d, none⟩

def meetHelp (s : State) : Except Refusal State :=
  match s.resolve with
  | .error e => .error e
  | .ok _ => .error .help

end State

/-- The name and the value of an argument, divided by its first equals sign. -/
def divide (cs : List Char) : String × Option String :=
  (String.ofList (cs.takeWhile (· ≠ '=')),
   match cs.dropWhile (· ≠ '=') with
   | [] => none
   | _ :: v => some (String.ofList v))

/-- Reads one argument that stands before any `--`. -/
def readArgument (s : State) (arg : String) : Except Refusal State :=
  match arg.toList with
  | '-' :: '-' :: cs =>
    let (name, value) := divide cs
    match Opt.ofLong? name with
    | some o => s.meet o value
    | none =>
      if name = "help" then
        match value with
        | none => s.meetHelp
        | some v => .error (.needlessValue v)
      else .error (.unknownArgument ("--" ++ name))
  | '-' :: c :: cs =>
    if c = 'h' then s.meetHelp
    else
      match Opt.ofShort? c with
      | none => .error (.unknownArgument (String.ofList ['-', c]))
      | some o =>
        match cs with
        | [] => s.meet o none
        | '=' :: v => s.meet o (some (String.ofList v))
        | v => s.meet o (some (String.ofList v))
  | _ =>
    match s.last with
    | some (o, none) => .ok { s with last := some (o, some arg) }
    | _ => .error (.unknownArgument arg)

/-- Reads all arguments; behind `--` nothing is an option. -/
def readArguments (s : State) : List String → Except Refusal Draft
  | [] => s.resolve
  | arg :: args =>
    if arg = "--" then
      match args with
      | [] => s.resolve
      | arg :: _ => .error (.unknownArgument arg)
    else
      match readArgument s arg with
      | .error e => .error e
      | .ok s => readArguments s args

/-- Takes the options that have not been given from the environment. -/
def readEnvironment (env : Environment) : Draft → List Opt → Except Refusal Draft
  | d, [] => .ok d
  | d, o :: os =>
    if d.has o then readEnvironment env d os
    else
      match env.lookup o.envName with
      | none => readEnvironment env d os
      | some v =>
        match State.store d o v with
        | .error e => .error e
        | .ok d => readEnvironment env d os

/-- The settings a command line and its environment ask for. -/
def parse (args : List String) (env : Environment) : Except Refusal Settings :=
  match readArguments ⟨Draft.empty, none⟩ args with
  | .error e => .error e
  | .ok d =>
    match readEnvironment env d Opt.all with
    | .error e => .error e
    | .ok d => .ok d.settings

end ChatServer.CommandLine
