import ChatServer.Redis.Error
import ChatServer.Text.Quoted

/-!
What a Redis server replies. An error anywhere in a reply is the whole reply.
-/

namespace ChatServer.Redis

inductive Reply
  | nil
  | okay
  | status (s : String)
  | integer (n : Int)
  | data (s : String)
  | array (items : List Reply)
  deriving Inhabited

mutual

def Reply.shown : Reply → String
  | .nil => "nil"
  | .okay => "ok"
  | .status s => "status(" ++ quoted s ++ ")"
  | .integer n => "int(" ++ toString n ++ ")"
  | .data s => "string-data('" ++ quoted s ++ "')"
  | .array items => "bulk(" ++ shownItems items ++ ")"
termination_by structural r => r

def shownItems : List Reply → String
  | [] => ""
  | [r] => r.shown
  | r :: s :: rs => r.shown ++ ", " ++ shownItems (s :: rs)

end

/-- The reply that a status line tells. -/
def Reply.ofStatus (line : String) : Reply := if line = "OK" then .okay else .status line

/-- The kind of an error by its code. -/
def kindOf : String → Option ErrorKind
  | "ERR" => some .responseError
  | "EXECABORT" => some .execAbortError
  | "LOADING" => some .busyLoadingError
  | "NOSCRIPT" => some .noScriptError
  | "MOVED" => some .moved
  | "ASK" => some .ask
  | "TRYAGAIN" => some .tryAgain
  | "CLUSTERDOWN" => some .clusterDown
  | "CROSSSLOT" => some .crossSlot
  | "MASTERDOWN" => some .masterDown
  | "READONLY" => some .readOnly
  | "NOTBUSY" => some .notBusy
  | _ => none

/-- The error a line tells: a code and, behind the first blank, a detail. -/
def errorOf (line : String) : Error :=
  let cs := line.toList
  let code := String.ofList (cs.takeWhile (· ≠ ' '))
  let detail : Option String :=
    match cs.dropWhile (· ≠ ' ') with
    | [] => none
    | _ :: rest => some (String.ofList rest)
  match kindOf code with
  | some kind => .described kind "An error was signalled by the server" detail
  | none => .coded code (detail.getD "Unknown extension error encountered")

end ChatServer.Redis
