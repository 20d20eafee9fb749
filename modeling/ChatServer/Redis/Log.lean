import ChatServer.Log.Call
import ChatServer.Number.Bounds
import ChatServer.Redis.Reply

/-!
A durable log in a Redis store: the command each call sends, and what the reply to it means. Every
key is a list; appending, reading and expiring are the list's own commands.
-/

namespace ChatServer.Redis

/-- A time to live in whole milliseconds. One that is not zero never becomes zero, which would
remove the key at once. -/
def expireMillis (ttl : Duration) : Nat :=
  if ttl = 0 then 0 else max 1 (min (ttl / 1000000) (naturalEnd - 1))

/-- The command a call sends, as its words. -/
def command : LogCall → List String
  | .push key value => ["RPUSH", key, value]
  | .range key start stop => ["LRANGE", key, toString start, toString stop]
  | .expire key ttl => ["PEXPIRE", key, toString (expireMillis ttl)]
  | .delete key => ["DEL", key]
  | .contains key => ["EXISTS", key]

/-- The error of a reply that is not of the type asked for. -/
def mismatch (r : Reply) (reason : String) : Error :=
  .described .typeError "Response was of incompatible type"
    (some (quoted reason ++ " (response was " ++ r.shown ++ ")"))

def Reply.asFlag (r : Reply) : Except Error Bool :=
  match r with
  | .nil => .ok false
  | .okay => .ok true
  | .integer n => .ok (n ≠ 0)
  | .status s =>
    if s = "1" then .ok true
    else if s = "0" then .ok false
    else .error (mismatch r "Response status not valid boolean")
  | .data s =>
    if s = "1" then .ok true
    else if s = "0" then .ok false
    else .error (mismatch r "Response type not bool compatible.")
  | .array _ => .error (mismatch r "Response type not bool compatible.")

def Reply.asText (r : Reply) : Except Error String :=
  match r with
  | .data s => .ok s
  | .okay => .ok "OK"
  | .status s => .ok s
  | _ => .error (mismatch r "Response type not string compatible.")

/-- A reply read as a list of strings; a string counts as a list of one. -/
def Reply.asTexts (r : Reply) : Except Error (List String) :=
  match r with
  | .data s => .ok [s]
  | .array items => items.mapM Reply.asText
  | .nil => .ok []
  | _ => .error (mismatch r "Response type not vector compatible.")

/-- What the reply to a call means; writes take any reply that is no error. -/
def answer (c : LogCall) (r : Except Error Reply) : Except Error LogAnswer :=
  match r with
  | .error e => .error e
  | .ok r =>
    match c with
    | .range .. => r.asTexts.map LogAnswer.values
    | .contains _ => r.asFlag.map LogAnswer.found
    | _ => .ok .done

end ChatServer.Redis
