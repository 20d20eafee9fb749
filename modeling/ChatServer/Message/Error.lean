import ChatServer.Json.Fault
import ChatServer.Redis.Error

/-!
What can go wrong for a caller of the server.
-/

namespace ChatServer

inductive LogError
  | unavailable (reason : String)
  | redis (e : Redis.Error)

def LogError.message : LogError → String
  | .unavailable reason => "Durable log unavailable: " ++ reason
  | .redis e => "Redis error: " ++ e.message

inductive ServiceError
  | connectionClosed
  | json (r : Json.Refusal)
  | io (text : String)
  | log (e : LogError)
  | managerClosed
  | notIdentified
  | notInRoom

def ServiceError.message : ServiceError → String
  | .connectionClosed => "WebSocket error: Connection closed normally"
  | .json r => "JSON serialization error: " ++ r.message
  | .io text => "IO error: " ++ text
  | .log e => e.message
  | .managerClosed => "Room manager closed"
  | .notIdentified => "User not identified"
  | .notInRoom => "Not in room"

end ChatServer
