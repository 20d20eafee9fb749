import ChatServer.Tuning

/-!
What a server is started with.
-/

namespace ChatServer

structure Settings where
  host : String
  port : Nat
  /-- Where the log is kept; in memory if nowhere. -/
  redisUrl : Option String
  commandBuffer : Nat
  subscriberBuffer : Nat
  logQueue : Nat
  messageTtlSeconds : Nat
  deriving DecidableEq

namespace Settings

/-- The settings of a server about which nothing is said. -/
def default : Settings := ⟨"127.0.0.1", 8080, none, 256, 10, 1024, 3600⟩

instance : Inhabited Settings := ⟨default⟩

def bindAddress (s : Settings) : String := s.host ++ ":" ++ toString s.port

/-- How the server's rooms and log are run; no buffer is smaller than one. -/
def tuning (s : Settings) : Tuning :=
  { commandBuffer := max s.commandBuffer 1
    subscriberBuffer := max s.subscriberBuffer 1
    logQueue := max s.logQueue 1
    ttl := Duration.ofSeconds s.messageTtlSeconds }

end Settings

end ChatServer
