import ChatServer.Clock

/-!
The sizes and times that a server's rooms and log are run with.
-/

namespace ChatServer

structure Tuning where
  /-- How many commands may wait for the manager; senders wait when there are more. -/
  commandBuffer : Nat
  /-- How many payloads a listener may leave unread before further ones are lost to it. -/
  subscriberBuffer : Nat
  /-- How many appends may wait for the log writer. -/
  logQueue : Nat
  /-- How long a key of the log lives after each write. -/
  ttl : Duration
  deriving DecidableEq

namespace Tuning

def default : Tuning := ⟨256, 10, 1024, Duration.ofSeconds 3600⟩

instance : Inhabited Tuning := ⟨default⟩

end Tuning

end ChatServer
