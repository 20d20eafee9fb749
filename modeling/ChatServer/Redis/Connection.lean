import ChatServer.Redis.Decoder
import ChatServer.Redis.Log

/-!
A connection to a Redis store, over which calls are made one at a time. Bytes behind the reply to a
call are read as far as they go and count for nothing; what they leave unfinished is finished by
the bytes that come next. A malformed reply ends the connection, which the next call finds out;
the call after it is made over a new one.
-/

namespace ChatServer.Redis

structure Connection where
  decoder : Decoder
  /-- Whether the connection has ended without a call having found out. -/
  broken : Bool

/-- What a call over a connection leads to. -/
structure Exchange where
  sent : List (List String)
  /-- What the call came to, once there is a reply. -/
  result : Option (Except Error LogAnswer)

namespace Connection

def new : Connection := ⟨Decoder.new, false⟩

/-- Makes a call, to which the server sends some bytes. -/
def exchange (c : Connection) (call : LogCall) (bytes : List UInt8) : Exchange × Connection :=
  if c.broken then (⟨[], some (.error .brokenPipe)⟩, new)
  else
    let (replies, stop) := c.decoder.feed bytes
    let result :=
      match replies, stop with
      | r :: _, _ => some (answer call r)
      | [], .error m => some (.error m.error)
      | [], .ok _ => none
    let after :=
      match stop with
      | .error _ => ⟨Decoder.new, true⟩
      | .ok d => ⟨d, false⟩
    (⟨[command call], result⟩, after)

end Connection

end ChatServer.Redis
