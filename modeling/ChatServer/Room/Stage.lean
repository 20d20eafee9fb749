import ChatServer.Room.Broadcaster

/-!
A broadcaster together with the channels given to it: what happens on the sending and on the
receiving side, one event at a time.
-/

namespace ChatServer

structure Stage where
  broadcaster : Broadcaster
  channels : Channels
  deriving DecidableEq, Inhabited

namespace Stage

inductive Event
  /-- Makes a channel and subscribes it. -/
  | register (id : ListenerId) (ch : ChannelId) (capacity : Nat)
  | unregister (id : ListenerId)
  | contains (id : ListenerId)
  | publish (p : Payload)
  | close
  /-- The holder of a channel's receiver looks into it. -/
  | receive (ch : ChannelId)
  | dropReceiver (ch : ChannelId)

inductive Answer
  | done
  | flag (b : Bool)
  | report (r : PublishReport)
  | received (r : Received Payload)
  | noReceiver
  /-- No channel can have such a capacity. -/
  | noCapacity
  deriving DecidableEq

def new (room : RoomId) : Stage := ⟨Broadcaster.new room, Table.empty⟩

/-- The channel whose receiver is still held under `ch`. -/
def held? (s : Stage) (ch : ChannelId) : Option (Channel Payload) :=
  (s.channels.get? ch).filter Channel.receiving

def step (s : Stage) : Event → Answer × Stage
  | .register id ch capacity =>
    if !Channel.isCapacity capacity then (.noCapacity, s)
    else
      let (kept, b, chs) :=
        s.broadcaster.register (s.channels.put ch (Channel.new capacity)) id ch
      (.flag kept, ⟨b, chs⟩)
  | .unregister id =>
    let (found, b, chs) := s.broadcaster.unregister s.channels id
    (.flag found, ⟨b, chs⟩)
  | .contains id => (.flag (s.broadcaster.contains id), s)
  | .publish p =>
    let (report, b, chs) := s.broadcaster.publish s.channels p
    (.report report, ⟨b, chs⟩)
  | .close =>
    let (b, chs) := s.broadcaster.close s.channels
    (.done, ⟨b, chs⟩)
  | .receive ch =>
    match s.held? ch with
    | none => (.noReceiver, s)
    | some c =>
      let (r, c) := c.receive
      (.received r, { s with channels := s.channels.put ch c })
  | .dropReceiver ch => (.done, { s with channels := s.channels.modify ch Channel.dropReceiver })

end Stage

end ChatServer
