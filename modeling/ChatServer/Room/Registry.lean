import ChatServer.Room.Broadcaster

/-!
All rooms of a server and the channels of their listeners. A room comes into being when it is
created or first listened to and stays until it is deleted, with or without listeners. Every
listener has an identity and a channel of its own.
-/

namespace ChatServer

/-- One subscription to a room, as its owner holds it. -/
structure Listener where
  id : ListenerId
  room : RoomId
  deriving DecidableEq, Inhabited

/-- The channel of a listener bears its number. -/
def ListenerId.channel (id : ListenerId) : ChannelId := ⟨id.number⟩

/-- The rooms and all channels ever made for listeners. -/
structure Registry where
  rooms : Table RoomId Broadcaster
  channels : Channels
  next : Nat
  capacity : Nat
  deriving DecidableEq, Inhabited

namespace Registry

/-- No rooms; channels hold at least one payload. -/
def new (capacity : Nat) : Registry := ⟨Table.empty, Table.empty, 0, max capacity 1⟩

/-- The broadcaster of a room, a fresh one if there is no such room. -/
def roomOrNew (r : Registry) (room : RoomId) : Broadcaster :=
  (r.rooms.get? room).getD (Broadcaster.new room)

/-- Creates a room; one that exists is left as it is. -/
def create (r : Registry) (room : RoomId) : Registry :=
  { r with rooms := r.rooms.putNew room (Broadcaster.new room) }

def canOpen (r : Registry) : Bool := Channel.isCapacity r.capacity

/-- Opens a listener on a room, which is created if need be. -/
def openListener (r : Registry) (room : RoomId) : Listener × Registry :=
  let id : ListenerId := ⟨r.next⟩
  let (_, b, chs) := (r.roomOrNew room).register
    (r.channels.put id.channel (Channel.new r.capacity)) id id.channel
  (⟨id, room⟩, { r with rooms := r.rooms.put room b, channels := chs, next := r.next + 1 })

/-- Takes a listener out of a room; an absent room or listener is left alone. -/
def closeListener (r : Registry) (room : RoomId) (id : ListenerId) : Registry :=
  match r.rooms.get? room with
  | none => r
  | some b =>
    let (_, b, chs) := b.unregister r.channels id
    { r with rooms := r.rooms.put room b, channels := chs }

/-- The holder of a listener gives it up without telling the room. -/
def dropReceiver (r : Registry) (id : ListenerId) : Registry :=
  { r with channels := r.channels.modify id.channel Channel.dropReceiver }

/-- Opens a listener for someone who is no longer there to take it. -/
def openAbandoned (r : Registry) (room : RoomId) : Registry :=
  let (l, r) := r.openListener room
  (r.dropReceiver l.id).closeListener room l.id

/-- Ends every listener of a room and forgets the room; answers whether it existed. -/
def delete (r : Registry) (room : RoomId) : Bool × Registry :=
  match r.rooms.get? room with
  | none => (false, r)
  | some b => (true, { r with rooms := r.rooms.erase room, channels := (b.close r.channels).2 })

/-- Sends a payload to all listeners of a room, if there is such a room. -/
def publish (r : Registry) (room : RoomId) (p : Payload) : Registry :=
  match r.rooms.get? room with
  | none => r
  | some b =>
    let (_, b, chs) := b.publish r.channels p
    { r with rooms := r.rooms.put room b, channels := chs }

/-- The number of a room's listeners, if there is such a room. -/
def count (r : Registry) (room : RoomId) : Option Nat :=
  (r.rooms.get? room).map Broadcaster.count

def channel? (r : Registry) (id : ListenerId) : Option (Channel Payload) :=
  r.channels.get? id.channel

/-- Takes the oldest payload out of a listener's channel. -/
def receive (r : Registry) (id : ListenerId) : Received Payload × Registry :=
  match r.channel? id with
  | none => (.disconnected, r)
  | some c =>
    let (got, c) := c.receive
    (got, { r with channels := r.channels.put id.channel c })

def closeAll (r : Registry) : Registry :=
  { r with
    channels := (r.rooms.entries.map Prod.snd).foldl (fun chs b => (b.close chs).2) r.channels
    rooms := Table.empty }

end Registry

end ChatServer
