import ChatServer.Identity
import ChatServer.Room.Channel

/-!
One room's fan-out. A broadcaster holds the only sender of each of its subscribers' channels, so
taking a subscriber out is what ends its stream. Publishing never waits: a full channel misses
the payload and keeps its place, a channel without receiver loses its place.
-/

namespace ChatServer

abbrev Payload := String

structure ChannelId where
  number : Nat
  deriving DecidableEq, Inhabited

/-- All channels ever made, ended ones included. -/
abbrev Channels := Table ChannelId (Channel Payload)

/-- What would become of a payload offered to a channel. -/
def Channels.delivery (chs : Channels) (ch : ChannelId) : Delivery :=
  ((chs.get? ch).map Channel.delivery).getD .gone

/-- How many subscribers a payload reached and how many were too slow for it. -/
structure PublishReport where
  delivered : Nat
  dropped : Nat
  deriving DecidableEq

structure Broadcaster where
  room : RoomId
  subscribers : Table ListenerId ChannelId
  closed : Bool
  deriving DecidableEq, Inhabited

namespace Broadcaster

def new (room : RoomId) : Broadcaster := ⟨room, Table.empty, false⟩

/-- Subscribes a channel, handing over its sender. A closed broadcaster refuses; an identity that
is subscribed already keeps its first channel. A sender that is not kept is lost. -/
def register (b : Broadcaster) (chs : Channels) (id : ListenerId) (ch : ChannelId) :
    Bool × Broadcaster × Channels :=
  if b.closed then (false, b, chs.modify ch Channel.dropSender)
  else if b.subscribers.contains id then (true, b, chs.modify ch Channel.dropSender)
  else (true, { b with subscribers := b.subscribers.put id ch }, chs)

/-- Takes a subscriber out and ends its channel; answers whether there was one. -/
def unregister (b : Broadcaster) (chs : Channels) (id : ListenerId) :
    Bool × Broadcaster × Channels :=
  match b.subscribers.get? id with
  | none => (false, b, chs)
  | some ch =>
    (true, { b with subscribers := b.subscribers.erase id }, chs.modify ch Channel.dropSender)

def targets (b : Broadcaster) : List ChannelId := b.subscribers.entries.map Prod.snd

/-- Offers a payload to every subscriber and takes out those without receiver. -/
def publish (b : Broadcaster) (chs : Channels) (p : Payload) :
    PublishReport × Broadcaster × Channels :=
  ({ delivered := b.targets.countP fun ch => chs.delivery ch = .accepted
     dropped := b.targets.countP fun ch => chs.delivery ch = .full },
   { b with subscribers := b.subscribers.filter fun _ ch => chs.delivery ch ≠ .gone },
   b.targets.foldl (fun chs ch => chs.modify ch (·.offer p)) chs)

/-- Ends every subscriber's channel and refuses all further ones. -/
def close (b : Broadcaster) (chs : Channels) : Broadcaster × Channels :=
  ({ b with subscribers := Table.empty, closed := true },
   b.targets.foldl (fun chs ch => chs.modify ch Channel.dropSender) chs)

def count (b : Broadcaster) : Nat := b.subscribers.size

def contains (b : Broadcaster) (id : ListenerId) : Bool := b.subscribers.contains id

end Broadcaster

end ChatServer
