import ChatServer.Room.Registry

/-!
A pump forwards what a listener receives into a sink of bounded size. While the sink is full it
waits with one payload in hand and looks at nothing else. It ends when the listener has nothing
more to give, when it is cancelled, or when it finds the sink's receiver gone; in the last two
cases it closes the listener.
-/

namespace ChatServer

inductive StreamEnd
  /-- The listener reached the end of its stream. -/
  | roomClosed
  | cancelled
  /-- The sink's receiver was gone. -/
  | consumerGone
  deriving DecidableEq

structure Pump where
  listener : Listener
  /-- What stands before each payload in the sink. -/
  heading : String
  sink : Channel Payload
  /-- A payload that waits for room in the sink. -/
  held : Option Payload
  /-- Somebody has tried to give the signal; it cannot be given twice. -/
  asked : Bool
  /-- The signal was given while the pump was running. -/
  signalled : Bool
  finish : Option StreamEnd
  deriving DecidableEq, Inhabited

namespace Pump

def new (listener : Listener) (heading : String) (capacity : Nat) : Pump :=
  ⟨listener, heading, Channel.new capacity, none, false, false, none⟩

def running (p : Pump) : Bool := p.finish.isNone

/-- Ends a pump: nothing more goes into its sink, and its listener is given up. -/
def stop (p : Pump) (r : Registry) (how : StreamEnd) : Pump × Registry :=
  let r :=
    match how with
    | .roomClosed => r
    | _ => r.closeListener p.listener.room p.listener.id
  ({ p with sink := p.sink.dropSender, held := none, finish := some how },
   r.dropReceiver p.listener.id)

/-- One move; nothing when the pump has ended or can only wait. A pump at rest that finds both
the signal and a payload takes the one that `signalFirst` tells. -/
def turn (p : Pump) (r : Registry) (signalFirst : Bool) : Option (Pump × Registry) :=
  if !p.running then none
  else
    match p.held with
    | some payload =>
      -- the signal is not looked at while a payload waits for the sink
      match p.sink.delivery with
      | .accepted => some ({ p with sink := p.sink.offer payload, held := none }, r)
      | .full => none
      | .gone => some (p.stop r .consumerGone)
    | none =>
      match r.receive p.listener.id with
      | (.item payload, r') =>
        if p.signalled && signalFirst then some (p.stop r .cancelled)
        else some ({ p with held := some (p.heading ++ payload) }, r')
      | (.empty, _) => if p.signalled then some (p.stop r .cancelled) else none
      | (.disconnected, _) =>
        if p.signalled && signalFirst then some (p.stop r .cancelled)
        else some (p.stop r .roomClosed)

/-- At most `fuel` moves, the signal first. -/
def runFor (p : Pump) (r : Registry) : Nat → Pump × Registry
  | 0 => (p, r)
  | fuel + 1 =>
    match p.turn r true with
    | none => (p, r)
    | some (p, r) => runFor p r fuel

/-- Runs until the pump can only wait: each waiting payload is taken and passed on once, and one
more move is needed to end. -/
def run (p : Pump) (r : Registry) : Pump × Registry :=
  p.runFor r (2 * ((r.channel? p.listener.id).map fun c => c.buffer.length).getD 0 + 2)

/-- Gives the signal; answers whether the pump was there to take it. -/
def signal (p : Pump) : Bool × Pump :=
  (p.running, { p with asked := true, signalled := p.signalled || p.running })

end Pump

end ChatServer
