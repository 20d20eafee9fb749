import ChatServer.Log.Writer

/-!
A store, its writer and the clock. Writes are handed over at any time, but the writer moves only
when it is given time: to settle, to flush, or before the clock is advanced.
-/

namespace ChatServer

/-- A store with its background writer at a moment in time. -/
structure Journal (α : Type) where
  store : Store α
  writer : LogWriter
  now : Time
  ticket : Nat
  deriving DecidableEq, Inhabited

namespace Journal

/-- A journal at the start of the clock, its writer not yet started. -/
def new {α : Type} (store : Store α) (capacity : Nat) : Journal α :=
  ⟨store, LogWriter.new capacity, Time.start, 0⟩

variable {α : Type} [DecidableEq α]

/-- Lets the writer run until it can only wait. -/
def settle (j : Journal α) (me : α) : Journal α :=
  let (writer, store) := j.writer.run j.store j.now me
  { j with writer, store }

def push (j : Journal α) (write : LogWrite) : Except QueueError Unit × Journal α :=
  let (r, writer) := j.writer.push write
  (r, { j with writer })

/-- Hands a fresh barrier over; answers which. -/
def pushFlush (j : Journal α) : Except QueueError Unit × Nat × Journal α :=
  let (r, writer) := j.writer.push (.flush j.ticket)
  (r, j.ticket, { j with writer, ticket := j.ticket + 1 })

def advance (j : Journal α) (d : Duration) : Journal α := { j with now := j.now + d }

/-- What can happen to a journal whose only user of permits is its writer. -/
inductive Event
  | append (key value : String) (ttl : Duration)
  | purge (key : String)
  | flush
  | start
  | discard
  | release
  | settle
  /-- Asks whether a started writer has ended. -/
  | ended
  | permits (n : Nat)
  | outages (o : Outages)
  | size
  /-- A call past the outages. -/
  | call (c : LogCall)
  | advance (d : Duration)

inductive Answer
  | done
  | result (r : CallResult)
  | refused (e : QueueError)
  /-- Nobody holds the writer's line any more. -/
  | noQueue
  | noWriter
  /-- How handing over a barrier went, and what has become of it. -/
  | flushed (pushed : Option (Except QueueError Unit)) (state : FlushState)
  | ended (b : Option Bool)
  | size (n : Nat)

/-- Hands a write over if someone still can. -/
def offer (j : Journal Unit) (write : LogWrite) : Answer × Journal Unit :=
  if !j.writer.fed then (.noQueue, j)
  else
    match j.push write with
    | (.ok (), j) => (.done, j)
    | (.error e, j) => (.refused e, j)

/-- Whether the writer has ended, if it was ever started. -/
def ended? (j : Journal Unit) : Option Bool :=
  match j.writer.phase with
  | .ready | .discarded => none
  | .running => some false
  | .dead | .finished => some true

def step (j : Journal Unit) : Event → Answer × Journal Unit
  | .append key value ttl => j.offer (.append key value ttl)
  | .purge key => j.offer (.purge key)
  | .flush =>
    if !j.writer.fed then
      let j := j.settle ()
      (.flushed none .dropped, j)
    else
      let (r, ticket, j) := j.pushFlush
      let j := j.settle ()
      (.flushed (some r) (j.writer.flushState ticket), j)
  | .start =>
    let (found, writer) := j.writer.start
    (if found then .done else .noWriter, { j with writer })
  | .discard => (.done, { j with writer := j.writer.discard })
  | .release => (.done, { j with writer := j.writer.release })
  | .settle => (.done, j.settle ())
  | .ended => (.ended j.ended?, j)
  | .permits n => (.done, { j with store := j.store.addPermits n })
  | .outages o => (.done, { j with store := { j.store with outages := o } })
  | .size =>
    (.size (j.store.log.size j.now),
     { j with store := { j.store with log := j.store.log.purge j.now } })
  | .call c =>
    let (r, store) := j.store.callDirect j.now c
    (.result r, { j with store })
  -- the writer still runs at the old time
  | .advance d => (.done, (j.settle ()).advance d)

end Journal

end ChatServer
