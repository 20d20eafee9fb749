import ChatServer.Hub.Settle

/-!
The events of a server's life and what each of them shows. All background work that an event
leads to is done before the next one.
-/

namespace ChatServer.Hub

inductive Event
  | create (room : RoomId)
  | delete (room : RoomId)
  | submit (sender : UserId) (room : RoomId) (text : String)
  | count (room : RoomId)
  | roomExists (room : RoomId)
  | flush
  | history (room : RoomId)
  | direct (sender receiver : UserId) (text : String)
  | getDirect (sender receiver : UserId)
  | deleteDirect (sender receiver : UserId)
  /-- Looks a key up as the server's log does, outages applying. -/
  | keyExists (key : String)
  | listen (name : Label) (room : RoomId)
  | listenAbandoned (room : RoomId)
  /-- Takes the listener last opened under a name out of a room, by default its own. -/
  | close (name : Label) (room : Option RoomId)
  | closeHeld (name : Label)
  | drop (name : Label)
  | receive (name : Label)
  | tryReceive (name : Label)
  | pump (name : Label) (capacity : Nat) (heading : String)
  | sinkReceive (name : Label)
  | sinkDrop (name : Label)
  | cancel (name : Label)
  | pumpEnd (name : Label)
  /-- A call to the log past the outages. -/
  | log (c : LogCall)
  | logSize
  | advance (d : Duration)
  | permits (n : Nat)
  | outages (o : Outages)
  | shutdown
  /-- A client connects. A name belongs to one connection for as long as that is served. -/
  | connect (name : Label) (connection : String)
  | text (name : Label) (s : String)
  /-- A frame that says nothing to the server. -/
  | ignored (name : Label)
  | disconnect (name : Label)

inductive Answer
  | done
  | flag (b : Bool)
  | count (n : Option Nat)
  | size (n : Nat)
  | history (rs : List ChatRecord)
  | directs (rs : List DirectRecord)
  | opened (room : RoomId)
  | abandoned
  /-- The call was refused before it could be given up. -/
  | refused
  /-- The next payload, or nothing at the end of the stream. -/
  | payload (p : Option Payload)
  | received (r : Received Payload)
  /-- The answer would have had to be waited for, and the call was given up. -/
  | pending
  /-- Whether the signal was taken; nothing if it had been given before. -/
  | cancelled (b : Option Bool)
  | pumpEnd (e : Option StreamEnd)
  | result (r : CallResult)
  | error (e : ServiceError)
  | noHandle
  | noListener
  | noSink
  | noClient
  /-- The connection that has the name is still served. -/
  | nameTaken
  /-- No channel can have such a capacity. -/
  | noCapacity

def ofLog {α : Type} (r : Except LogError α) (f : α → Answer) : Answer :=
  match r with
  | .ok a => f a
  | .error e => .error (.log e)

def Event.needsHandle : Event → Bool
  | .create _ | .delete _ | .submit .. | .count _ | .roomExists _ | .flush | .history _ | .direct ..
  | .getDirect .. | .deleteDirect .. | .keyExists _ | .listen .. | .listenAbandoned _ | .close ..
  | .closeHeld _ | .pump .. | .connect .. => true
  | _ => false

/-- Whether an event is a command, which somebody has to handle. -/
def Event.isCommand : Event → Bool
  | .create _ | .delete _ | .submit .. | .count _ | .roomExists _ | .flush | .listen ..
  | .close .. => true
  | _ => false

/-- Gives a held listener up without telling its room. -/
def dropHeld (h : Hub) (name : Label) : Hub :=
  match h.held.get? name with
  | none => h
  | some l => { h with registry := h.registry.dropReceiver l.id, held := h.held.erase name }

def dropPump (h : Hub) (name : Label) : Hub :=
  match h.pumps.get? name with
  | none => h
  | some p =>
    let (_, registry) := if p.running then p.stop h.registry .cancelled else (p, h.registry)
    { h with registry, pumps := h.pumps.erase name }

/-- Whether a connection of the name is still served. -/
def serves (h : Hub) (name : Label) : Bool := (h.connections.get? name).any Connection.alive

/-- What has become of a flush: it succeeds once its barrier is passed, and fails if it never
will be. -/
def flushAnswer (h : Hub) (ticket : Nat) : Answer :=
  match h.journal.writer.flushState ticket with
  | .done => .done
  | .pending => .pending
  | .dropped => .error .managerClosed

/-- What an event does and shows before the background work it leads to. -/
def react (h : Hub) : Event → Answer × Hub
  | .create room => (.done, h.create room)
  | .delete room => (.done, h.delete room)
  | .submit sender room text => (.done, h.submit sender room text)
  | .count room => (.count (h.registry.count room), h)
  | .roomExists room => (.flag (h.registry.count room).isSome, h)
  | .flush =>
    let (_, _, journal) := h.journal.pushFlush
    (.pending, { h with journal })
  | .history room =>
    let (r, h) := h.history room
    (ofLog r .history, h)
  | .direct sender receiver text =>
    match h.acquire .caller with
    -- the call is given up, and with it the place in the line for permits
    | (false, _) => (.pending, h)
    | (true, h) =>
      match h.direct sender receiver text with
      | (.answered _, h) => (.done, h)
      | (r, h) => (.result r, h)
  | .getDirect sender receiver =>
    let (r, h) := h.getDirect sender receiver
    (ofLog r .directs, h)
  | .deleteDirect sender receiver =>
    let (r, h) := h.deleteDirect sender receiver
    (ofLog r fun _ => .done, h)
  | .keyExists key =>
    let (r, h) := h.call (.contains key)
    (.result r, h)
  | .listen name room =>
    match h.openListener room with
    | (none, h) => (.error .managerClosed, h)
    | (some l, h) =>
      -- the room is not told that whoever was held under the name is given up
      let h := h.dropHeld name
      (.opened l.room, { h with opened := h.opened.put name l, held := h.held.put name l })
  | .listenAbandoned room => if h.managed then (.abandoned, h.openAbandoned room) else (.refused, h)
  | .close name room =>
    match h.opened.get? name with
    | none => (.done, h)
    | some l => (.done, h.closeListener (room.getD l.room) l.id)
  | .closeHeld name =>
    match h.held.get? name with
    | none => (.noListener, h)
    | some l => (.done, { h.release l with held := h.held.erase name })
  | .drop name => (if (h.held.get? name).isSome then .done else .noListener, h.dropHeld name)
  | .receive name =>
    match h.held.get? name with
    | none => (.noListener, h)
    | some l =>
      let (r, registry) := h.registry.receive l.id
      (match r with
        | .item p => .payload (some p)
        | .empty => .pending
        | .disconnected => .payload none, { h with registry })
  | .tryReceive name =>
    match h.held.get? name with
    | none => (.noListener, h)
    | some l =>
      let (r, registry) := h.registry.receive l.id
      (.received r, { h with registry })
  | .pump name capacity heading =>
    match h.held.get? name with
    | none => (.noListener, h)
    | some l =>
      if !Channel.isCapacity capacity then (.noCapacity, h)
      else
        let h := h.dropPump name
        (.done, { h with
          held := h.held.erase name, pumps := h.pumps.put name (Pump.new l heading capacity) })
  | .sinkReceive name =>
    match (h.pumps.get? name).filter fun p => p.sink.receiving with
    | none => (.noSink, h)
    | some p =>
      let (r, sink) := p.sink.receive
      (.received r, { h with pumps := h.pumps.put name { p with sink } })
  | .sinkDrop name =>
    (.done, { h with pumps := h.pumps.modify name fun p => { p with sink := p.sink.dropReceiver } })
  | .cancel name =>
    match h.pumps.get? name with
    | none => (.cancelled none, h)
    | some p =>
      if p.asked then (.cancelled none, h)
      else
        let (taken, p) := p.signal
        (.cancelled (some taken), { h with pumps := h.pumps.put name p })
  | .pumpEnd name => (.pumpEnd ((h.pumps.get? name).bind Pump.finish), h)
  | .log c =>
    let (r, h) := h.callLog c
    (.result r, h)
  | .logSize =>
    let store := h.journal.store
    (.size (store.log.size h.journal.now),
     h.withStore { store with log := store.log.purge h.journal.now })
  | .advance d => (.done, { h with journal := h.journal.advance d })
  | .permits n => (.done, h.withStore (h.journal.store.addPermits n))
  | .outages o => (.done, h.withStore { h.journal.store with outages := o })
  | .shutdown => (.done, { h with handle := false })
  | .connect name connection =>
    if h.serves name then (.nameTaken, h)
    else (.done, h.putConnection name (Connection.new connection))
  | .text name s =>
    match h.connections.get? name with
    | none => (.noClient, h)
    | some c => (.done, h.putConnection name { c with inbox := c.inbox ++ [.text s] })
  | .ignored name => (if h.connections.contains name then .done else .noClient, h)
  | .disconnect name =>
    match h.connections.get? name with
    | none => (.noClient, h)
    | some c => (.done, h.putConnection name { c with inbox := c.inbox ++ [.gone] })

/-- Forgets a client that has gone away, once it is no longer served. -/
def forget (h : Hub) (name : Label) : Answer × Hub :=
  match h.connections.get? name with
  | none => (.done, h)
  | some c =>
    if c.alive then (.pending, h) else (.done, { h with connections := h.connections.erase name })

/-- What an event shows in the end: a flush and a departure show whether they came to their end
with the background work. -/
def conclude (before h : Hub) (a : Answer) : Event → Answer × Hub
  | .flush => (h.flushAnswer before.journal.ticket, h)
  | .disconnect name =>
    match a with
    | .noClient => (.noClient, h)
    | _ => h.forget name
  | _ => (a, h)

/-- What each client has been sent since this was last collected. -/
def collect (h : Hub) : List (Label × Parcel) × Hub :=
  let sent := h.connections.entries.filterMap fun e => e.2.parcel?.map (e.1, ·)
  let emptied := h.connections.keys.foldl
    (fun t name => t.modify name Connection.emptied) h.connections
  (sent, { h with connections := emptied })

/-- One event with all the background work it leads to. -/
def step (h : Hub) (e : Event) : Answer × List (Label × Parcel) × Hub :=
  if e.needsHandle && !h.handle then (.noHandle, [], h)
  else if e.isCommand && !h.managed then (.error .managerClosed, [], h)
  else
    let (a, after) := h.react e
    let (a, after) := conclude h after.settle a e
    let (sent, after) := after.collect
    (a, sent, after)

end ChatServer.Hub
