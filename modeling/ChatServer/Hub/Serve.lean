import ChatServer.Hub.State

/-!
Serving a client's requests. Every request is answered by exactly one frame, and a connection
streams at most one room: joining another one, leaving or going away gives the listener up.
-/

namespace ChatServer.Hub

def putConnection (h : Hub) (name : Label) (c : Connection) : Hub :=
  { h with connections := h.connections.put name c }

/-- Gives up the listener a connection streams. -/
def endStream (h : Hub) (c : Connection) : Connection × Hub :=
  match c.stream with
  | none => (c, h)
  | some l => ({ c with stream := none }, h.release l)

def endConnection (h : Hub) (name : Label) (c : Connection) : Hub :=
  let (c, h) := h.endStream c
  h.putConnection name
    { c with session := { c.session with joined := none }, inbox := [], alive := false }

inductive Served
  | reply (f : Frame) (c : Connection) (h : Hub)
  /-- The request ended the connection's task. -/
  | ended (c : Connection) (h : Hub)

def logReply {α : Type} (r : Except LogError α) (f : α → Frame) : Frame :=
  match r with
  | .ok a => f a
  | .error e => Frame.ofError (.log e)

/-- Serves a request that gives a command; a connection ends when nobody handles it. -/
def command (h : Hub) (c : Connection) (f : Frame) (after : Hub) : Served :=
  if h.managed then .reply f c after else .ended c h

/-- Serves one request of a connection; a direct message has leave to be pushed. -/
def serve (h : Hub) (c : Connection) : Request → Served
  | .identify user =>
    .reply (.identified user) { c with session := { c.session with user := some ⟨user⟩ } } h
  | .createRoom room => h.command c (.roomCreated room) (h.create ⟨room⟩)
  | .join room =>
    -- the old stream ends whether or not a new one can be opened
    let (c, h) := h.endStream c
    match h.openListener ⟨room⟩ with
    | (none, h) => .ended c h
    | (some l, h) =>
      .reply (.joined room)
        { c with session := { c.session with joined := some ⟨room⟩ }, stream := some l } h
  | .leave =>
    match c.session.joined with
    | none => .reply (Frame.ofError .notInRoom) c h
    | some room =>
      let (c, h) := h.endStream c
      .reply (.left room.text) { c with session := { c.session with joined := none } } h
  | .chat text =>
    match c.session.user, c.session.joined with
    | none, _ => .reply (Frame.ofError .notIdentified) c h
    | some _, none => .reply (Frame.ofError .notInRoom) c h
    | some user, some room => h.command c (.sent room.text) (h.submit user room text)
  | .deleteRoom room => h.command c (.roomDeleted room) (h.delete ⟨room⟩)
  | .history room =>
    let (r, h) := h.history ⟨room⟩
    .reply (logReply r (.history room)) c h
  | .direct receiver text =>
    match c.session.user with
    | none => .reply (Frame.ofError .notIdentified) c h
    | some user =>
      match h.direct user ⟨receiver⟩ text with
      | (.answered _, h) => .reply (.directSent receiver) c h
      | (.unavailable reason, h) =>
        .reply (Frame.ofError (.log (.unavailable reason))) c h
      | (.overflow, h) => .ended c h
  | .fetchDirect sender receiver =>
    let (r, h) := h.getDirect ⟨sender⟩ ⟨receiver⟩
    .reply (logReply r (.directMessages sender receiver)) c h
  | .deleteDirect sender receiver =>
    let (r, h) := h.deleteDirect ⟨sender⟩ ⟨receiver⟩
    .reply (logReply r fun _ => .directDeleted sender receiver) c h

/-- Whether a request of a connection pushes to the log before it is answered. -/
def pushes (c : Connection) : Except Json.Refusal Request → Bool
  | .ok (.direct ..) => c.session.user.isSome
  | _ => false

/-- Asks for leave to push in the name of a task. -/
def acquire (h : Hub) (who : Task) : Bool × Hub :=
  let (granted, store) := h.journal.store.acquire who
  (granted, h.withStore store)

/-- Serves the first thing in a connection's inbox; nothing if there is none or it has to wait. -/
def serveNext (h : Hub) (name : Label) : Option Hub :=
  match h.connections.get? name with
  | none => none
  | some c =>
    if !c.alive then none
    else
      match c.inbox with
      | [] => none
      | .gone :: _ => some (h.endConnection name c)
      | .text s :: rest =>
        let request := Request.parse s
        let (granted, h) := if pushes c request then h.acquire (.connection name) else (true, h)
        if !granted then none
        else
          let c := { c with inbox := rest }
          match request with
          | .error r =>
            some (h.putConnection name
              { c with outbox := c.outbox ++ [Frame.ofError (.json r)] })
          | .ok request =>
            match h.serve c request with
            | .reply f c h => some (h.putConnection name { c with outbox := c.outbox ++ [f] })
            -- the client, who has not left, sees the connection closed
            | .ended c h => some (h.endConnection name { c with closed := true })

/-- Joins the line for permits if the first request in the inbox has to wait for one. -/
def waitInLine (h : Hub) (name : Label) : Hub :=
  match h.connections.get? name with
  | none => h
  | some c =>
    match c.alive, c.inbox with
    | true, .text s :: _ =>
      if pushes c (Request.parse s) then (h.acquire (.connection name)).2 else h
    | _, _ => h

def serveFor (h : Hub) (name : Label) : Nat → Hub
  | 0 => h
  | fuel + 1 =>
    match h.serveNext name with
    | none => h.waitInLine name
    | some h => serveFor h name fuel

/-- Serves a connection's inbox until it is empty or has to wait. -/
def serveAll (h : Hub) (name : Label) : Hub :=
  h.serveFor name (((h.connections.get? name).map fun c => c.inbox.length).getD 0 + 1)

/-- Sends a connection what its listener has received, and the end of the stream. -/
def forward (h : Hub) (name : Label) : Hub :=
  match h.connections.get? name with
  | none => h
  | some c =>
    match c.stream with
    | none => h
    | some l =>
      match h.registry.channel? l.id with
      | none => h
      | some ch =>
        let frames := ch.buffer.map fun p => Frame.message l.room.text p
        let registry := { h.registry with
          channels := h.registry.channels.put l.id.channel { ch with buffer := [] } }
        if ch.sending then
          { h with registry }.putConnection name { c with outbox := c.outbox ++ frames }
        else
          { h with registry := registry.dropReceiver l.id }.putConnection name
            { c with
              outbox := c.outbox ++ (frames ++ [Frame.roomClosed l.room.text]), stream := none }

end ChatServer.Hub
