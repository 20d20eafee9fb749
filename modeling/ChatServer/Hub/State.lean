import ChatServer.Log.Journal
import ChatServer.Log.Key
import ChatServer.Message.Frame
import ChatServer.Message.Request
import ChatServer.Room.Pump
import ChatServer.Tuning

/-!
A running server: its rooms, its log with the background writer, the listeners and pumps held by
its users, and its connections. Commands to rooms take effect at once; what they ask of the log is
handed to the writer, whose refusal is not reported. Direct messages and everything read from the
log go to the store without the writer.
-/

namespace ChatServer

/-- The name under which a user of the server keeps a listener, a pump or a connection. -/
abbrev Label := String

/-- Who may wait for leave to push to the log. -/
inductive Task
  | writer
  | caller
  | connection (name : Label)
  deriving DecidableEq, Inhabited

/-- What a connection has told about itself. -/
structure Session where
  user : Option UserId
  joined : Option RoomId
  deriving DecidableEq, Inhabited

/-- What has arrived from a client and waits to be served. -/
inductive Inbound
  | text (s : String)
  | gone
  deriving DecidableEq

structure Connection where
  session : Session
  /-- The listener whose payloads are sent to the client. -/
  stream : Option Listener
  inbox : List Inbound
  /-- Frames sent that have not reached the client yet, oldest first. -/
  outbox : List Frame
  alive : Bool
  /-- Whether the server has closed the connection and the client has yet to see it. -/
  closed : Bool
  deriving DecidableEq, Inhabited

/-- A connection whose client has just come, told the name that tells it from all others. -/
def Connection.new (id : String) : Connection :=
  { session := ⟨none, none⟩, stream := none, inbox := [], outbox := [.connected id]
    alive := true, closed := false }

/-- What reaches a client: frames, and after them perhaps the end of the connection. -/
structure Parcel where
  frames : List Frame
  closed : Bool
  deriving DecidableEq

/-- What a connection has for its client, if that is anything. -/
def Connection.parcel? (c : Connection) : Option Parcel :=
  if c.outbox = [] && !c.closed then none else some ⟨c.outbox, c.closed⟩

/-- What a connection had for its client has reached it. -/
def Connection.emptied (c : Connection) : Connection := { c with outbox := [], closed := false }

structure Hub where
  tuning : Tuning
  registry : Registry
  journal : Journal Task
  /-- The civil time at which messages are stamped. -/
  wall : Instant
  /-- Whether the user of the server still holds a handle to it. -/
  handle : Bool
  /-- Whether commands are still handled. -/
  managed : Bool
  /-- The listener last opened under each name. -/
  opened : Table Label Listener
  /-- The listeners that are still held by their names. -/
  held : Table Label Listener
  pumps : Table Label Pump
  connections : Table Label Connection
  deriving DecidableEq, Inhabited

namespace Hub

def new (tuning : Tuning) (outages : Outages) (gated : Bool) (wall : Instant) : Hub :=
  let journal := Journal.new (Store.new outages gated) tuning.logQueue
  { tuning, registry := Registry.new tuning.subscriberBuffer
    journal := { journal with writer := journal.writer.start.2 }
    wall, handle := true, managed := true, opened := Table.empty, held := Table.empty
    pumps := Table.empty, connections := Table.empty }

/-- A server that has just been started, if its commands can wait in a channel. -/
def start? (tuning : Tuning) (outages : Outages) (gated : Bool) (wall : Instant) : Option Hub :=
  if Channel.isCapacity (max tuning.commandBuffer 1) then some (new tuning outages gated wall)
  else none

def withStore (h : Hub) (store : Store Task) : Hub :=
  { h with journal := { h.journal with store } }

/-- Hands a write to the background writer; a refused one is lost. -/
def enqueue (h : Hub) (w : LogWrite) : Hub := { h with journal := (h.journal.push w).2 }

/-- Makes a call to the store, outages applying. -/
def call (h : Hub) (c : LogCall) : CallResult × Hub :=
  let (r, store) := h.journal.store.call h.journal.now c
  (r, h.withStore store)

/-- Makes a call to the log that no outage touches. -/
def callLog (h : Hub) (c : LogCall) : CallResult × Hub :=
  let (r, store) := h.journal.store.callDirect h.journal.now c
  (r, h.withStore store)

def create (h : Hub) (room : RoomId) : Hub := { h with registry := h.registry.create room }

/-- Deletes a room and, if it existed, its history. -/
def delete (h : Hub) (room : RoomId) : Hub :=
  let (found, registry) := h.registry.delete room
  let h := { h with registry }
  if found then h.enqueue (.purge (roomKey room)) else h

/-- Sends a message to a room's listeners, if there is such a room, and to its history in any
case. -/
def submit (h : Hub) (sender : UserId) (room : RoomId) (text : String) : Hub :=
  let record : ChatRecord := ⟨sender, room, text, h.wall⟩
  { h with registry := h.registry.publish room record.line }.enqueue
    (.append (roomKey room) record.json h.tuning.ttl)

/-- The readable records of a room's history. -/
def history (h : Hub) (room : RoomId) : Except LogError (List ChatRecord) × Hub :=
  match h.call (.contains (roomKey room)) with
  | (.unavailable reason, h) => (.error (.unavailable reason), h)
  | (.answered (.found true), h) =>
    match h.call (.range (roomKey room) 0 (-1)) with
    | (.unavailable reason, h) => (.error (.unavailable reason), h)
    | (.answered (.values vs), h) => (.ok (readable ChatRecord.parse vs), h)
    | (_, h) => (.ok [], h)
  | (_, h) => (.ok [], h)

/-- Stores a direct message, leave to push having been given. -/
def direct (h : Hub) (sender receiver : UserId) (text : String) : CallResult × Hub :=
  let record := DirectRecord.new sender receiver text
  let (r, store) :=
    h.journal.store.write h.journal.now (directKey sender receiver) record.json h.tuning.ttl
  (r, h.withStore store)

/-- The readable direct messages from `sender` to `receiver`. -/
def getDirect (h : Hub) (sender receiver : UserId) : Except LogError (List DirectRecord) × Hub :=
  match h.call (.range (directKey sender receiver) 0 (-1)) with
  | (.unavailable reason, h) => (.error (.unavailable reason), h)
  | (.answered (.values vs), h) => (.ok (readable DirectRecord.parse vs), h)
  | (_, h) => (.ok [], h)

/-- Removes the direct messages from `sender` to `receiver`. -/
def deleteDirect (h : Hub) (sender receiver : UserId) : Except LogError Unit × Hub :=
  match h.call (.delete (directKey sender receiver)) with
  | (.unavailable reason, h) => (.error (.unavailable reason), h)
  | (_, h) => (.ok (), h)

/-- Stops handling commands: all rooms are closed, and nobody hands writes to the writer any
more. -/
def dismiss (h : Hub) : Hub :=
  { h with
    registry := h.registry.closeAll
    journal := { h.journal with writer := h.journal.writer.release }
    managed := false }

/-- Opens a listener on a room. Where listeners cannot have channels, the attempt is the last
command handled. -/
def openListener (h : Hub) (room : RoomId) : Option Listener × Hub :=
  if !h.managed then (none, h)
  else if h.registry.canOpen then
    let (l, registry) := h.registry.openListener room
    (some l, { h with registry })
  else (none, h.dismiss)

/-- Opens a listener for someone who is no longer there to take it. -/
def openAbandoned (h : Hub) (room : RoomId) : Hub :=
  if h.registry.canOpen then { h with registry := h.registry.openAbandoned room } else h.dismiss

def closeListener (h : Hub) (room : RoomId) (id : ListenerId) : Hub :=
  { h with registry := h.registry.closeListener room id }

/-- Gives up a listener and takes it out of its room. -/
def release (h : Hub) (l : Listener) : Hub :=
  { h with registry := (h.registry.closeListener l.room l.id).dropReceiver l.id }

end Hub

end ChatServer
