import ChatServer.Proofs.Hub.Pieces

/-!
A run as it is seen from outside: what was said and deleted, who came and went, and what everybody
was answered, in the order in which it was done. From this alone follows what each client can know
of itself, and what it ought to hear of the room that it has joined.
-/

namespace ChatServer

/-- What a client knows of itself from what it has been answered. -/
structure Visitor where
  user : Option UserId
  /-- The room last joined and not left since. -/
  room : Option RoomId
  /-- That room, unless it has been deleted since. -/
  hears : Option RoomId
  deriving DecidableEq

namespace Visitor

/-- Somebody who is not there, or has just come. -/
def stranger : Visitor := ⟨none, none, none⟩

/-- After an answer to a request of one's own. -/
def told (v : Visitor) : Frame → Visitor
  | .identified user => { v with user := some ⟨user⟩ }
  | .joined room => { v with room := some ⟨room⟩, hears := some ⟨room⟩ }
  | .left _ => { v with room := none, hears := none }
  | _ => v

/-- After the deletion of a room. -/
def without (v : Visitor) (room : RoomId) : Visitor :=
  if v.hears = some room then { v with hears := none } else v

end Visitor

/-- Something that was done on a server. -/
inductive Deed
  /-- A message was submitted other than by a connection. -/
  | said (sender : UserId) (room : RoomId) (text : String)
  /-- A room was deleted other than by a connection. -/
  | deleted (room : RoomId)
  /-- A connection was opened. -/
  | arrived (name : Label)
  /-- A connection ended. -/
  | departed (name : Label)
  /-- A connection was answered. -/
  | answered (name : Label) (request : Request) (reply : Frame)
  deriving DecidableEq

/-- What is known of every client. -/
abbrev Visitors := Label → Visitor

/-- Nobody is there. -/
def Visitors.nobody : Visitors := fun _ => .stranger

namespace Deed

/-- The room that was deleted by a deed. -/
def deleted? : Deed → Option RoomId
  | .deleted room => some room
  | .answered _ _ (.roomDeleted room) => some ⟨room⟩
  | _ => none

/-- The line that a deed says, and where. -/
def line? (vs : Visitors) : Deed → Option (RoomId × Payload)
  | .said sender room text => some (room, sender.text ++ ": " ++ text)
  | .answered name (.chat text) (.sent room) =>
    (vs name).user.map fun user => (⟨room⟩, user.text ++ ": " ++ text)
  | _ => none

/-- What a client is answered by a deed. -/
def repliesTo (name : Label) : Deed → List Frame
  | .answered n _ reply => if n = name then [reply] else []
  | _ => []

/-- What a client ought to hear of a deed. -/
def heardBy (vs : Visitors) (name : Label) (d : Deed) : List Frame :=
  match (vs name).hears with
  | none => []
  | some room =>
    ((d.line? vs).filter fun line => line.1 = room).toList.map
      (fun line => Frame.message room.text line.2) ++
        if d.deleted? = some room then [Frame.roomClosed room.text] else []

end Deed

namespace Visitors

/-- After a deed, leaving deletions aside. -/
def meet (vs : Visitors) (d : Deed) : Visitors := fun name =>
  match d with
  | .arrived n | .departed n => if name = n then .stranger else vs name
  | .answered n _ reply => if name = n then (vs name).told reply else vs name
  | _ => vs name

/-- After a deed. -/
def after (vs : Visitors) (d : Deed) : Visitors := fun name =>
  match d.deleted? with
  | none => vs.meet d name
  | some room => (vs.meet d name).without room

/-- After a series of deeds. -/
def afterAll (vs : Visitors) (ds : List Deed) : Visitors := ds.foldl after vs

@[simp] theorem afterAll_nil (vs : Visitors) : vs.afterAll [] = vs := rfl

@[simp] theorem afterAll_cons (vs : Visitors) (d : Deed) (ds : List Deed) :
    vs.afterAll (d :: ds) = (vs.after d).afterAll ds := rfl

@[simp] theorem afterAll_append (vs : Visitors) (ds es : List Deed) :
    vs.afterAll (ds ++ es) = (vs.afterAll ds).afterAll es := List.foldl_append

/-- What a client ought to hear of a series of deeds. -/
def heard (vs : Visitors) (name : Label) : List Deed → List Frame
  | [] => []
  | d :: ds => d.heardBy vs name ++ (vs.after d).heard name ds

example : nobody.heard "b" [.answered "b" (.join "r") (.joined "r"), .said ⟨"u"⟩ ⟨"r"⟩ "early",
    .deleted ⟨"r"⟩, .said ⟨"u"⟩ ⟨"r"⟩ "late"] = [.message "r" "u: early", .roomClosed "r"] := by
  decide +kernel

@[simp] theorem heard_nil (vs : Visitors) (name : Label) : vs.heard name [] = [] := rfl

theorem heard_append (vs : Visitors) (name : Label) (ds es : List Deed) :
    vs.heard name (ds ++ es) = vs.heard name ds ++ (vs.afterAll ds).heard name es := by
  induction ds generalizing vs with
  | nil => rfl
  | cons d ds ih => rw [List.cons_append, heard, ih, heard, List.append_assoc, afterAll_cons]

end Visitors

/-- A listener and the connection for which it was opened; none, if the user of the server
opened it. -/
structure Subscription where
  owner : Option Label
  listener : Listener
  deriving DecidableEq

namespace Hub

/-- The listener that a connection has at present. -/
def stream? (h : Hub) (name : Label) : Option Listener :=
  (h.connections.get? name).bind Connection.stream

/-- What becomes of the first request in a connection's inbox, if there is one that can be read. -/
def served? (h : Hub) (name : Label) : Option Deed :=
  match h.connections.get? name with
  | none => none
  | some c =>
    match c.inbox with
    | [] => none
    | .gone :: _ => some (.departed name)
    | .text s :: rest =>
      match Request.parse s with
      | .error _ => none
      | .ok request =>
        let h := if pushes c (.ok request) then (h.acquire (.connection name)).2 else h
        match h.serve { c with inbox := rest } request with
        | .reply f _ _ => some (.answered name request f)
        | .ended .. => some (.departed name)

/-- What is done by a piece of work. -/
def deeds (h : Hub) : Piece → List Deed
  | .react (.submit sender room text) => [.said sender room text]
  | .react (.delete room) => [.deleted room]
  | .react (.connect name _) => if h.serves name then [] else [.arrived name]
  | .serve name => if (h.serveNext name).isSome then (h.served? name).toList else []
  | _ => []

/-- The subscriptions that a piece of work opens. -/
def opens (h : Hub) : Piece → List Subscription
  | .react (.listen _ room) => (h.openListener room).1.toList.map (⟨none, ·⟩)
  | .serve name =>
    match h.deeds (.serve name) with
    | [.answered _ _ (.joined _)] =>
      ((h.piece (.serve name)).stream? name).toList.map (⟨some name, ·⟩)
    | _ => []
  | _ => []

/-- What is done by a series of pieces. -/
def log (h : Hub) : List Piece → List Deed
  | [] => []
  | p :: ps => h.deeds p ++ (h.piece p).log ps

/-- The subscriptions that a series of pieces opens. -/
def ledger (h : Hub) : List Piece → List Subscription
  | [] => []
  | p :: ps => h.opens p ++ (h.piece p).ledger ps

theorem log_append (h : Hub) (ps qs : List Piece) :
    h.log (ps ++ qs) = h.log ps ++ (h.pieces ps).log qs := by
  induction ps generalizing h with
  | nil => rfl
  | cons p ps ih => rw [List.cons_append, log, ih, log, List.append_assoc, pieces_cons]

end Hub

end ChatServer
