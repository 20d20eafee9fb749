import ChatServer.Proofs.Connection.Work
import ChatServer.Proofs.Room.Consumer

/-!
What a server does to its rooms. Every piece of work gives the rooms certain orders, which can be
told from what is asked for, from what is answered and from what pumps and streams pass on; nothing
else is done to the rooms. So the rooms of a server are those of a registry that has obeyed, from
the beginning, the orders of all pieces of work done so far.
-/

namespace ChatServer

namespace Registry

theorem obeyAll_releaseOrders (r : Registry) (l : Option Listener) :
    r.obeyAll (releaseOrders l) = r.release l := by
  cases l <;> rfl

/-- Receiving as often as something waits empties a channel. -/
theorem obeyAll_receive {r : Registry} {id : ListenerId} {c : Channel Payload}
    (hc : r.channel? id = some c) :
    r.obeyAll (List.replicate c.buffer.length (.receive id)) =
      { r with channels := r.channels.put id.channel { c with buffer := [] } } := by
  obtain ⟨capacity, buffer, sending, receiving⟩ := c
  induction buffer generalizing r with
  | nil =>
      have hsame := Table.put_of_get? (t := r.channels) hc
      simp only [List.length_nil, List.replicate_zero, obeyAll_nil, hsame]
  | cons p rest ih =>
      have hone : r.obey (.receive id) =
          { r with
            channels := r.channels.put id.channel ⟨capacity, rest, sending, receiving⟩ } := by
        simp only [obey, receive, hc, Channel.receive]
      have hnext : (r.obey (.receive id)).channel? id =
          some ⟨capacity, rest, sending, receiving⟩ := by
        rw [hone, channel?, Table.get?_put, if_pos rfl]
      rw [List.length_cons, List.replicate_succ, obeyAll_cons, ih hnext, hone]
      simp only [Table.put_put]

end Registry

open Registry

/-- What a connection does to the rooms that is answered or ends. -/
def Connection.orders (c : Connection) : Deed → List Order
  | .departed _ => releaseOrders c.stream
  | .answered _ _ (.joined room) => releaseOrders c.stream ++ [.listen ⟨room⟩]
  | .answered _ _ (.left _) => releaseOrders c.stream
  | .answered _ _ (.roomCreated room) => [.create ⟨room⟩]
  | .answered _ _ (.roomDeleted room) => [.delete ⟨room⟩]
  | .answered _ (.chat text) (.sent room) =>
    c.session.user.toList.map fun user => .publish ⟨room⟩ (user.text ++ ": " ++ text)
  | _ => []

namespace Hub

/-- What an event asks of the rooms. -/
def asked (h : Hub) : Event → List Order
  | .create room => [.create room]
  | .delete room => [.delete room]
  | .submit sender room text => [.publish room (sender.text ++ ": " ++ text)]
  | .listen name room =>
    match (h.openListener room).1 with
    | none => []
    | some _ => .listen room :: dropOrders (h.held.get? name)
  | .listenAbandoned room => if h.managed && h.registry.canOpen then [.abandon room] else []
  | .close name room => (h.opened.get? name).toList.map fun l => .close (room.getD l.room) l.id
  | .closeHeld name => releaseOrders (h.held.get? name)
  | .drop name => dropOrders (h.held.get? name)
  | .receive name | .tryReceive name => (h.held.get? name).toList.map fun l => .receive l.id
  | .pump name capacity _ =>
    if (h.held.get? name).isSome && Channel.isCapacity capacity then
      releaseOrders (((h.pumps.get? name).filter Pump.running).map Pump.listener)
    else []
  | _ => []

/-- What a connection does to the rooms that passes on what has been published. -/
def passed (h : Hub) (name : Label) : List Order :=
  match h.stream? name with
  | none => []
  | some l =>
    match h.registry.channel? l.id with
    | none => []
    | some c =>
      List.replicate c.buffer.length (.receive l.id) ++ if c.sending then [] else [.drop l.id]

/-- What a piece of work does to the rooms unless it is the last. -/
def given (h : Hub) : Piece → List Order
  | .react e => h.asked e
  | .serve name =>
    (h.connections.get? name).toList.flatMap fun c => (h.deeds (.serve name)).flatMap c.orders
  | .pump name => (h.pumps.get? name).toList.flatMap fun p => p.orders h.registry
  | .forward name => h.passed name
  | _ => []

/-- All rooms come to their end when nobody handles commands any more. -/
def ending (h h' : Hub) : List Order := if h.managed && !h'.managed then [.closeAll] else []

/-- The orders that a piece of work gives to the rooms. -/
def orders (h : Hub) (p : Piece) : List Order := h.given p ++ h.ending (h.piece p)

/-- The orders that a series of pieces gives to the rooms. -/
def ordersAll (h : Hub) : List Piece → List Order
  | [] => []
  | p :: ps => h.orders p ++ (h.piece p).ordersAll ps

variable {h h' : Hub}

/-- A piece of work after which commands are handled as before. -/
theorem orders_of_managed {p : Piece} (hm : (h.piece p).managed = h.managed) :
    h.orders p = h.given p := by
  simp [orders, ending, hm]

theorem ending_of_managed (hm : h'.managed = h.managed) : h.ending h' = [] := by
  simp [ending, hm]

theorem ending_dismiss (hm : h.managed = true) : h.ending h.dismiss = [.closeAll] := by
  simp [ending, hm, dismiss]

/-- What a piece of work comes to that concerns neither pumps nor what the user of the server
holds. -/
def Aside (h : Hub) (os : List Order) (h' : Hub) : Prop :=
  ∃ wall journal managed connections,
    h' = { h with registry := h.registry.obeyAll os, wall, journal, managed, connections }

theorem Aside.registry {os : List Order} (ha : Aside h os h') :
    h'.registry = h.registry.obeyAll os := by
  obtain ⟨wall, journal, managed, connections, rfl⟩ := ha
  rfl

/-- Where commands are handled as before. -/
theorem aside_of_eq (os : List Order) (heq : ∃ wall journal connections,
      h' = { h with registry := h.registry.obeyAll os, wall, journal, connections }) :
    Aside h (os ++ h.ending h') h' := by
  obtain ⟨wall, journal, connections, rfl⟩ := heq
  refine ⟨wall, journal, h.managed, connections, ?_⟩
  simp [ending]

/-! ### Events -/

/-- A listener that is opened is opened by the rooms. -/
theorem openListener_some {g : Hub} {room : RoomId} {l : Listener}
    (hopen : h.openListener room = (some l, g)) :
    l = (h.registry.openListener room).1 ∧
      g = { h with registry := (h.registry.openListener room).2 } := by
  unfold openListener at hopen
  split at hopen
  · simp at hopen
  · split at hopen
    · obtain ⟨hl, rfl⟩ := Prod.mk.inj hopen
      exact ⟨(Option.some.inj hl).symm, rfl⟩
    · simp at hopen

theorem openListener_none {g : Hub} {room : RoomId} (hopen : h.openListener room = (none, g)) :
    g = h ∨ g = h.dismiss := by
  unfold openListener at hopen
  split at hopen
  · exact .inl (Prod.mk.inj hopen).2.symm
  · split at hopen
    · simp at hopen
    · exact .inr (Prod.mk.inj hopen).2.symm

theorem registry_listen (h : Hub) (name : Label) (room : RoomId) :
    (h.react (.listen name room)).2.registry =
      h.registry.obeyAll (h.orders (.react (.listen name room))) := by
  simp only [orders, given, asked, piece, react]
  cases hm : h.managed with
  | false =>
      have hopen : h.openListener room = (none, h) := by simp [openListener, hm]
      simp [hopen, ending]
  | true =>
      cases hcan : h.registry.canOpen with
      | false =>
          have hopen : h.openListener room = (none, h.dismiss) := by
            simp [openListener, hm, hcan]
          simp only [hopen, ending_dismiss hm]
          rfl
      | true =>
          have hopen : h.openListener room = (some (h.registry.openListener room).1,
              { h with registry := (h.registry.openListener room).2 }) := by
            simp [openListener, hm, hcan]
          simp only [hopen, dropHeld]
          cases h.held.get? name with
          | none => simp [dropOrders, obey, ending]
          | some l => simp [dropOrders, obey, ending]

theorem registry_listenAbandoned (h : Hub) (room : RoomId) :
    (h.react (.listenAbandoned room)).2.registry =
      h.registry.obeyAll (h.orders (.react (.listenAbandoned room))) := by
  simp only [orders, given, asked, piece, react, openAbandoned]
  cases hm : h.managed with
  | false => simp [ending]
  | true =>
      cases hcan : h.registry.canOpen with
      | false =>
          simp only [Bool.and_false, Bool.false_eq_true, if_false, if_true, ending_dismiss hm]
          rfl
      | true =>
          simp only [Bool.and_true, if_true, ending, hm, Bool.not_true, Bool.and_false,
            Bool.false_eq_true, if_false]
          rfl

theorem registry_pump (h : Hub) (name : Label) (capacity : Nat) (heading : String) :
    (h.react (.pump name capacity heading)).2.registry =
      h.registry.obeyAll (h.asked (.pump name capacity heading)) := by
  simp only [react, asked]
  cases h.held.get? name with
  | none => rfl
  | some l =>
      cases Channel.isCapacity capacity with
      | false => rfl
      | true =>
          unfold dropPump
          cases h.pumps.get? name with
          | none => rfl
          | some p =>
              cases hrunning : p.running with
              | false => simp [Option.filter, hrunning, releaseOrders]
              | true => simp [Option.filter, hrunning, releaseOrders, Pump.stop, obey]

/-- Events of the front that neither open listeners nor start pumps. -/
theorem registry_asked {e : Event} (he : e.isFront = true)
    (hlisten : ∀ name room, e ≠ .listen name room) (habandon : ∀ room, e ≠ .listenAbandoned room) :
    (h.react e).2.registry = h.registry.obeyAll (h.asked e) ∧
      (h.react e).2.managed = h.managed := by
  cases e with
  | listen name room => exact absurd rfl (hlisten name room)
  | listenAbandoned room => exact absurd rfl (habandon room)
  | pump name capacity heading =>
      refine ⟨registry_pump h name capacity heading, ?_⟩
      obtain ⟨registry, pumps, heq, -⟩ := dropPump_eq h name
      simp only [react, heq]
      split
      · rfl
      · split <;> rfl
  | delete room =>
      simp only [react, delete, asked]
      split <;> exact ⟨rfl, rfl⟩
  | close name room =>
      simp only [react, asked]
      cases h.opened.get? name <;> exact ⟨rfl, rfl⟩
  | closeHeld name | receive name | tryReceive name =>
      simp only [react, asked]
      cases h.held.get? name <;> exact ⟨rfl, rfl⟩
  | drop name =>
      simp only [react, asked, dropHeld]
      cases h.held.get? name <;> exact ⟨rfl, rfl⟩
  | sinkReceive name =>
      simp only [react]
      split <;> exact ⟨rfl, rfl⟩
  | cancel name =>
      simp only [react]
      split
      · exact ⟨rfl, rfl⟩
      · split <;> exact ⟨rfl, rfl⟩
  | create room | submit sender room text | count room | roomExists room | sinkDrop name
  | pumpEnd name | shutdown => exact ⟨rfl, rfl⟩
  | _ => simp [Event.isFront] at he

/-- Events that are not of the front. -/
theorem aside_react {e : Event} (he : e.isFront = false) :
    Aside h (h.asked e) (h.react e).2 ∧ (h.react e).2.managed = h.managed := by
  cases hlog : e.isLogSide with
  | true =>
      obtain ⟨journal, heq⟩ := react_logSide (h := h) hlog
      have hnothing : h.asked e = [] := by
        cases e <;> first | rfl | simp [Event.isLogSide] at hlog
      rw [hnothing, heq]
      exact ⟨⟨h.wall, journal, h.managed, h.connections, rfl⟩, rfl⟩
  | false =>
      cases e with
      | connect name connection | text name s | disconnect name =>
          simp only [react]
          split <;> exact ⟨⟨h.wall, h.journal, h.managed, _, rfl⟩, rfl⟩
      | ignored name => exact ⟨⟨h.wall, h.journal, h.managed, _, rfl⟩, rfl⟩
      | _ => simp_all [Event.isFront, Event.isLogSide]

/-! ### Requests -/

/-- What a request does to the rooms that is served: what its answer tells; or the connection ends
that made it, having given up its listener, perhaps because no listener can be opened at all. -/
inductive Obeys (h : Hub) (name : Label) (c : Connection) (request : Request) : Served → Prop
  | reply {f : Frame} {c' : Connection} {g : Hub} (journal : Journal Task)
      (eq : g = { h with
        registry := h.registry.obeyAll (c.orders (.answered name request f)), journal }) :
      Obeys h name c request (.reply f c' g)
  | ended {c' : Connection} {g : Hub} (journal : Journal Task) (managed : Bool)
      (eq : g = { h with registry := g.registry, journal, managed })
      (registry : g.registry.release c'.stream =
        h.registry.obeyAll (releaseOrders c.stream ++ h.ending g)) :
      Obeys h name c request (.ended c' g)

theorem obeys_ended (h : Hub) (name : Label) (c : Connection) (request : Request)
    (journal : Journal Task) :
    Obeys h name c request (.ended c { h with journal }) := by
  refine .ended journal h.managed rfl ?_
  have hending : h.ending { h with journal } = [] := ending_of_managed rfl
  rw [hending, List.append_nil, obeyAll_releaseOrders]

theorem obeys_command {name : Label} {c : Connection} {request : Request} {f : Frame} {after : Hub}
    (hafter : ∃ journal, after = { h with
      registry := h.registry.obeyAll (c.orders (.answered name request f)), journal }) :
    Obeys h name c request (h.command c f after) := by
  unfold command
  split
  · obtain ⟨journal, rfl⟩ := hafter
    exact .reply journal rfl
  · exact obeys_ended h name c request h.journal

/-- Requests that concern the log only. -/
theorem obeys_journal {name : Label} {c : Connection} {request : Request} {f : Frame} {g : Hub}
    (hg : ∃ journal, g = { h with journal })
    (hf : (c.orders (.answered name request f)).isEmpty = true) :
    Obeys h name c request (.reply f c g) := by
  obtain ⟨journal, rfl⟩ := hg
  refine .reply journal ?_
  rw [List.isEmpty_iff.1 hf]
  rfl

/-- Requests that read the log, whatever comes of it. -/
theorem obeys_look {α : Type} {name : Label} {c : Connection} {request : Request}
    (r : Except LogError α) {f : α → Frame} {g : Hub} (hg : ∃ journal, g = { h with journal })
    (hf : ∀ a, (c.orders (.answered name request (f a))).isEmpty = true)
    (he : ∀ e, (c.orders (.answered name request (Frame.ofError (.log e)))).isEmpty = true) :
    Obeys h name c request (.reply (logReply r f) c g) :=
  obeys_journal hg
    (logReply_satisfies (p := fun f => (c.orders (.answered name request f)).isEmpty) r hf he)

theorem obeys_join (h : Hub) (name : Label) (c : Connection) (room : String) :
    Obeys h name c (.join room) (h.serve c (.join room)) := by
  simp only [serve, endStream_eq, openListener]
  cases hm : h.managed with
  | false =>
      refine .ended h.journal false rfl ?_
      simp [ending, hm, obeyAll_releaseOrders, Registry.release]
  | true =>
      cases hcan : (h.registry.release c.stream).canOpen with
      | false =>
          simp only [Bool.not_true, Bool.false_eq_true, if_false]
          refine .ended _ false rfl ?_
          rw [obeyAll_append, obeyAll_releaseOrders]
          simp [ending, hm, dismiss, obey, Registry.release]
      | true =>
          refine .reply h.journal ?_
          simp only [Connection.orders, obeyAll_append, obeyAll_releaseOrders]
          rw [hm]
          rfl

theorem obeys_serve (h : Hub) (name : Label) (c : Connection) (request : Request) :
    Obeys h name c request (h.serve c request) := by
  cases request with
  | identify user => exact .reply h.journal rfl
  | createRoom room => exact obeys_command ⟨h.journal, rfl⟩
  | join room => exact obeys_join h name c room
  | leave =>
      simp only [serve, endStream_eq]
      split
      · exact obeys_journal ⟨h.journal, rfl⟩ rfl
      · refine .reply h.journal ?_
        rw [Connection.orders, obeyAll_releaseOrders]
  | chat text =>
      simp only [serve]
      cases huser : c.session.user with
      | none => exact obeys_journal ⟨h.journal, rfl⟩ rfl
      | some user =>
          cases c.session.joined with
          | none => exact obeys_journal ⟨h.journal, rfl⟩ rfl
          | some room =>
              refine obeys_command ⟨(h.submit user room text).journal, ?_⟩
              simp only [Connection.orders, huser]
              rfl
  | deleteRoom room =>
      refine obeys_command ?_
      simp only [delete]
      split <;> exact ⟨_, rfl⟩
  | history room => exact obeys_look _ (history_eq h ⟨room⟩) (fun _ => rfl) fun _ => rfl
  | direct receiver text =>
      simp only [serve]
      cases c.session.user with
      | none => exact obeys_journal ⟨h.journal, rfl⟩ rfl
      | some user =>
          dsimp only
          rcases hdirect : h.direct user ⟨receiver⟩ text with ⟨_ | reason | _, g⟩
          · exact obeys_journal (direct_journal hdirect) rfl
          · exact obeys_journal (direct_journal hdirect) rfl
          · obtain ⟨journal, rfl⟩ := direct_journal hdirect
            exact obeys_ended h name c _ _
  | fetchDirect sender receiver =>
      exact obeys_look _ (getDirect_eq h _ _) (fun _ => rfl) fun _ => rfl
  | deleteDirect sender receiver =>
      exact obeys_look _ (deleteDirect_eq h _ _) (fun _ => rfl) fun _ => rfl

/-- A connection serves the first thing in its inbox. -/
theorem aside_serve (h : Hub) (name : Label) :
    Aside h (h.orders (.serve name)) (h.piece (.serve name)) := by
  cases hserve : h.serveNext name with
  | none =>
      have hnothing : h.given (.serve name) = [] := by simp [given, deeds, hserve]
      have hsame : h.piece (.serve name) = h := by simp [piece, hserve]
      rw [orders, hnothing, hsame]
      exact aside_of_eq _ ⟨h.wall, h.journal, h.connections, rfl⟩
  | some after =>
      obtain ⟨c, hc, -, hserving⟩ := serving_of_serveNext hserve
      have hgiven : ∀ {d}, h.deeds (.serve name) = [d] → h.given (.serve name) = c.orders d := by
        intro d hd
        simp [given, hc, hd]
      have hpiece : h.piece (.serve name) = after := by simp [piece, hserve]
      rw [orders, hpiece]
      cases hserving with
      | gone inbox eq deeds =>
          rw [hgiven deeds, eq, endConnection_eq, ← obeyAll_releaseOrders]
          exact aside_of_eq _ ⟨h.wall, h.journal, _, rfl⟩
      | unreadable inbox eq deeds =>
          have hnothing : h.given (.serve name) = [] := by simp [given, deeds]
          rw [hnothing, eq]
          exact aside_of_eq _ ⟨h.wall, h.journal, _, rfl⟩
      | @answered _ rest request f c' g inbox served eq deeds =>
          have hobeys := obeys_serve { h with journal := h.leaveFor name c request } name
            { c with inbox := rest } request
          rw [served] at hobeys
          rcases hobeys with ⟨journal, rfl⟩
          rw [hgiven deeds, eq]
          exact aside_of_eq _ ⟨h.wall, journal, _, rfl⟩
      | @ended _ rest request c' g inbox served eq deeds =>
          have hobeys := obeys_serve { h with journal := h.leaveFor name c request } name
            { c with inbox := rest } request
          rw [served] at hobeys
          rcases hobeys with - | ⟨journal, managed, hg, hregistry⟩
          rw [hgiven deeds, eq, endConnection_eq, hregistry, hg]
          exact ⟨h.wall, journal, managed, _, rfl⟩

/-! ### Pieces of work -/

theorem aside_forward (h : Hub) (name : Label) :
    Aside h (h.orders (.forward name)) (h.piece (.forward name)) := by
  simp only [orders, given, passed, piece, forward, stream?]
  cases h.connections.get? name with
  | none => exact aside_of_eq _ ⟨h.wall, h.journal, h.connections, rfl⟩
  | some c =>
      simp only [Option.bind_some]
      cases c.stream with
      | none => exact aside_of_eq _ ⟨h.wall, h.journal, h.connections, rfl⟩
      | some l =>
          dsimp only
          cases hch : h.registry.channel? l.id with
          | none => exact aside_of_eq _ ⟨h.wall, h.journal, h.connections, rfl⟩
          | some ch =>
              have hall := obeyAll_receive hch
              dsimp only
              split
              · rw [← hall, List.append_nil]
                exact aside_of_eq _ ⟨h.wall, h.journal, _, rfl⟩
              · have hdrop : ∀ os, (h.registry.obeyAll os).dropReceiver l.id =
                    h.registry.obeyAll (os ++ [.drop l.id]) := fun os => by
                  rw [obeyAll_append]
                  rfl
                rw [← hall, hdrop]
                exact aside_of_eq _ ⟨h.wall, h.journal, _, rfl⟩

/-- Pieces of work that concern pumps or what the user of the server holds. -/
def Piece.isFront : Piece → Bool
  | .react e => e.isFront
  | .pump _ => true
  | _ => false

theorem aside_retire (h : Hub) : Aside h (h.orders .retire) h.retire := by
  simp only [orders, given, piece, List.nil_append]
  unfold retire
  split
  case isTrue hretire =>
    have hm : h.managed = true := (Bool.and_eq_true_iff.1 hretire).1
    have hending : h.ending h.dismiss.runWriter = [.closeAll] := ending_dismiss hm
    rw [hending]
    exact ⟨h.wall, _, false, h.connections, rfl⟩
  case isFalse => exact aside_of_eq [] ⟨h.wall, h.journal, h.connections, rfl⟩

/-- All other pieces of work. -/
theorem aside_piece {p : Piece} (hp : p.isFront = false) : Aside h (h.orders p) (h.piece p) := by
  cases p with
  | react e =>
      obtain ⟨⟨wall, journal, managed, connections, heq⟩, hm⟩ := aside_react (h := h) hp
      have hpiece : (h.piece (.react e)).managed = h.managed := hm
      rw [orders_of_managed hpiece]
      exact ⟨wall, journal, managed, connections, heq⟩
  | serve name => exact aside_serve h name
  | forward name => exact aside_forward h name
  | retire => exact aside_retire h
  | pump name => simp [Piece.isFront] at hp
  | date wall | write | collect => exact aside_of_eq [] ⟨_, _, _, rfl⟩
  | wait name =>
      obtain ⟨gate, heq⟩ := waitInLine_eq h name
      refine aside_of_eq [] ?_
      rw [piece, heq]
      exact ⟨h.wall, _, h.connections, rfl⟩
  | forget name =>
      refine aside_of_eq [] ?_
      simp only [piece, forget]
      split
      · exact ⟨h.wall, h.journal, h.connections, rfl⟩
      · split <;> exact ⟨h.wall, h.journal, _, rfl⟩

theorem registry_piece (h : Hub) (p : Piece) :
    (h.piece p).registry = h.registry.obeyAll (h.orders p) := by
  cases hp : p.isFront with
  | false => exact (aside_piece hp).registry
  | true =>
      cases p with
      | pump name =>
          have hm : (h.piece (.pump name)).managed = h.managed := by
            obtain ⟨registry, pumps, heq⟩ := runPump_eq h name
            rw [piece, heq]
          rw [orders_of_managed hm, given, piece, runPump]
          cases hpump : h.pumps.get? name with
          | none => rfl
          | some p => simp [Pump.registry_run]
      | react e =>
          by_cases hlisten : ∃ name room, e = .listen name room
          · obtain ⟨name, room, rfl⟩ := hlisten
            exact registry_listen h name room
          · by_cases habandon : ∃ room, e = .listenAbandoned room
            · obtain ⟨room, rfl⟩ := habandon
              exact registry_listenAbandoned h room
            · obtain ⟨hregistry, hm⟩ := registry_asked (h := h) hp
                (fun name room heq => hlisten ⟨name, room, heq⟩)
                (fun room heq => habandon ⟨room, heq⟩)
              have hpiece : (h.piece (.react e)).managed = h.managed := hm
              rw [orders_of_managed hpiece]
              exact hregistry
      | _ => simp [Piece.isFront] at hp

/-- The rooms of a server have obeyed the orders of all pieces of work. -/
theorem registry_pieces (h : Hub) (ps : List Piece) :
    (h.pieces ps).registry = h.registry.obeyAll (h.ordersAll ps) := by
  induction ps generalizing h with
  | nil => rfl
  | cons p ps ih =>
      rw [pieces_cons, ih, registry_piece, ordersAll, obeyAll_append]

end Hub

end ChatServer
