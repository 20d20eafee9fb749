import ChatServer.Proofs.Hub.Frame
import ChatServer.Proofs.Log.Replay
import ChatServer.Proofs.Table

/-!
What an event does before any background work. Events of the front hand writes to the writer and
leave the store alone; events of the log side leave the front alone, and those that only look at
the log change nothing that can be seen in it. Of the background work, what waiting for a permit
and passing a room on to a connection can do.
-/

namespace ChatServer.Hub

/-- The writes that an event hands to the writer. -/
def handed (h : Hub) : Event → List LogWrite
  | .delete room =>
    if (h.registry.rooms.get? room).isSome then [.purge (roomKey room)] else []
  | .submit sender room text =>
    [.append (roomKey room) (ChatRecord.json ⟨sender, room, text, h.wall⟩) h.tuning.ttl]
  | .flush => [.flush h.journal.ticket]
  | _ => []

/-- Events that look at the log. -/
def Event.isLook : Event → Bool
  | .history _ | .getDirect .. | .keyExists _ | .logSize => true
  | _ => false

/-! ### Events of the front -/

/-- All that an event of the front can do: the writer is handed what the event asks for, or nobody
handles commands any more. -/
inductive FrontChange (h : Hub) (e : Event) (h' : Hub) : Prop
  | handed (registry : Registry) (handle : Bool) (opened held : Table Label Listener)
      (pumps : Table Label Pump) (kept : e ≠ .shutdown → handle = h.handle)
      (eq : h' = { h with
        registry, handle, opened, held, pumps
        journal := { h.journal with
          writer := (h.handed e).foldl (fun w x => (w.push x).2) h.journal.writer } })
  | dismissed (registry : Registry) (opened held : Table Label Listener)
      (nothing : h.handed e = [])
      (eq : h' = { h with
        registry, opened, held, managed := false
        journal := { h.journal with writer := h.journal.writer.release } })

theorem FrontChange.of_registry {h : Hub} {e : Event} (nothing : h.handed e = [])
    (registry : Registry) (opened held : Table Label Listener) (pumps : Table Label Pump) :
    FrontChange h e { h with registry, opened, held, pumps } :=
  .handed registry h.handle opened held pumps (fun _ => rfl) (by rw [nothing]; rfl)

theorem dropHeld_eq (h : Hub) (name : Label) :
    ∃ registry held, h.dropHeld name = { h with registry, held } ∧
      ∀ name' l, held.get? name' = some l → h.held.get? name' = some l := by
  unfold dropHeld
  split
  · exact ⟨h.registry, h.held, rfl, fun _ _ hl => hl⟩
  · exact ⟨_, _, rfl, fun _ _ hl => Table.get?_of_erase hl⟩

theorem dropPump_eq (h : Hub) (name : Label) :
    ∃ registry pumps, h.dropPump name = { h with registry, pumps } ∧
      ∀ name' p, pumps.get? name' = some p → h.pumps.get? name' = some p := by
  unfold dropPump
  split
  · exact ⟨h.registry, h.pumps, rfl, fun _ _ hp => hp⟩
  · exact ⟨_, _, rfl, fun _ _ hp => Table.get?_of_erase hp⟩

theorem openListener_cases (h : Hub) (room : RoomId) :
    ((h.openListener room).1 = none ∧ (h.openListener room).2 = h) ∨
      (h.openListener room).2 = { h with registry := (h.registry.openListener room).2 } ∨
      (h.openListener room).1 = none ∧ (h.openListener room).2 = h.dismiss := by
  unfold openListener
  split
  · exact .inl ⟨rfl, rfl⟩
  · split
    · exact .inr (.inl rfl)
    · exact .inr (.inr ⟨rfl, rfl⟩)

theorem delete_fst (r : Registry) (room : RoomId) :
    (r.delete room).1 = (r.rooms.get? room).isSome := by
  unfold Registry.delete
  cases r.rooms.get? room <;> rfl

theorem frontChange_react {h : Hub} {e : Event} (he : e.isFront = true) :
    FrontChange h e (h.react e).2 := by
  cases e with
  | listen name room =>
      have hcases := openListener_cases h room
      rcases hl : h.openListener room with ⟨_ | l, h'⟩
      · simp only [hl, react] at hcases ⊢
        rcases hcases with ⟨-, rfl⟩ | rfl | ⟨-, rfl⟩
        · exact .of_registry rfl _ _ _ _
        · exact .of_registry rfl _ _ _ _
        · exact .dismissed _ _ _ rfl rfl
      · simp only [hl, react, reduceCtorEq, false_and, false_or, or_false] at hcases ⊢
        obtain ⟨registry, held, hdrop, -⟩ := dropHeld_eq h' name
        rw [hdrop, hcases]
        exact .of_registry rfl _ _ _ _
  | drop name =>
      obtain ⟨registry, held, hdrop, -⟩ := dropHeld_eq h name
      simp only [react, hdrop]
      exact .of_registry rfl _ _ _ _
  | pump name capacity heading =>
      obtain ⟨registry, pumps, hdrop, -⟩ := dropPump_eq h name
      simp only [react, hdrop]
      split
      · exact .of_registry rfl _ _ _ _
      · split <;> exact .of_registry rfl _ _ _ _
  | delete room =>
      have hfound := delete_fst h.registry room
      simp only [react, delete]
      split
      case isTrue hdelete =>
        rw [hfound] at hdelete
        have hhanded : h.handed (.delete room) = [.purge (roomKey room)] := by
          simp [handed, hdelete]
        exact .handed _ _ h.opened h.held h.pumps (fun _ => rfl) (by rw [hhanded]; rfl)
      case isFalse hdelete =>
        rw [hfound] at hdelete
        exact .of_registry (by simp [handed, hdelete]) _ _ _ _
  | submit sender room text => exact .handed _ _ _ _ _ (fun _ => rfl) rfl
  | shutdown => exact .handed _ _ _ _ _ (fun hne => absurd rfl hne) rfl
  | listenAbandoned room =>
      simp only [react, openAbandoned]
      split
      · split
        · exact .of_registry rfl _ _ _ _
        · exact .dismissed _ _ _ rfl rfl
      · exact .of_registry rfl _ _ _ _
  | close name room | closeHeld name | receive name | tryReceive name | sinkReceive name =>
      simp only [react]
      split <;> exact .of_registry rfl _ _ _ _
  | cancel name =>
      simp only [react]
      split
      · exact .of_registry rfl _ _ _ _
      · split <;> exact .of_registry rfl _ _ _ _
  | create room | count room | roomExists room | sinkDrop name | pumpEnd name =>
      exact .of_registry rfl _ _ _ _
  | _ => simp [Event.isFront] at he

/-! ### Events of the log side -/

@[simp] theorem journal_withStore (h : Hub) (s : Store Task) :
    (h.withStore s).journal = { h.journal with store := s } := rfl

theorem call_eq (h : Hub) (c : LogCall) :
    h.call c =
      ((h.journal.store.call h.journal.now c).1,
        h.withStore (h.journal.store.call h.journal.now c).2) := rfl

theorem eq_of_call {h g : Hub} {c : LogCall} {r : CallResult} (hcall : h.call c = (r, g)) :
    g = h.withStore (h.journal.store.call h.journal.now c).2 :=
  (congrArg Prod.snd hcall).symm

/-- Reading a room's history takes at most two looks at the log. -/
theorem history_look (h : Hub) (room : RoomId) :
    ∃ store, (h.history room).2 = h.withStore store ∧
      store.Alike h.journal.now h.journal.store := by
  have hcontains := h.journal.store.alike_call_contains h.journal.now (roomKey room)
  have hrange := (h.journal.store.call h.journal.now (.contains (roomKey room))).2.alike_call_range
    h.journal.now (roomKey room) 0 (-1)
  unfold history
  split
  case h_1 reason g hcall => exact ⟨_, eq_of_call hcall, hcontains⟩
  case h_2 g hcall =>
    obtain rfl := eq_of_call hcall
    refine ⟨_, ?_, hrange.trans hcontains⟩
    split
    case h_1 reason g hcall => exact eq_of_call hcall
    case h_2 vs g hcall => exact eq_of_call hcall
    case h_3 r g _ _ hcall => exact eq_of_call hcall
  case h_3 r g _ _ hcall => exact ⟨_, eq_of_call hcall, hcontains⟩

/-- Looking at the log, an event changes nothing that can be seen in it. -/
theorem react_look {h : Hub} {e : Event} (he : e.isLook = true) :
    ∃ store, (h.react e).2 = h.withStore store ∧ store.Alike h.journal.now h.journal.store := by
  cases e with
  | history room => exact history_look h room
  | getDirect sender receiver =>
      have hrange :=
        h.journal.store.alike_call_range h.journal.now (directKey sender receiver) 0 (-1)
      simp only [react, getDirect]
      refine ⟨_, ?_, hrange⟩
      split
      case h_1 reason g hcall => exact eq_of_call hcall
      case h_2 vs g hcall => exact eq_of_call hcall
      case h_3 r g _ _ hcall => exact eq_of_call hcall
  | keyExists key => exact ⟨_, rfl, Store.alike_call_contains _ _ key⟩
  | logSize => exact ⟨_, rfl, Store.alike_purge _ _⟩
  | _ => simp [Event.isLook] at he

theorem direct_eq (h : Hub) (sender receiver : UserId) (text : String) :
    h.direct sender receiver text =
      ((h.journal.store.write h.journal.now (directKey sender receiver)
          (DirectRecord.new sender receiver text).json h.tuning.ttl).1,
        h.withStore (h.journal.store.apply h.journal.now (.append (directKey sender receiver)
          (DirectRecord.new sender receiver text).json h.tuning.ttl))) := rfl

theorem eq_of_direct {h g : Hub} {sender receiver : UserId} {text : String} {r : CallResult}
    (hdirect : h.direct sender receiver text = (r, g)) :
    g = h.withStore (h.journal.store.apply h.journal.now (.append (directKey sender receiver)
      (DirectRecord.new sender receiver text).json h.tuning.ttl)) :=
  (congrArg Prod.snd hdirect).symm

/-- A direct message goes to the store at once if there is no gate. -/
theorem react_direct {h : Hub} (hgate : h.journal.store.gate = none) (sender receiver : UserId)
    (text : String) :
    (h.react (.direct sender receiver text)).2 =
      h.withStore (h.journal.store.apply h.journal.now (.append (directKey sender receiver)
        (DirectRecord.new sender receiver text).json h.tuning.ttl)) := by
  have hacquire : h.acquire .caller = (true, h) := by
    rw [acquire, Store.acquire_ungated hgate]
    rfl
  simp only [react, hacquire]
  rcases hdirect : h.direct sender receiver text with ⟨_ | reason | _, g⟩ <;>
    exact eq_of_direct hdirect

theorem react_deleteDirect (h : Hub) (sender receiver : UserId) :
    (h.react (.deleteDirect sender receiver)).2 =
      h.withStore (h.journal.store.apply h.journal.now (.purge (directKey sender receiver))) := by
  simp only [react, deleteDirect]
  rcases hcall : h.call (.delete (directKey sender receiver)) with ⟨_ | reason | _, g⟩ <;>
    exact eq_of_call hcall

/-- Events of the log side leave the front alone. -/
theorem react_logSide {h : Hub} {e : Event} (he : e.isLogSide = true) :
    ∃ journal, (h.react e).2 = { h with journal } := by
  cases hlook : e.isLook with
  | true =>
      obtain ⟨store, heq, -⟩ := react_look (h := h) hlook
      exact ⟨_, heq⟩
  | false =>
      cases e with
      | direct sender receiver text =>
          simp only [react]
          rcases hacquire : h.acquire .caller with ⟨_ | _, g⟩
          · exact ⟨h.journal, rfl⟩
          · have hg : g = h.withStore (h.journal.store.acquire .caller).2 :=
              (congrArg Prod.snd hacquire).symm
            refine ⟨(g.direct sender receiver text).2.journal, ?_⟩
            dsimp only
            rcases hdirect : g.direct sender receiver text with ⟨_ | reason | _, g'⟩ <;>
              (rw [eq_of_direct hdirect, hg]; rfl)
      | deleteDirect sender receiver => exact ⟨_, react_deleteDirect h sender receiver⟩
      | flush => exact ⟨_, rfl⟩
      | log c => exact ⟨_, rfl⟩
      | advance d => exact ⟨_, rfl⟩
      | permits n => exact ⟨_, rfl⟩
      | outages o => exact ⟨_, rfl⟩
      | _ => simp [Event.isLogSide, Event.isLook] at he hlook

/-! ### Background work -/

/-- Whoever waits in line for permits changes the line at most. -/
theorem waitInLine_eq (h : Hub) (name : Label) :
    ∃ gate, h.waitInLine name = h.withStore { h.journal.store with gate } := by
  unfold waitInLine
  split
  · exact ⟨h.journal.store.gate, rfl⟩
  · split
    · split
      · refine ⟨(h.journal.store.acquire (.connection name)).2.gate, ?_⟩
        rw [← Store.acquire_eq]
        rfl
      · exact ⟨h.journal.store.gate, rfl⟩
    · exact ⟨h.journal.store.gate, rfl⟩

/-- All that passing a room on to a connection can do. A connection without a listener, or whose
listener has no channel, is left alone; any other is sent what has been buffered, and the end of
the room if nobody sends any more. -/
inductive Passing (h : Hub) (name : Label) (h' : Hub) : Prop
  | nothing (eq : h' = h) (idle : ∀ c l, h.connections.get? name = some c → c.stream = some l →
      h.registry.channel? l.id = none)
  | passed {c : Connection} {l : Listener} {ch : Channel Payload}
      (found : h.connections.get? name = some c) (stream : c.stream = some l)
      (channel : h.registry.channel? l.id = some ch) (sending : ch.sending = true)
      (eq : h' = ({ h with registry := { h.registry with
        channels := h.registry.channels.put l.id.channel { ch with buffer := [] } } } :
          Hub).putConnection name
            { c with outbox := c.outbox ++ ch.buffer.map (Frame.message l.room.text) })
  | closed {c : Connection} {l : Listener} {ch : Channel Payload}
      (found : h.connections.get? name = some c) (stream : c.stream = some l)
      (channel : h.registry.channel? l.id = some ch) (ended : ch.sending = false)
      (eq : h' = ({ h with registry := Registry.dropReceiver { h.registry with
        channels := h.registry.channels.put l.id.channel { ch with buffer := [] } } l.id } :
          Hub).putConnection name
            { c with
              outbox := c.outbox ++ (ch.buffer.map (Frame.message l.room.text) ++
                [Frame.roomClosed l.room.text]),
              stream := none })

theorem passing_forward (h : Hub) (name : Label) : Passing h name (h.forward name) := by
  unfold forward
  split
  case h_1 hc => exact .nothing rfl fun c l found => by simp [hc] at found
  case h_2 c hc =>
    split
    case h_1 hl =>
      refine .nothing rfl fun c' l found stream => ?_
      obtain rfl := Option.some.inj (hc.symm.trans found)
      simp [hl] at stream
    case h_2 l hl =>
      split
      case h_1 hch =>
        refine .nothing rfl fun c' l' found stream => ?_
        obtain rfl := Option.some.inj (hc.symm.trans found)
        obtain rfl := Option.some.inj (hl.symm.trans stream)
        exact hch
      case h_2 ch hch =>
        dsimp only
        split
        case isTrue hsending => exact .passed hc hl hch hsending rfl
        case isFalse hended => exact .closed hc hl hch (Bool.eq_false_iff.2 hended) rfl

/-- At most one connection changes, and of it only its listener and what it is to be sent. -/
theorem forward_cases (h : Hub) (name : Label) :
    h.forward name = h ∨ ∃ c registry outbox stream, h.connections.get? name = some c ∧
      h.forward name = ({ h with registry } : Hub).putConnection name { c with outbox, stream } := by
  cases passing_forward h name with
  | nothing eq idle => exact .inl eq
  | passed found stream channel sending eq => exact .inr ⟨_, _, _, _, found, eq⟩
  | closed found stream channel ended eq => exact .inr ⟨_, _, _, _, found, eq⟩

end ChatServer.Hub
