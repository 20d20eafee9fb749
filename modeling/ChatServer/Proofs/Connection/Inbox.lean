import ChatServer.Proofs.Connection.Work

/-!
Over a store without gate nobody has to wait: what has arrived from a client is served at once. A
store without gate never gets one, and no piece of work leaves more in an inbox than it finds there,
an event of the client's own apart.
-/

namespace ChatServer

/-- Frames that answer a request that can be read. -/
def Frame.isReply : Frame → Bool
  | .connected _ | .message .. | .roomClosed _ | .error .invalidMessage _ => false
  | _ => true

namespace Hub

/-- The store has no gate. -/
def Ungated (h : Hub) : Prop := h.journal.store.gate = none

/-- What has arrived from a client and can still be served. -/
def unserved (h : Hub) (name : Label) : List Inbound :=
  ((h.connections.get? name).map fun c => if c.alive then c.inbox else []).getD []

variable {h h' g : Hub} {name n : Label} {c c' : Connection}

theorem unserved_of_connections (hc : h'.connections = h.connections) (n : Label) :
    h'.unserved n = h.unserved n := by
  rw [unserved, unserved, hc]

theorem unserved_put (h : Hub) (name : Label) (c : Connection) (n : Label) :
    (h.putConnection name c).unserved n =
      if n = name then if c.alive then c.inbox else [] else h.unserved n := by
  simp only [unserved, putConnection, Table.get?_put]
  split <;> rfl

theorem unserved_endConnection (h : Hub) (name : Label) (c : Connection) (n : Label) :
    (h.endConnection name c).unserved n = if n = name then [] else h.unserved n := by
  rw [endConnection_eq, unserved_put]
  rfl

/-! ### Requests -/

/-- A request leaves the other connections alone, and a store without gate without one. -/
structure Beside (h g : Hub) : Prop where
  connections : g.connections = h.connections
  gate : g.journal.store.gate = h.journal.store.gate

theorem Beside.ungated (hb : Beside h g) (hu : h.Ungated) : g.Ungated := hb.gate.trans hu

theorem Beside.refl (h : Hub) : Beside h h := ⟨rfl, rfl⟩

theorem beside_openListener (h : Hub) (room : RoomId) : Beside h (h.openListener room).2 := by
  rcases openListener_cases h room with ⟨-, heq⟩ | heq | ⟨-, heq⟩
  · rw [heq]
    exact Beside.refl h
  · rw [heq]
    exact ⟨rfl, rfl⟩
  · rw [heq]
    exact ⟨rfl, rfl⟩

theorem beside_delete (h : Hub) (room : RoomId) : Beside h (h.delete room) := by
  unfold delete
  dsimp only
  split <;> exact ⟨rfl, rfl⟩

theorem beside_of_look {e : Event} (he : e.isLook = true) : Beside h (h.react e).2 := by
  obtain ⟨store, heq, halike⟩ := react_look (h := h) he
  rw [heq]
  exact ⟨rfl, halike.gate⟩

theorem beside_apply (h : Hub) (w : LogWrite) :
    Beside h (h.withStore (h.journal.store.apply h.journal.now w)) :=
  ⟨rfl, Store.gate_apply _ _ w⟩

theorem beside_direct (h : Hub) (sender receiver : UserId) (text : String) :
    Beside h (h.direct sender receiver text).2 := by
  rw [direct_eq]
  exact beside_apply h _

theorem beside_deleteDirect (h : Hub) (sender receiver : UserId) :
    Beside h (h.deleteDirect sender receiver).2 := by
  have heq : (h.deleteDirect sender receiver).2 = h.withStore
      (h.journal.store.apply h.journal.now (.purge (directKey sender receiver))) :=
    react_deleteDirect h sender receiver
  rw [heq]
  exact beside_apply h _

/-- What becomes of a connection and of all others when one of its requests is served. -/
inductive ServedAside (h : Hub) (c : Connection) : Served → Prop
  | reply {f : Frame} {c' : Connection} {g : Hub} (beside : Beside h g)
      (inbox : c'.inbox = c.inbox) (outbox : c'.outbox = c.outbox) (alive : c'.alive = c.alive)
      (frame : f.isReply = true) : ServedAside h c (.reply f c' g)
  | ended {c' : Connection} {g : Hub} (beside : Beside h g) (outbox : c'.outbox = c.outbox) :
    ServedAside h c (.ended c' g)

theorem servedAside_command {f : Frame} {after : Hub} (hb : Beside h after)
    (hf : f.isReply = true) : ServedAside h c (h.command c f after) := by
  unfold command
  split
  · exact .reply hb rfl rfl rfl hf
  · exact .ended (Beside.refl h) rfl

theorem servedAside_serve (h : Hub) (c : Connection) (request : Request) :
    ServedAside h c (h.serve c request) := by
  cases request with
  | identify user => exact .reply (Beside.refl h) rfl rfl rfl rfl
  | createRoom room => exact servedAside_command ⟨rfl, rfl⟩ rfl
  | join room =>
      simp only [serve, endStream_eq]
      have hbeside := beside_openListener { h with registry := h.registry.release c.stream } ⟨room⟩
      rcases hopen : ({ h with registry := h.registry.release c.stream } : Hub).openListener ⟨room⟩
        with ⟨_ | l, g⟩ <;> rw [hopen] at hbeside
      · exact .ended ⟨hbeside.connections, hbeside.gate⟩ rfl
      · exact .reply ⟨hbeside.connections, hbeside.gate⟩ rfl rfl rfl rfl
  | leave =>
      simp only [serve, endStream_eq]
      split
      · exact .reply (Beside.refl h) rfl rfl rfl rfl
      · exact .reply ⟨rfl, rfl⟩ rfl rfl rfl rfl
  | chat text =>
      simp only [serve]
      split
      · exact .reply (Beside.refl h) rfl rfl rfl rfl
      · exact .reply (Beside.refl h) rfl rfl rfl rfl
      · exact servedAside_command ⟨rfl, rfl⟩ rfl
  | deleteRoom room => exact servedAside_command (beside_delete h _) rfl
  | history room =>
      have hb : Beside h (h.history ⟨room⟩).2 := by
        obtain ⟨store, heq, halike⟩ := history_look h ⟨room⟩
        rw [heq]
        exact ⟨rfl, halike.gate⟩
      exact .reply hb rfl rfl rfl (logReply_satisfies _ (fun _ => rfl) fun _ => rfl)
  | direct receiver text =>
      simp only [serve]
      cases c.session.user with
      | none => exact .reply (Beside.refl h) rfl rfl rfl rfl
      | some user =>
          have hbeside := beside_direct h user ⟨receiver⟩ text
          dsimp only
          rcases hdirect : h.direct user ⟨receiver⟩ text with ⟨_ | reason | _, g⟩ <;>
            rw [hdirect] at hbeside
          · exact .reply hbeside rfl rfl rfl rfl
          · exact .reply hbeside rfl rfl rfl rfl
          · exact .ended hbeside rfl
  | fetchDirect sender receiver =>
      exact .reply (beside_of_look (e := .getDirect ⟨sender⟩ ⟨receiver⟩) rfl) rfl rfl rfl
        (logReply_satisfies _ (fun _ => rfl) fun _ => rfl)
  | deleteDirect sender receiver =>
      exact .reply (beside_deleteDirect h _ _) rfl rfl rfl
        (logReply_satisfies _ (fun _ => rfl) fun _ => rfl)

theorem aside_of_reply {c' : Connection} {request : Request} {f : Frame} {g : Hub}
    (hserved : h.serve c request = .reply f c' g) :
    Beside h g ∧ c'.inbox = c.inbox ∧ c'.outbox = c.outbox ∧ c'.alive = c.alive ∧
      f.isReply = true := by
  have haside := servedAside_serve h c request
  rw [hserved] at haside
  cases haside with
  | reply beside inbox outbox alive frame => exact ⟨beside, inbox, outbox, alive, frame⟩

theorem aside_of_ended {c' : Connection} {request : Request} {g : Hub}
    (hserved : h.serve c request = .ended c' g) : Beside h g ∧ c'.outbox = c.outbox := by
  have haside := servedAside_serve h c request
  rw [hserved] at haside
  cases haside with
  | ended beside outbox => exact ⟨beside, outbox⟩

/-! ### Serving -/

/-- Where nobody has to wait leave to push changes nothing. -/
theorem leaveFor_of_ungated (hu : h.Ungated) (name : Label) (c : Connection) (request : Request) :
    h.leaveFor name c request = h.journal := by
  unfold leaveFor
  split
  · rw [acquire, Store.acquire_ungated hu]
    rfl
  · rfl

/-- Serving the first thing in an inbox, a connection has less left there. -/
theorem unserved_serveNext (hu : h.Ungated) (hserve : h.serveNext name = some h') :
    h'.Ungated ∧ (h'.unserved name).length < (h.unserved name).length ∧
      ∀ n, n ≠ name → h'.unserved n = h.unserved n := by
  obtain ⟨c, hc, ha, hserving⟩ := serving_of_serveNext hserve
  have hbefore : h.unserved name = c.inbox := by simp [unserved, hc, ha]
  rw [hbefore]
  cases hserving with
  | gone inbox eq deeds =>
      rw [eq, inbox]
      refine ⟨by rw [endConnection_eq]; exact hu, ?_, fun n hn => ?_⟩
      · rw [unserved_endConnection, if_pos rfl]
        exact Nat.succ_pos _
      · rw [unserved_endConnection, if_neg hn]
  | unreadable inbox eq deeds =>
      rw [eq, inbox]
      refine ⟨hu, ?_, fun n hn => ?_⟩
      · rw [unserved_put, if_pos rfl, if_pos ha]
        exact Nat.lt_succ_self _
      · rw [unserved_put, if_neg hn]
  | @answered _ rest request f c' g inbox served eq deeds =>
      rw [leaveFor_of_ungated hu] at served
      obtain ⟨beside, hinbox, -, halive, -⟩ := aside_of_reply served
      rw [eq, inbox]
      refine ⟨beside.ungated hu, ?_, fun n hn => ?_⟩
      · rw [unserved_put, if_pos rfl, if_pos (halive.trans ha), hinbox]
        exact Nat.lt_succ_self _
      · rw [unserved_put, if_neg hn]
        exact unserved_of_connections beside.connections n
  | @ended _ rest request c' g inbox served eq deeds =>
      rw [leaveFor_of_ungated hu] at served
      obtain ⟨beside, -⟩ := aside_of_ended served
      rw [eq, inbox]
      refine ⟨by rw [endConnection_eq]; exact beside.ungated hu, ?_, fun n hn => ?_⟩
      · rw [unserved_endConnection, if_pos rfl]
        exact Nat.succ_pos _
      · rw [unserved_endConnection, if_neg hn]
        exact unserved_of_connections beside.connections n

/-- Where nobody has to wait an inbox is served until it is empty. -/
theorem unserved_of_serveNext_eq_none (hu : h.Ungated) (hserve : h.serveNext name = none) :
    h.unserved name = [] := by
  unfold serveNext at hserve
  unfold unserved
  cases hc : h.connections.get? name with
  | none => rfl
  | some c =>
      cases ha : c.alive with
      | false => simp [ha]
      | true =>
          rw [hc] at hserve
          simp only [ha, Bool.not_true, Bool.false_eq_true, if_false] at hserve
          cases hinbox : c.inbox with
          | nil => simp [hinbox]
          | cons first rest =>
              rw [hinbox] at hserve
              cases first with
              | gone => simp at hserve
              | text s =>
                  have hgranted : (if pushes c (Request.parse s) then
                      h.acquire (.connection name) else (true, h)).1 = true := by
                    split
                    · rw [acquire, Store.acquire_ungated hu]
                    · rfl
                  simp only [hgranted, Bool.not_true, Bool.false_eq_true, if_false] at hserve
                  split at hserve
                  · simp at hserve
                  · split at hserve <;> simp at hserve

/-- Nobody joins a line for permits. -/
theorem waitInLine_of_ungated (hu : h.Ungated) (name : Label) : h.waitInLine name = h := by
  have hacquire : (h.acquire (.connection name)).2 = h := by
    rw [acquire, Store.acquire_ungated hu]
    rfl
  unfold waitInLine
  split
  · rfl
  · split
    · rw [hacquire, ite_self]
    · rfl

/-! ### The rest of the background work -/

theorem unserved_forward (h : Hub) (name n : Label) :
    (h.forward name).unserved n = h.unserved n ∧ (h.forward name).journal = h.journal := by
  rcases forward_cases h name with heq | ⟨c, registry, outbox, stream, hc, heq⟩ <;> rw [heq]
  · exact ⟨rfl, rfl⟩
  · refine ⟨?_, rfl⟩
    rw [unserved_put]
    split
    case isTrue hn => simp [hn, unserved, hc]
    case isFalse => rfl

theorem ungated_runWriter (hu : h.Ungated) : h.runWriter.Ungated :=
  LogWriter.gate_run h.journal.now Task.writer hu

theorem unserved_forget (h : Hub) (name n : Label) :
    (h.forget name).2.unserved n = h.unserved n := by
  rcases forget_cases h name with heq | ⟨c, hc, ha, heq⟩
  · rw [heq]
  · rw [heq]
    simp only [unserved, Table.get?_erase]
    split
    case isTrue hn =>
      simp [hn, hc, ha]
    case isFalse => rfl

theorem unserved_collect (h : Hub) (n : Label) : h.collect.2.unserved n = h.unserved n := by
  rw [unserved, get?_collect, unserved, Option.map_map]
  rfl

/-- A piece by which nothing arrives and nothing is served leaves the inboxes as they are. -/
theorem unserved_piece (hu : h.Ungated) {p : Piece} (hreact : ∀ e, p ≠ .react e)
    (hserve : ∀ name, p ≠ .serve name) :
    (h.piece p).Ungated ∧ ∀ n, (h.piece p).unserved n = h.unserved n := by
  cases p with
  | date wall => exact ⟨hu, fun _ => rfl⟩
  | react e => exact absurd rfl (hreact e)
  | serve name => exact absurd rfl (hserve name)
  | wait name =>
      rw [piece, waitInLine_of_ungated hu]
      exact ⟨hu, fun _ => rfl⟩
  | pump name =>
      obtain ⟨registry, pumps, heq⟩ := runPump_eq h name
      rw [piece, heq]
      exact ⟨hu, fun _ => rfl⟩
  | forward name =>
      refine ⟨?_, fun n => (unserved_forward h name n).1⟩
      rw [Ungated, piece, (unserved_forward h name name).2]
      exact hu
  | write => exact ⟨ungated_runWriter hu, fun _ => rfl⟩
  | retire =>
      rw [piece, retire]
      split
      · exact ⟨ungated_runWriter (h := h.dismiss) hu, fun _ => rfl⟩
      · exact ⟨hu, fun _ => rfl⟩
  | forget name =>
      refine ⟨?_, fun n => unserved_forget h name n⟩
      rcases forget_cases h name with heq | ⟨c, hc, ha, heq⟩ <;> rw [piece, heq] <;> exact hu
  | collect => exact ⟨hu, fun n => unserved_collect h n⟩

/-! ### Events -/

/-- The client to whom an event may give something to do. -/
def Event.client? : Event → Option Label
  | .text name _ | .disconnect name => some name
  | _ => none

theorem ungated_react (hu : h.Ungated) (e : Event) : (h.react e).2.Ungated := by
  cases hfront : e.isFront with
  | true =>
      cases frontChange_react (h := h) hfront with
      | handed registry handle opened held pumps kept eq =>
          rw [eq]
          exact hu
      | dismissed registry opened held nothing eq =>
          rw [eq]
          exact hu
  | false =>
      cases e with
      | history room | getDirect sender receiver | keyExists key | logSize =>
          exact (beside_of_look rfl).ungated hu
      | direct sender receiver text =>
          rw [react_direct hu]
          exact (beside_apply h _).ungated hu
      | deleteDirect sender receiver =>
          rw [react_deleteDirect]
          exact (beside_apply h _).ungated hu
      | flush | advance d | outages o | ignored name => exact hu
      | log c =>
          have hgate : (h.journal.store.callDirect h.journal.now c).2.gate = none := by
            unfold Store.callDirect
            split <;> exact hu
          exact hgate
      | permits n =>
          have hgate : (h.journal.store.addPermits n).gate = none := by
            rw [Store.addPermits, show h.journal.store.gate = none from hu]
            rfl
          exact hgate
      | connect name connection =>
          simp only [react]
          split <;> exact hu
      | text name s | disconnect name =>
          simp only [react]
          split <;> exact hu
      | _ => simp [Event.isFront] at hfront

/-- What an event does to the connections. -/
inductive Reception (h : Hub) (e : Event) (h' : Hub) : Prop
  | unmoved (connections : h'.connections = h.connections)
  | opened {name : Label} {connection : String} (event : e = .connect name connection)
      (free : h.serves name = false)
      (eq : h' = h.putConnection name (Connection.new connection))
  | arrival {name : Label} {c : Connection} {x : Inbound} (client : e.client? = some name)
      (found : h.connections.get? name = some c)
      (eq : h' = h.putConnection name { c with inbox := c.inbox ++ [x] })

theorem reception_react (h : Hub) (e : Event) : Reception h e (h.react e).2 := by
  cases hfront : e.isFront with
  | true =>
      cases frontChange_react (h := h) hfront with
      | handed registry handle opened held pumps kept eq => exact .unmoved (by rw [eq])
      | dismissed registry opened held nothing eq => exact .unmoved (by rw [eq])
  | false =>
      cases hlog : e.isLogSide with
      | true =>
          obtain ⟨journal, heq⟩ := react_logSide (h := h) hlog
          exact .unmoved (by rw [heq])
      | false =>
          cases e with
          | connect name connection =>
              rw [react]
              cases hserves : h.serves name with
              | true => exact .unmoved rfl
              | false => exact .opened rfl hserves rfl
          | ignored name => exact .unmoved rfl
          | text name s | disconnect name =>
              simp only [react]
              cases hc : h.connections.get? name with
              | none => exact .unmoved rfl
              | some c => exact .arrival rfl hc rfl
          | _ => simp [Event.isFront, Event.isLogSide] at hfront hlog

/-- Where all inboxes are empty something arrives at most at the client whose event it is. -/
theorem unserved_react (hnone : ∀ n, h.unserved n = []) (e : Event) (n : Label) :
    ((h.react e).2.unserved n).length ≤ if e.client? = some n then 1 else 0 := by
  cases reception_react h e with
  | unmoved connections =>
      rw [unserved_of_connections connections, hnone]
      exact Nat.zero_le _
  | @opened name connection event free eq =>
      rw [eq, unserved_put, hnone]
      simp [Connection.new]
  | @arrival name c x client found eq =>
      rw [eq, client, unserved_put]
      split
      case isTrue hn =>
        have hbefore := hnone name
        rw [if_pos (congrArg some hn.symm)]
        cases ha : c.alive with
        | false => simp
        | true =>
            simp only [unserved, found, Option.map_some, Option.getD_some, ha, if_true] at hbefore
            simp [hbefore]
      case isFalse =>
        rw [hnone]
        exact Nat.zero_le _

end Hub

end ChatServer
