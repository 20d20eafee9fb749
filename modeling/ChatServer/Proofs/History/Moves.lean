import ChatServer.Proofs.History.Remembered
import ChatServer.Proofs.Hub.Calm
import ChatServer.Proofs.Hub.Run
import ChatServer.Proofs.Log.Line

/-!
A server whose writer may be anywhere. A command can take effect with the background work left
for later, and the writer makes its moves one by one, in any order with commands and with the
permits it waits for. What the store shows is then what the first part of the accepted writes
makes of it, and the rest of them is in line.
-/

namespace ChatServer.Hub

/-- What can happen at the finest grain. -/
inductive Move
  /-- An event takes effect, all background work being left for later. -/
  | command (m : Moment)
  /-- An event with all the background work it leads to. -/
  | step (m : Moment)
  /-- The writer makes a move if it can. -/
  | turn
  /-- The writer joins the line for permits if it waits for one. -/
  | wait

/-- The moment of a move, if it is not the writer's. -/
def Move.moment? : Move → Option Moment
  | .command m | .step m => some m
  | .turn | .wait => none

/-- An event takes effect unless it is turned away. -/
def act (h : Hub) (e : Event) : Hub := if h.refuses e then h else (h.react e).2

/-- The server after a move of its writer. -/
def withTurn (h : Hub) : Hub :=
  match h.journal.writer.turn h.journal.store h.journal.now Task.writer with
  | none => h
  | some (writer, store) => { h with journal := { h.journal with writer, store } }

/-- The server after its writer has joined the line for permits. -/
def withWait (h : Hub) : Hub := h.withStore (h.journal.writer.wait h.journal.store Task.writer)

/-- The server after a move. -/
def go (h : Hub) : Move → Hub
  | .command m => (h.dated m.wall).act m.event
  | .step m => (h.face m).2
  | .turn => h.withTurn
  | .wait => h.withWait

/-- The server after a series of moves. -/
def goes (h : Hub) (mvs : List Move) : Hub := mvs.foldl go h

theorem goes_cons (h : Hub) (mv : Move) (mvs : List Move) :
    h.goes (mv :: mvs) = (h.go mv).goes mvs := rfl

/-- Events that take no time and write to the log only by way of the writer. -/
def Event.isTimeless : Event → Bool
  | .advance _ | .direct .. | .deleteDirect .. => false
  | e => e.isRegular

/-- The writes that an event hands over and that are accepted. -/
def accepted (h : Hub) (e : Event) : List LogWrite :=
  if h.refuses e then []
  else (h.handed e).filter fun x => (h.journal.writer.push x).1.isOk

/-- The writes that are accepted in a move. -/
def acceptedIn (h : Hub) (mv : Move) : List LogWrite :=
  (mv.moment?.map fun m => (h.dated m.wall).accepted m.event).getD []

/-- All writes that are accepted in a series of moves. -/
def line (h : Hub) : List Move → List LogWrite
  | [] => []
  | mv :: mvs => h.acceptedIn mv ++ (h.go mv).line mvs

/-! ### The invariant -/

/-- The accepted writes are those that have been made, whose effect the store shows, and those
that are in line. -/
structure Lined (h : Hub) (ttl : Duration) (line : List LogWrite) : Prop where
  handle : h.handle = true
  connections : h.connections = Table.empty
  outages : h.journal.store.outages = Outages.none
  tuning : h.tuning.ttl = ttl
  positive : 0 < ttl
  clock : h.journal.now + ttl < Time.limit
  writer : h.managed = true →
    h.journal.writer.phase = .running ∧ h.journal.writer.fed = true
  lasting : ∀ x ∈ h.journal.writer.queue, x.Lasting h.journal.now
  fresh : ∀ ticket, .flush ticket ∈ line → ticket < h.journal.ticket
  made : ∃ made, line = made ++ h.journal.writer.queue ∧
    (∀ key, h.journal.store.log.live? h.journal.now key =
      made.foldl (LogWrite.alter h.journal.now key) none) ∧
    ∀ ticket ∈ h.journal.writer.passed, .flush ticket ∈ made

variable {h : Hub} {ttl : Duration} {line : List LogWrite}

theorem lined_new {tuning : Tuning} (gated : Bool) (wall : Instant) (httl : 0 < tuning.ttl)
    (hclock : Time.start + tuning.ttl < Time.limit) :
    (new tuning Outages.none gated wall).Lined tuning.ttl [] where
  handle := rfl
  connections := rfl
  outages := rfl
  tuning := rfl
  positive := httl
  clock := hclock
  writer := fun _ => ⟨rfl, rfl⟩
  lasting := fun _ hx => absurd hx List.not_mem_nil
  fresh := fun _ hticket => absurd hticket List.not_mem_nil
  made := ⟨[], rfl, fun _ => rfl, fun _ hticket => absurd hticket List.not_mem_nil⟩

/-- The store may change where nobody sees it. -/
theorem lined_withStore (hl : h.Lined ttl line) {s : Store Task}
    (ho : s.outages = Outages.none)
    (hs : ∀ key, s.log.live? h.journal.now key = h.journal.store.log.live? h.journal.now key) :
    (h.withStore s).Lined ttl line := by
  obtain ⟨made, hline, hlog, hpassed⟩ := hl.made
  exact ⟨hl.handle, hl.connections, ho, hl.tuning, hl.positive, hl.clock, hl.writer, hl.lasting,
    hl.fresh, made, hline, fun key => (hs key).trans (hlog key), hpassed⟩

/-- Rooms, pumps and the civil time are of no account. -/
theorem lined_front (hl : h.Lined ttl line) (registry : Registry) (pumps : Table Label Pump)
    (wall : Instant) : Lined { h with registry, pumps, wall } ttl line :=
  ⟨hl.handle, hl.connections, hl.outages, hl.tuning, hl.positive, hl.clock, hl.writer, hl.lasting,
    hl.fresh, hl.made⟩

theorem lined_dated (hl : h.Lined ttl line) (wall : Instant) : (h.dated wall).Lined ttl line :=
  lined_front hl h.registry h.pumps wall

theorem lined_runPumps (hl : h.Lined ttl line) : h.runPumps.Lined ttl line := by
  rw [runPumps_eq]
  exact lined_front hl _ _ h.wall

theorem lined_withWait (hl : h.Lined ttl line) : h.withWait.Lined ttl line := by
  rw [withWait, LogWriter.wait_eq]
  exact lined_withStore hl hl.outages fun _ => rfl

/-- A move of the writer makes the first write in line. -/
theorem lined_withTurn (hl : h.Lined ttl line) : h.withTurn.Lined ttl line := by
  unfold withTurn
  cases hturn : h.journal.writer.turn h.journal.store h.journal.now Task.writer with
  | none => exact hl
  | some p =>
      obtain ⟨writer, store⟩ := p
      obtain ⟨made, hline, hlog, hpassed⟩ := hl.made
      obtain ⟨hphase, ⟨hqueue, hfed, rfl, rfl⟩ | ⟨x, rest, hqueue, -, hattempt⟩⟩ :=
        LogWriter.turn_cases hturn
      · -- a writer ends only when nobody can hand it writes any more, and then nobody is in charge
        refine ⟨hl.handle, hl.connections, hl.outages, hl.tuning, hl.positive, hl.clock,
          fun hm => ?_, hl.lasting, hl.fresh, made, hline, hlog, hpassed⟩
        rw [(hl.writer hm).2] at hfed
        exact absurd hfed (by simp)
      · have hx : x.Lasting h.journal.now := hl.lasting x (by rw [hqueue]; exact List.mem_cons_self)
        obtain ⟨gate, hgate⟩ := h.journal.store.exists_gate Task.writer x.isAppend
        rw [hgate, LogWriter.attempt_eq _ _ _ hx.timely] at hattempt
        obtain ⟨rfl, rfl⟩ := Prod.mk.inj hattempt
        -- the first write moves from the line to those that have been made
        refine ⟨hl.handle, hl.connections, ?_, hl.tuning, hl.positive, hl.clock, hl.writer,
          fun y hy => ?_, hl.fresh, made ++ [x], ?_, fun key => ?_, fun ticket hticket => ?_⟩
        · exact (Store.outages_apply _ _ _).trans hl.outages
        · exact hl.lasting y (by rw [hqueue]; exact List.mem_cons_of_mem x hy)
        · rw [hline, hqueue, List.append_assoc]
          rfl
        · rw [List.foldl_append, ← hlog key]
          exact Store.live?_apply (s := { h.journal.store with gate }) hl.outages hx key
        · rcases List.mem_append.1 hticket with hticket | hticket
          · have hflush : x = .flush ticket := by
              cases x <;> simp [LogWrite.ticket?] at hticket
              rw [hticket]
            rw [hflush]
            exact List.mem_append_right _ List.mem_cons_self
          · exact List.mem_append_left _ (hpassed ticket hticket)

/-- However far the writer runs, its moves keep the invariant. -/
theorem lined_runFor (hl : h.Lined ttl line) (fuel : Nat) :
    ({ h with journal := { h.journal with
        writer := (h.journal.writer.runFor h.journal.store h.journal.now Task.writer fuel).1
        store := (h.journal.writer.runFor h.journal.store h.journal.now Task.writer fuel).2 } } :
      Hub).Lined ttl line := by
  induction fuel generalizing h with
  | zero => exact hl
  | succ fuel ih =>
      have hturned := lined_withTurn hl
      unfold withTurn at hturned
      cases hturn : h.journal.writer.turn h.journal.store h.journal.now Task.writer with
      | none =>
          simp only [LogWriter.runFor, hturn]
          exact lined_withWait hl
      | some p =>
          obtain ⟨writer, store⟩ := p
          rw [hturn] at hturned
          have hrest := ih hturned
          simp only [LogWriter.runFor, hturn]
          exact hrest

theorem lined_runWriter (hl : h.Lined ttl line) : h.runWriter.Lined ttl line :=
  lined_runFor hl (h.journal.writer.queue.length + 2)

theorem lined_rounds (hl : h.Lined ttl line) (n : Nat) : (h.rounds n).Lined ttl line := by
  induction n generalizing h with
  | zero => exact hl
  | succ n ih =>
      have hround : h.round.Lined ttl line := by
        rw [round_eq hl.connections]
        exact lined_runWriter (lined_runPumps hl)
      simp only [rounds]
      split
      · exact hround
      · exact ih hround

theorem lined_settle (hl : h.Lined ttl line) : h.settle.Lined ttl line := by
  have hrounds := lined_rounds hl (h.permits + 1)
  rw [settle, retire_of_handle hrounds.handle]
  exact hrounds

/-! ### Commands -/

theorem Event.timeless_cases {e : Event} (he : e.isTimeless = true) :
    e.isFront = true ∧ e ≠ .shutdown ∨ e = .flush ∨ e.isLook = true ∨ ∃ n, e = .permits n := by
  cases e <;> simp [isTimeless, isRegular, isFront, isLook] at he ⊢

theorem Event.isRegular_of_isTimeless {e : Event} (he : e.isTimeless = true) :
    e.isRegular = true := by
  cases e <;> first | rfl | simp [isTimeless, isRegular] at he

theorem lasting_of_mem_handed (httl : 0 < h.tuning.ttl)
    (hclock : h.journal.now + h.tuning.ttl < Time.limit) {e : Event} {x : LogWrite}
    (hx : x ∈ h.handed e) : x.Lasting h.journal.now := by
  cases e with
  | delete room =>
      simp only [handed] at hx
      split at hx
      · rw [List.mem_singleton.1 hx]
        trivial
      · simp at hx
  | submit sender room text =>
      rw [List.mem_singleton.1 hx]
      exact ⟨httl, hclock⟩
  | flush =>
      rw [List.mem_singleton.1 hx]
      trivial
  | _ => simp [handed] at hx

/-- What is handed over joins the line as far as it is accepted. -/
theorem foldl_push_handed (hclock : h.journal.now + h.tuning.ttl < Time.limit) (e : Event) :
    ∃ pending, (h.handed e).foldl (fun w x => (w.push x).2) h.journal.writer =
      { h.journal.writer with
        queue := h.journal.writer.queue ++
          (h.handed e).filter fun x => (h.journal.writer.push x).1.isOk
        pending } := by
  rcases handed_cases hclock e with hnil | ⟨x, hone, -⟩
  · refine ⟨h.journal.writer.pending, ?_⟩
    rw [hnil, List.filter_nil, List.append_nil]
    rfl
  · rw [hone]
    rcases LogWriter.push_cases h.journal.writer x with ⟨hok, pending, hpush⟩ | ⟨hok, hpush⟩
    · refine ⟨pending, ?_⟩
      simp only [List.foldl_cons, List.foldl_nil, hpush, hok, List.filter_cons_of_pos,
        List.filter_nil]
    · refine ⟨h.journal.writer.pending, ?_⟩
      simp [hpush, hok]

theorem lined_of_fed {r : Hub} {e : Event} (hl : h.Lined ttl line)
    (hfed : Fed h r e) (hticket : h.journal.ticket ≤ r.journal.ticket)
    (hfresh : ∀ ticket, .flush ticket ∈ h.handed e → ticket < r.journal.ticket) :
    r.Lined ttl (line ++ (h.handed e).filter fun x => (h.journal.writer.push x).1.isOk) := by
  obtain ⟨made, hline, hlog, hpassed⟩ := hl.made
  have httl : 0 < h.tuning.ttl := by
    rw [hl.tuning]
    exact hl.positive
  have hclock : h.journal.now + h.tuning.ttl < Time.limit := by
    rw [hl.tuning]
    exact hl.clock
  obtain ⟨pending, hpush⟩ := foldl_push_handed hclock e
  have hwriter := hfed.writer.trans hpush
  refine ⟨hfed.handle, hfed.connections.trans hl.connections, ?_, ?_, hl.positive, ?_,
    fun hm => ?_, fun x hx => ?_, fun ticket hmem => ?_, made, ?_, ?_, ?_⟩
  · rw [hfed.store]
    exact hl.outages
  · rw [hfed.tuning]
    exact hl.tuning
  · rw [hfed.now]
    exact hl.clock
  · rw [hwriter]
    exact hl.writer (hfed.managed.symm.trans hm)
  · rw [hwriter] at hx
    rw [hfed.now]
    rcases List.mem_append.1 hx with hx | hx
    · exact hl.lasting x hx
    · exact lasting_of_mem_handed httl hclock (List.mem_filter.1 hx).1
  · rcases List.mem_append.1 hmem with hmem | hmem
    · exact Nat.lt_of_lt_of_le (hl.fresh ticket hmem) hticket
    · exact hfresh ticket (List.mem_filter.1 hmem).1
  · rw [hwriter, hline, List.append_assoc]
  · rw [hfed.store, hfed.now]
    exact hlog
  · rw [hwriter]
    exact hpassed

theorem not_flush_of_front {e : Event} (he : e.isFront = true) (ticket : Nat) :
    .flush ticket ∉ h.handed e := by
  cases e with
  | delete room =>
      simp only [handed]
      split <;> simp
  | flush => simp [Event.isFront] at he
  | _ => simp [handed]

theorem lined_act (hl : h.Lined ttl line) {e : Event} (he : e.isTimeless = true) :
    (h.act e).Lined ttl (line ++ h.accepted e) := by
  unfold act accepted
  cases hr : h.refuses e with
  | true =>
      simp only [if_true, List.append_nil]
      exact hl
  | false =>
      simp only [Bool.false_eq_true, if_false]
      rcases Event.timeless_cases he with ⟨hfront, hs⟩ | rfl | hlook | ⟨n, rfl⟩
      · cases frontChange_react (h := h) hfront with
        | handed registry handle opened held pumps kept eq =>
            have hfed : Fed h (h.react e).2 e := by
              rw [eq]
              exact ⟨(kept hs).trans hl.handle, rfl, rfl, rfl, rfl, rfl, rfl⟩
            refine lined_of_fed hl hfed (Nat.le_of_eq (by rw [eq])) fun ticket hmem => ?_
            exact absurd hmem (not_flush_of_front hfront ticket)
        | dismissed registry opened held nothing eq =>
            -- the writer is let go of, but what waits in its line is still written
            rw [eq, nothing, List.filter_nil, List.append_nil]
            exact ⟨hl.handle, hl.connections, hl.outages, hl.tuning, hl.positive, hl.clock,
              fun hm => absurd hm (by simp), hl.lasting, hl.fresh, hl.made⟩
      · have hfed : Fed h (h.react .flush).2 .flush :=
          ⟨hl.handle, rfl, rfl, rfl, rfl, rfl, rfl⟩
        refine lined_of_fed hl hfed (Nat.le_succ _) fun ticket hmem => ?_
        rw [LogWrite.flush.inj (List.mem_singleton.1 hmem)]
        exact Nat.lt_succ_self _
      · obtain ⟨store, heq, halike⟩ := react_look (h := h) hlook
        have hhanded : h.handed e = [] := by
          cases e <;> first | rfl | simp [Event.isLook] at hlook
        rw [heq, hhanded, List.filter_nil, List.append_nil]
        exact lined_withStore hl (halike.outages.trans hl.outages) halike.log
      · simp only [handed, List.filter_nil, List.append_nil]
        exact lined_withStore hl hl.outages fun _ => rfl

/-- With all its background work, a step is an event that takes effect and moves of the writer. -/
theorem lined_step (hl : h.Lined ttl line) {e : Event} (he : e.isTimeless = true) :
    (h.step e).2.2.Lined ttl (line ++ h.accepted e) := by
  have hact := lined_act hl he
  cases hr : h.refuses e with
  | true =>
      rw [act, if_pos hr] at hact
      rw [(step_of_refuses hr).2]
      exact hact
  | false =>
      rw [act, if_neg (by rw [hr]; simp)] at hact
      have hsettled := lined_settle hact
      have hstep := step_eq hr (Event.front_or_logSide (Event.isRegular_of_isTimeless he))
        hsettled.connections
      have hafter : (h.step e).2.2 = (h.react e).2.settle := by rw [hstep]
      rw [hafter]
      exact hsettled

/-- Every move keeps the invariant, what it has accepted added to the line. -/
theorem lined_go (hl : h.Lined ttl line) {mv : Move}
    (hmv : ∀ m, mv.moment? = some m → m.event.isTimeless = true) :
    (h.go mv).Lined ttl (line ++ h.acceptedIn mv) := by
  cases mv with
  | command m => exact lined_act (lined_dated hl m.wall) (hmv m rfl)
  | step m => exact lined_step (lined_dated hl m.wall) (hmv m rfl)
  | turn =>
      rw [acceptedIn, Move.moment?, Option.map_none, Option.getD_none, List.append_nil]
      exact lined_withTurn hl
  | wait =>
      rw [acceptedIn, Move.moment?, Option.map_none, Option.getD_none, List.append_nil]
      exact lined_withWait hl

theorem lined_goes (hl : h.Lined ttl line) {mvs : List Move}
    (hmvs : ∀ mv ∈ mvs, ∀ m, mv.moment? = some m → m.event.isTimeless = true) :
    (h.goes mvs).Lined ttl (line ++ h.line mvs) := by
  induction mvs generalizing h line with
  | nil =>
      rw [Hub.line, List.append_nil]
      exact hl
  | cons mv mvs ih =>
      have hstep := lined_go hl (hmvs mv List.mem_cons_self)
      have hrest := ih hstep fun mv' hmv' => hmvs mv' (List.mem_cons_of_mem mv hmv')
      rw [List.append_assoc] at hrest
      exact hrest

end ChatServer.Hub
