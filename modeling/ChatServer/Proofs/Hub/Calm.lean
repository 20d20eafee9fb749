import ChatServer.Proofs.Hub.React
import ChatServer.Proofs.Hub.Run

/-!
A server over a store that works and has no gate. Whatever the writer is handed it attempts before
the next event, so after every event the line before it is empty and all that was written can be
seen.
-/

namespace ChatServer

namespace LogWriter

/-- A writer that waits for something to write. -/
structure Idle (w : LogWriter) : Prop where
  queue : w.queue = []
  pending : w.pending = 0
  capacity : 0 < w.capacity
  phase : w.phase = .running
  fed : w.fed = true

/-- An idle writer accepts anything. -/
theorem push_idle {w : LogWriter} (hw : w.Idle) (x : LogWrite) :
    (w.push x).2 = { w with queue := [x], pending := if x.isAppend then 1 else 0 } := by
  have hroom : ¬ w.capacity ≤ 0 := Nat.not_le.2 hw.capacity
  simp [push, accepting, hw.queue, hw.pending, hw.phase, hroom]

theorem drained_push_idle {w : LogWriter} (hw : w.Idle) (x : LogWrite) :
    (w.push x).2.drained.Idle := by
  rw [push_idle hw]
  refine ⟨rfl, ?_, hw.capacity, hw.phase, hw.fed⟩
  cases x <;> rfl

variable {α : Type} [DecidableEq α]

theorem run_of_idle {w : LogWriter} (hw : w.Idle) (s : Store α) (now : Time) (me : α) :
    w.run s now me = (w, s) := by
  have hturn : w.turn s now me = none := turn_eq_none_of_idle hw.queue hw.fed
  rw [run, runFor, hturn]
  dsimp only
  rw [wait_of_idle hw.queue]

/-- Without a gate what an idle writer is handed is attempted at once. -/
theorem run_push_idle {w : LogWriter} (hw : w.Idle) {s : Store α} {now : Time} {x : LogWrite}
    (me : α) (hgate : s.gate = none) (hx : x.Timely now) :
    (w.push x).2.run s now me = ((w.push x).2.drained, s.apply now x) := by
  rw [push_idle hw]
  exact run_ungated me hgate hw.phase hw.fed (by simpa using hx)

end LogWriter

namespace Hub

/-- A server over a working store without gate, with nothing left to write. -/
structure Calm (h : Hub) : Prop where
  handle : h.handle = true
  connections : h.connections = Table.empty
  outages : h.journal.store.outages = Outages.none
  gate : h.journal.store.gate = none
  queue : h.journal.writer.queue = []
  writer : h.managed = true → h.journal.writer.Idle

/-- A server just started over a working store without gate is calm. -/
theorem calm_new (tuning : Tuning) (wall : Instant) : (new tuning Outages.none false wall).Calm :=
  ⟨rfl, rfl, rfl, rfl, rfl,
    fun _ => ⟨rfl, rfl, Nat.lt_of_lt_of_le Nat.zero_lt_one (Nat.le_max_right _ _), rfl, rfl⟩⟩

theorem calm_dated {h : Hub} (hcalm : h.Calm) (wall : Instant) : (h.dated wall).Calm :=
  ⟨hcalm.handle, hcalm.connections, hcalm.outages, hcalm.gate, hcalm.queue, hcalm.writer⟩

/-! ### Background work on a calm server -/

/-- Without a gate the background work is one round. -/
theorem settle_of_ungated {h : Hub} (hh : h.handle = true) (hc : h.connections = Table.empty)
    (hgate : h.journal.store.gate = none) : h.settle = h.runPumps.runWriter := by
  have hround := round_eq hc
  have hpermits : h.permits = 0 := by simp [permits, hgate]
  rw [settle_of_no_permits (by rw [hround]; exact h.handle_runPumps.trans hh) hpermits, hround]

theorem journal_settle_of_ungated {h : Hub} (hh : h.handle = true)
    (hc : h.connections = Table.empty) (hgate : h.journal.store.gate = none) :
    h.settle.journal = h.journal.settle .writer := by
  rw [settle_of_ungated hh hc hgate, runWriter, journal_runPumps]

/-- What the background work after an event comes to. -/
structure Settled (h h' : Hub) (store : Store Task) : Prop where
  calm : h'.Calm
  tuning : h'.tuning = h.tuning
  now : h'.journal.now = h.journal.now
  store : h'.journal.store = store

/-- On a calm server only pumps find something to do. -/
theorem settled_of_calm {h : Hub} (hcalm : h.Calm) : Settled h h.settle h.journal.store := by
  have hj := journal_settle_of_ungated hcalm.handle hcalm.connections hcalm.gate
  have hs := settle_of_ungated hcalm.handle hcalm.connections hcalm.gate
  obtain ⟨phase, hrun⟩ := LogWriter.run_idle h.journal.store h.journal.now Task.writer hcalm.queue
  rw [Journal.settle, hrun] at hj
  refine ⟨⟨?_, ?_, ?_, ?_, ?_, fun hm => ?_⟩, ?_, ?_, ?_⟩
  · rw [hs]
    exact h.handle_runPumps.trans hcalm.handle
  · rw [hs]
    exact h.connections_runPumps.trans hcalm.connections
  · rw [hj]
    exact hcalm.outages
  · rw [hj]
    exact hcalm.gate
  · rw [hj]
    exact hcalm.queue
  · have hmanaged : h.managed = true := by
      rw [hs] at hm
      exact h.managed_runPumps.symm.trans hm
    have hidle := hcalm.writer hmanaged
    rw [LogWriter.run_of_idle hidle] at hrun
    rw [hj, ← (Prod.mk.inj hrun).1]
    exact hidle
  · rw [hs]
    exact h.tuning_runPumps
  · rw [hj]
  · rw [hj]

/-- The one write that an idle writer is handed is made. -/
theorem settled_of_handed {h : Hub} {w : LogWriter} {x : LogWrite} (hw : w.Idle)
    (hwriter : h.journal.writer = (w.push x).2) (hh : h.handle = true)
    (hc : h.connections = Table.empty) (ho : h.journal.store.outages = Outages.none)
    (hgate : h.journal.store.gate = none) (hx : x.Timely h.journal.now) :
    Settled h h.settle (h.journal.store.apply h.journal.now x) := by
  have hj := journal_settle_of_ungated hh hc hgate
  have hs := settle_of_ungated hh hc hgate
  have hidle := LogWriter.drained_push_idle hw x
  rw [Journal.settle, hwriter, LogWriter.run_push_idle hw _ hgate hx] at hj
  refine ⟨⟨?_, ?_, ?_, ?_, ?_, fun _ => ?_⟩, ?_, ?_, ?_⟩
  · rw [hs]
    exact h.handle_runPumps.trans hh
  · rw [hs]
    exact h.connections_runPumps.trans hc
  · rw [hj]
    exact (Store.outages_apply _ _ _).trans ho
  · rw [hj]
    exact (Store.gate_apply _ _ _).trans hgate
  · rw [hj]
    exact hidle.queue
  · rw [hj]
    exact hidle
  · rw [hs]
    exact h.tuning_runPumps
  · rw [hj]
  · rw [hj]

/-! ### Events on a calm server -/

/-- Events on such a server, other than giving it up and tampering with its store. -/
def Event.isRegular : Event → Bool
  | .log _ | .outages _ | .shutdown | .connect .. | .text .. | .ignored _ | .disconnect _ => false
  | _ => true

/-- Events that go to the store past the writer, or bring nothing but time or permits. -/
def Event.isAside : Event → Bool
  | .history _ | .direct .. | .getDirect .. | .deleteDirect .. | .keyExists _ | .logSize
  | .advance _ | .permits _ => true
  | _ => false

theorem Event.regular_cases {e : Event} (he : e.isRegular = true) :
    e.isFront = true ∧ e ≠ .shutdown ∨ e = .flush ∨ e.isAside = true := by
  cases e <;> simp [isRegular, isFront, isAside] at he ⊢

theorem Event.aside_cases {e : Event} (he : e.isAside = true) :
    e.isLook = true ∨ (∃ sender receiver text, e = .direct sender receiver text) ∨
      (∃ sender receiver, e = .deleteDirect sender receiver) ∨
      (∃ d, e = .advance d) ∨ ∃ n, e = .permits n := by
  cases e <;> simp [isAside, isLook] at he ⊢

theorem Event.front_or_logSide {e : Event} (he : e.isRegular = true) :
    e.isFront = true ∨ e.isLogSide = true := by
  cases e <;> simp [isRegular, isFront, isLogSide] at he ⊢

/-- The writes that an event comes to. -/
def writes (h : Hub) : Event → List LogWrite
  | .direct sender receiver text =>
    [.append (directKey sender receiver) (DirectRecord.new sender receiver text).json
      h.tuning.ttl]
  | .deleteDirect sender receiver => [.purge (directKey sender receiver)]
  | e => h.handed e

/-- The time that an event takes. -/
def Event.elapsed : Event → Duration
  | .advance d => d
  | _ => 0

/-- The server that an event has led to: calm again, with all the event's writes made. -/
structure Written (h h' : Hub) (e : Event) : Prop where
  calm : h'.Calm
  tuning : h'.tuning = h.tuning
  now : h'.journal.now = h.journal.now + e.elapsed
  log : ∀ key, h'.journal.store.log.live? h.journal.now key =
    ((h.writes e).foldl (fun s x => s.apply h.journal.now x) h.journal.store).log.live?
      h.journal.now key

theorem Written.of_settled {h r : Hub} {e : Event} {store : Store Task}
    (hs : Settled r r.settle store) (htuning : r.tuning = h.tuning)
    (hnow : r.journal.now = h.journal.now + e.elapsed)
    (hlog : ∀ key, store.log.live? h.journal.now key =
      ((h.writes e).foldl (fun s x => s.apply h.journal.now x) h.journal.store).log.live?
        h.journal.now key) : Written h r.settle e :=
  ⟨hs.calm, hs.tuning.trans htuning, hs.now.trans hnow, fun key => by rw [hs.store, hlog key]⟩

/-- Only commands hand anything to the writer. -/
theorem handed_of_not_isCommand {h : Hub} {e : Event} (he : e.isCommand = false) :
    h.handed e = [] := by
  cases e <;> first | rfl | simp [Event.isCommand] at he

/-- An event hands over nothing or one write, whose deadline the clock can show if it can show one
that is set now. -/
theorem handed_cases {h : Hub} (hclock : h.journal.now + h.tuning.ttl < Time.limit) (e : Event) :
    h.handed e = [] ∨ ∃ x, h.handed e = [x] ∧ x.Timely h.journal.now := by
  cases e with
  | delete room =>
      simp only [handed]
      split
      · exact .inr ⟨_, rfl, trivial⟩
      · exact .inl rfl
  | submit sender room text => exact .inr ⟨_, rfl, hclock⟩
  | flush => exact .inr ⟨_, rfl, trivial⟩
  | _ => exact .inl rfl

/-- A server that differs from a calm one in its front and in what its writer has been handed. -/
structure Fed (h r : Hub) (e : Event) : Prop where
  handle : r.handle = true
  connections : r.connections = h.connections
  tuning : r.tuning = h.tuning
  managed : r.managed = h.managed
  store : r.journal.store = h.journal.store
  now : r.journal.now = h.journal.now
  writer : r.journal.writer = (h.handed e).foldl (fun w x => (w.push x).2) h.journal.writer

theorem written_of_fed {h r : Hub} {e : Event} (hcalm : h.Calm) (hfed : Fed h r e)
    (hclock : h.journal.now + h.tuning.ttl < Time.limit) (hr : h.refuses e = false)
    (hwrites : h.writes e = h.handed e) (helapsed : e.elapsed = 0) : Written h r.settle e := by
  have hnow : r.journal.now = h.journal.now + e.elapsed := by rw [hfed.now, helapsed]; rfl
  have hwriter := hfed.writer
  rcases handed_cases hclock e with hnil | ⟨x, hone, hx⟩
  · rw [hnil] at hwriter
    have hrcalm : r.Calm := by
      refine ⟨hfed.handle, hfed.connections.trans hcalm.connections, ?_, ?_, ?_, fun hm => ?_⟩
      · rw [hfed.store]
        exact hcalm.outages
      · rw [hfed.store]
        exact hcalm.gate
      · rw [hwriter]
        exact hcalm.queue
      · rw [hwriter]
        exact hcalm.writer (hfed.managed.symm.trans hm)
    refine Written.of_settled (settled_of_calm hrcalm) hfed.tuning hnow fun key => ?_
    rw [hwrites, hnil, hfed.store]
    rfl
  · -- only a command hands a write over, and the writer of a server that handles it is idle
    rw [hone] at hwriter
    have hmanaged : h.managed = true := by
      cases hcommand : e.isCommand with
      | true => exact managed_of_not_refuses hr hcommand
      | false => simp [handed_of_not_isCommand hcommand] at hone
    have hsettled := settled_of_handed (hcalm.writer hmanaged) hwriter hfed.handle
      (hfed.connections.trans hcalm.connections) (by rw [hfed.store]; exact hcalm.outages)
      (by rw [hfed.store]; exact hcalm.gate) (by rw [hfed.now]; exact hx)
    refine Written.of_settled hsettled hfed.tuning hnow fun key => ?_
    rw [hwrites, hone, hfed.store, hfed.now]
    rfl

theorem written_front {h : Hub} {e : Event} (hcalm : h.Calm)
    (hclock : h.journal.now + h.tuning.ttl < Time.limit) (hr : h.refuses e = false)
    (he : e.isFront = true) (hs : e ≠ .shutdown) : Written h (h.react e).2.settle e := by
  have hwrites : h.writes e = h.handed e := by
    cases e <;> first | rfl | simp [Event.isFront] at he
  have helapsed : e.elapsed = 0 := by
    cases e <;> first | rfl | simp [Event.isFront] at he
  cases frontChange_react (h := h) he with
  | handed registry handle opened held pumps kept eq =>
      rw [eq]
      exact written_of_fed hcalm ⟨(kept hs).trans hcalm.handle, rfl, rfl, rfl, rfl, rfl, rfl⟩
        hclock hr hwrites helapsed
  | dismissed registry opened held nothing eq =>
      have hrcalm : (h.react e).2.Calm := by
        rw [eq]
        exact ⟨hcalm.handle, hcalm.connections, hcalm.outages, hcalm.gate, hcalm.queue,
          fun hm => absurd hm (by simp)⟩
      refine Written.of_settled (settled_of_calm hrcalm) (by rw [eq]) (by rw [eq, helapsed]; rfl)
        fun key => ?_
      rw [eq, hwrites, nothing]
      rfl

/-- A store that works and has no gate can be changed at will. -/
theorem calm_withStore {h : Hub} (hcalm : h.Calm) {s : Store Task}
    (ho : s.outages = Outages.none) (hgate : s.gate = none) : (h.withStore s).Calm :=
  ⟨hcalm.handle, hcalm.connections, ho, hgate, hcalm.queue, hcalm.writer⟩

/-- What goes to the store past the writer is made at once, whatever the clock can show. -/
theorem written_aside {h : Hub} {e : Event} (hcalm : h.Calm) (he : e.isAside = true) :
    Written h (h.react e).2.settle e := by
  rcases Event.aside_cases he with hlook | ⟨sender, receiver, text, rfl⟩ |
    ⟨sender, receiver, rfl⟩ | ⟨d, rfl⟩ | ⟨n, rfl⟩
  · obtain ⟨store, heq, halike⟩ := react_look (h := h) hlook
    have hwrites : h.writes e = [] := by
      cases e <;> first | rfl | simp [Event.isLook] at hlook
    have helapsed : e.elapsed = 0 := by
      cases e <;> first | rfl | simp [Event.isLook] at hlook
    have hrcalm := calm_withStore hcalm (halike.outages.trans hcalm.outages)
      (halike.gate.trans hcalm.gate)
    rw [heq]
    refine Written.of_settled (settled_of_calm hrcalm) rfl (by rw [helapsed]; rfl) fun key => ?_
    rw [hwrites]
    exact halike.log key
  · rw [react_direct hcalm.gate]
    have hrcalm := calm_withStore hcalm ((Store.outages_apply _ h.journal.now (.append
      (directKey sender receiver) (DirectRecord.new sender receiver text).json
      h.tuning.ttl)).trans hcalm.outages) ((Store.gate_apply _ _ _).trans hcalm.gate)
    exact Written.of_settled (settled_of_calm hrcalm) rfl rfl fun key => rfl
  · rw [react_deleteDirect]
    have hrcalm := calm_withStore hcalm ((Store.outages_apply _ h.journal.now (.purge
      (directKey sender receiver))).trans hcalm.outages) ((Store.gate_apply _ _ _).trans hcalm.gate)
    exact Written.of_settled (settled_of_calm hrcalm) rfl rfl fun key => rfl
  · have hrcalm : (h.react (.advance d)).2.Calm :=
      ⟨hcalm.handle, hcalm.connections, hcalm.outages, hcalm.gate, hcalm.queue, hcalm.writer⟩
    exact Written.of_settled (settled_of_calm hrcalm) rfl rfl fun key => rfl
  · -- where there is no gate, permits are of no use
    have hsame : h.journal.store.addPermits n = h.journal.store := by
      have hgate := hcalm.gate
      rcases hstore : h.journal.store with ⟨log, outages, gate⟩
      rw [hstore] at hgate
      simp only at hgate
      simp [Store.addPermits, hgate]
    have hreact : (h.react (.permits n)).2 = h := by
      simp only [react, hsame]
      rfl
    rw [hreact]
    exact Written.of_settled (settled_of_calm hcalm) rfl rfl fun key => rfl

/-- Whatever happens on a calm server, it is calm again afterwards and what was to be written has
been written. -/
theorem written_step {h : Hub} {e : Event} (hcalm : h.Calm)
    (hclock : h.journal.now + h.tuning.ttl < Time.limit) (hr : h.refuses e = false)
    (he : e.isRegular = true) : Written h (h.react e).2.settle e := by
  rcases Event.regular_cases he with ⟨hfront, hs⟩ | rfl | haside
  · exact written_front hcalm hclock hr hfront hs
  · exact written_of_fed hcalm ⟨hcalm.handle, rfl, rfl, rfl, rfl, rfl, rfl⟩ hclock hr rfl rfl
  · exact written_aside hcalm haside

/-- The history of a room over a working store is what its key shows. -/
theorem history_of_healthy {h : Hub} (ho : h.journal.store.outages = Outages.none)
    (room : RoomId) :
    (h.history room).1 = .ok (readable ChatRecord.parse (((h.journal.store.log.live?
      h.journal.now (roomKey room)).map LogEntry.values).getD [])) := by
  have halike := h.journal.store.alike_call_contains h.journal.now (roomKey room)
  have hcontains := Store.call_contains_healthy ho h.journal.now (roomKey room)
  have hrange := Store.call_range_healthy (halike.outages.trans ho) h.journal.now (roomKey room)
  rw [halike.log] at hrange
  unfold history
  rw [call_eq, hcontains]
  cases hlive : h.journal.store.log.live? h.journal.now (roomKey room) with
  | none => rfl
  | some e =>
      rw [hlive] at hrange
      simp only [Option.isSome_some, call_eq, journal_withStore, hrange]

theorem step_history_of_healthy {h : Hub} (hh : h.handle = true)
    (ho : h.journal.store.outages = Outages.none) (room : RoomId) :
    (h.step (.history room)).1 = .history (readable ChatRecord.parse (((h.journal.store.log.live?
      h.journal.now (roomKey room)).map LogEntry.values).getD [])) := by
  have hr : h.refuses (.history room) = false := by
    simp [refuses, hh, Event.isCommand]
  have hlook : (h.react (.history room)).1 = ofLog (h.history room).1 .history := rfl
  rw [history_of_healthy ho] at hlook
  rw [step_fst hr]
  exact hlook

end Hub

end ChatServer
