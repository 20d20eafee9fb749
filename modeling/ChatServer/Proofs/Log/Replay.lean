import ChatServer.Log.Journal
import ChatServer.Proofs.Log.Live

/-!
What the background writer does to the store. A write that is attempted changes the store as the
write by itself says, whoever makes it; the writer adds only that one write follows the other in
the order of the line. A turn of the writer is described once (`turn_cases`), and running until
nothing but waiting is left is, without a gate, applying the whole line.
-/

namespace ChatServer

/-- The clock can show the deadline that a write asks for, if it asks for one. -/
def LogWrite.Timely (now : Time) : LogWrite → Prop
  | .append _ _ ttl => now + ttl < Time.limit
  | _ => True

/-- The barrier that a write is, if it is one. -/
def LogWrite.ticket? : LogWrite → Option Nat
  | .flush ticket => some ticket
  | _ => none

namespace Store

variable {α : Type}

/-- The store after a write has been attempted. -/
def apply (s : Store α) (now : Time) : LogWrite → Store α
  | .append key value ttl => (s.write now key value ttl).2
  | .purge key => (s.call now (.delete key)).2
  | .flush _ => s

@[simp] theorem outages_call (s : Store α) (now : Time) (c : LogCall) :
    (s.call now c).2.outages = s.outages := by
  unfold call
  split
  · rfl
  · split <;> rfl

@[simp] theorem gate_call (s : Store α) (now : Time) (c : LogCall) :
    (s.call now c).2.gate = s.gate := by
  unfold call
  split
  · rfl
  · split <;> rfl

/-- A push meets no deadline, so it cannot fail for one. -/
theorem call_push_ne_overflow (s : Store α) (now : Time) (key value : String) :
    (s.call now (.push key value)).1 ≠ .overflow := by
  unfold call
  split
  · simp
  · simp [ExpiringLog.call]

theorem call_expire_ne_overflow (s : Store α) {now : Time} {ttl : Duration} (key : String)
    (h : now + ttl < Time.limit) : (s.call now (.expire key ttl)).1 ≠ .overflow := by
  obtain ⟨log', hlog, -⟩ := s.log.live?_expire? key h
  unfold call
  split
  · simp
  · simp [ExpiringLog.call, hlog]

theorem write_eq (s : Store α) (now : Time) (key value : String) (ttl : Duration) :
    s.write now key value ttl =
      if (s.call now (.push key value)).1 = .answered .done then
        (s.call now (.push key value)).2.call now (.expire key ttl)
      else s.call now (.push key value) := by
  unfold write
  cases ho : s.outages.reason (.push key value) with
  | none => simp [call, ho, ExpiringLog.call]
  | some reason => simp [call, ho]

theorem write_ne_overflow (s : Store α) {now : Time} {ttl : Duration} (key value : String)
    (h : now + ttl < Time.limit) : (s.write now key value ttl).1 ≠ .overflow := by
  rw [write_eq]
  split
  · exact call_expire_ne_overflow _ key h
  · exact call_push_ne_overflow s now key value

@[simp] theorem outages_write (s : Store α) (now : Time) (key value : String)
    (ttl : Duration) : (s.write now key value ttl).2.outages = s.outages := by
  rw [write_eq]
  split <;> simp

@[simp] theorem gate_write (s : Store α) (now : Time) (key value : String) (ttl : Duration) :
    (s.write now key value ttl).2.gate = s.gate := by
  rw [write_eq]
  split <;> simp

@[simp] theorem outages_apply (s : Store α) (now : Time) (x : LogWrite) :
    (s.apply now x).outages = s.outages := by
  cases x <;> simp [apply]

@[simp] theorem gate_apply (s : Store α) (now : Time) (x : LogWrite) :
    (s.apply now x).gate = s.gate := by
  cases x <;> simp [apply]

/-- Leave to push changes nothing but the gate. -/
theorem acquire_eq [DecidableEq α] (s : Store α) (who : α) :
    (s.acquire who).2 = { s with gate := (s.acquire who).2.gate } := by
  unfold acquire
  split <;> rfl

/-- A write that needs leave or none: asking changes the gate at most. -/
theorem exists_gate [DecidableEq α] (s : Store α) (who : α) (b : Bool) :
    ∃ gate, (if b then (s.acquire who).2 else s) = { s with gate } := by
  cases b with
  | false => exact ⟨s.gate, rfl⟩
  | true => exact ⟨_, s.acquire_eq who⟩

theorem acquire_ungated [DecidableEq α] {s : Store α} (h : s.gate = none) (who : α) :
    s.acquire who = (true, s) := by
  simp [acquire, h]

/-! ### Looking without touching -/

/-- A store that shows at a time what another one shows. -/
structure Alike (now : Time) (s t : Store α) : Prop where
  outages : s.outages = t.outages
  gate : s.gate = t.gate
  log : ∀ key, s.log.live? now key = t.log.live? now key

theorem Alike.refl (now : Time) (s : Store α) : s.Alike now s := ⟨rfl, rfl, fun _ => rfl⟩

theorem Alike.trans {now : Time} {s t u : Store α} (hst : s.Alike now t) (htu : t.Alike now u) :
    s.Alike now u :=
  ⟨hst.outages.trans htu.outages, hst.gate.trans htu.gate,
    fun key => (hst.log key).trans (htu.log key)⟩

theorem alike_call_contains (s : Store α) (now : Time) (key : String) :
    (s.call now (.contains key)).2.Alike now s := by
  unfold call
  split
  · exact Alike.refl now s
  · exact ⟨rfl, rfl, fun x => s.log.live?_evict now key x⟩

theorem alike_call_range (s : Store α) (now : Time) (key : String) (start stop : Int) :
    (s.call now (.range key start stop)).2.Alike now s := by
  unfold call
  split
  · exact Alike.refl now s
  · exact ⟨rfl, rfl, fun x => s.log.live?_evict now key x⟩

theorem alike_purge (s : Store α) (now : Time) :
    ({ s with log := s.log.purge now } : Store α).Alike now s :=
  ⟨rfl, rfl, fun key => s.log.live?_purge now key⟩

/-! ### A store that works -/

/-- In a store that works a call is made to the log. -/
theorem call_healthy {s : Store α} (h : s.outages = Outages.none) (now : Time) (c : LogCall) :
    (s.call now c).2.log = (s.log.call now c).2 := by
  have hnone : s.outages.reason c = none := by
    rw [h]
    cases c <;> rfl
  unfold call
  rw [hnone]
  dsimp only
  split <;> simp [*]

theorem call_contains_healthy {s : Store α} (h : s.outages = Outages.none) (now : Time)
    (key : String) :
    (s.call now (.contains key)).1 = .answered (.found (s.log.live? now key).isSome) := by
  simp [call, h, Outages.none, Outages.reason, ExpiringLog.call, ExpiringLog.contains]

theorem call_range_healthy {s : Store α} (h : s.outages = Outages.none) (now : Time)
    (key : String) : (s.call now (.range key 0 (-1))).1 =
      .answered (.values (((s.log.live? now key).map LogEntry.values).getD [])) := by
  simp [call, h, Outages.none, Outages.reason, ExpiringLog.call, ExpiringLog.range_all]

/-- A message is appended to what its key shows and renews the key's time to live; without a time
to live nothing is shown any more. Other keys stay as they are. -/
theorem live?_write {s : Store α} (h : s.outages = Outages.none) {now : Time} {ttl : Duration}
    (key value x : String) (ht : now + ttl < Time.limit) :
    (s.write now key value ttl).2.log.live? now x =
      if x = key then
        if 0 < ttl then
          some { LogEntry.appended (s.log.live? now key) value with deadline := some (now + ttl) }
        else none
      else s.log.live? now x := by
  have hanswer : (s.call now (.push key value)).1 = .answered .done := by
    simp [call, h, Outages.none, Outages.reason, ExpiringLog.call]
  have hpush : (s.call now (.push key value)).2.log = s.log.push now key value := by
    rw [call_healthy h]
    rfl
  have houtages : (s.call now (.push key value)).2.outages = Outages.none := by
    rw [outages_call, h]
  obtain ⟨log', hlog, hlive⟩ := (s.log.push now key value).live?_expire? key ht
  rw [write_eq, if_pos hanswer, call_healthy houtages, hpush]
  simp only [ExpiringLog.call, hlog, hlive]
  by_cases hx : x = key
  · simp [hx]
  · simp [hx]

/-- Where the clock cannot show the deadline a message is appended all the same, and its key keeps
the deadline that it had. -/
theorem live?_write_late {s : Store α} (h : s.outages = Outages.none) {now : Time}
    {ttl : Duration} (key value x : String) (ht : Time.limit ≤ now + ttl) :
    (s.write now key value ttl).2.log.live? now x =
      if x = key then some (LogEntry.appended (s.log.live? now key) value)
      else s.log.live? now x := by
  have hanswer : (s.call now (.push key value)).1 = .answered .done := by
    simp [call, h, Outages.none, Outages.reason, ExpiringLog.call]
  have hpush : (s.call now (.push key value)).2.log = s.log.push now key value := by
    rw [call_healthy h]
    rfl
  have houtages : (s.call now (.push key value)).2.outages = Outages.none := by
    rw [outages_call, h]
  have hexpire : (s.log.push now key value).expire? now key ttl = none := by
    simp [ExpiringLog.expire?, Time.after?_eq_none.2 ht]
  rw [write_eq, if_pos hanswer, call_healthy houtages, hpush]
  simp only [ExpiringLog.call, hexpire, ExpiringLog.live?_push]

theorem live?_apply_purge {s : Store α} (h : s.outages = Outages.none) (now : Time)
    (key x : String) : (s.apply now (.purge key)).log.live? now x =
      if x = key then none else s.log.live? now x := by
  rw [apply, call_healthy h]
  simp [ExpiringLog.call]

end Store

namespace LogWriter

variable {α : Type}

/-- The writer after the first write in line has been attempted. -/
def advance (w : LogWriter) (x : LogWrite) (rest : List LogWrite) : LogWriter :=
  { w with
    queue := rest
    pending := if x.isAppend then w.pending - 1 else w.pending
    passed := x.ticket?.toList ++ w.passed }

/-- The writer after the whole line has been attempted. -/
def drained (w : LogWriter) : LogWriter :=
  { w with
    queue := []
    pending := w.pending - w.queue.countP LogWrite.isAppend
    passed := (w.queue.filterMap LogWrite.ticket?).reverse ++ w.passed }

/-- Whatever the store makes of a write, the writer goes on to the next one. -/
theorem attempt_eq (w : LogWriter) (s : Store α) {now : Time} {x : LogWrite}
    (rest : List LogWrite) (h : x.Timely now) :
    w.attempt s now x rest = (w.advance x rest, s.apply now x) := by
  cases x with
  | append key value ttl =>
      have hne := s.write_ne_overflow key value h
      cases hwrite : s.write now key value ttl with
      | mk r s' =>
          rw [hwrite] at hne
          -- only a deadline beyond the clock would stop the writer
          cases r with
          | overflow => exact absurd rfl hne
          | answered a => simp [attempt, Store.apply, hwrite, advance, LogWrite.isAppend,
              LogWrite.ticket?]
          | unavailable reason => simp [attempt, Store.apply, hwrite, advance,
              LogWrite.isAppend, LogWrite.ticket?]
  | purge key => rfl
  | flush ticket => rfl

variable [DecidableEq α]

/-- A move of the writer: it ends when nothing is left and nothing can come, or it attempts the
first write in line, an append only with leave. -/
theorem turn_cases {w w' : LogWriter} {s s' : Store α} {now : Time} {me : α}
    (h : w.turn s now me = some (w', s')) :
    w.phase = .running ∧
      ((w.queue = [] ∧ w.fed = false ∧ w' = { w with phase := .finished } ∧ s' = s) ∨
        ∃ x rest, w.queue = x :: rest ∧ (x.isAppend = true → (s.acquire me).1 = true) ∧
          (w', s') = w.attempt (if x.isAppend then (s.acquire me).2 else s) now x rest) := by
  unfold turn at h
  by_cases hphase : w.phase = .running
  · refine ⟨hphase, ?_⟩
    rw [if_neg (fun hne => hne hphase)] at h
    cases hqueue : w.queue with
    | nil =>
        rw [hqueue] at h
        cases hfed : w.fed with
        | true => simp [hfed] at h
        | false =>
            simp only [hfed, Bool.false_eq_true, if_false, Option.some.injEq,
              Prod.mk.injEq] at h
            refine .inl ⟨rfl, rfl, ?_, h.2.symm⟩
            rw [← h.1]
    | cons x rest =>
        rw [hqueue] at h
        refine .inr ⟨x, rest, rfl, ?_⟩
        cases happend : x.isAppend with
        | false =>
            simp only [happend, Bool.false_eq_true, if_false, Option.some.injEq] at h
            exact ⟨fun hne => absurd hne (by simp), h.symm⟩
        | true =>
            cases hacquire : s.acquire me with
            | mk granted s₁ =>
                cases granted with
                | false => simp [happend, hacquire] at h
                | true =>
                    simp only [happend, hacquire, if_true, Option.some.injEq] at h
                    exact ⟨fun _ => rfl, h.symm⟩
  · simp [hphase] at h

/-- Waiting for leave changes the gate at most. -/
theorem wait_eq (w : LogWriter) (s : Store α) (me : α) :
    w.wait s me = { s with gate := (w.wait s me).gate } := by
  unfold wait
  split
  · split
    · rw [Store.acquire_eq]
    · rfl
  · rfl

theorem turn_eq_none_of_idle {w : LogWriter} {s : Store α} {now : Time} {me : α}
    (hqueue : w.queue = []) (hfed : w.fed = true) : w.turn s now me = none := by
  simp [turn, hqueue, hfed]

theorem turn_of_not_running {w : LogWriter} {s : Store α} {now : Time} {me : α}
    (h : w.phase ≠ .running) : w.turn s now me = none := by
  simp [turn, h]

/-- Without a gate the first write in line is attempted at once. -/
theorem turn_ungated {w : LogWriter} {s : Store α} {now : Time} {x : LogWrite}
    {rest : List LogWrite} (me : α) (hgate : s.gate = none) (hphase : w.phase = .running)
    (hqueue : w.queue = x :: rest) (htimely : x.Timely now) :
    w.turn s now me = some (w.advance x rest, s.apply now x) := by
  simp [turn, hphase, hqueue, Store.acquire_ungated hgate, attempt_eq w s rest htimely]

theorem drained_advance {w : LogWriter} {x : LogWrite} {rest : List LogWrite}
    (h : w.queue = x :: rest) : (w.advance x rest).drained = w.drained := by
  cases x <;>
    simp [advance, drained, h, LogWrite.isAppend, LogWrite.ticket?, List.countP_cons,
      List.filterMap_cons, Nat.sub_sub, Nat.add_comm]

theorem drained_of_idle {w : LogWriter} (h : w.queue = []) : w.drained = w := by
  obtain ⟨capacity, queue, pending, phase, fed, passed⟩ := w
  simp only at h
  subst h
  rfl

theorem wait_of_idle {w : LogWriter} (h : w.queue = []) (s : Store α) (me : α) :
    w.wait s me = s := by
  simp [wait, h]

/-- Without a gate the writer attempts all that is in line, one write after the other. -/
theorem runFor_ungated {w : LogWriter} {s : Store α} {now : Time} {fuel : Nat} (me : α)
    (hgate : s.gate = none) (hphase : w.phase = .running) (hfed : w.fed = true)
    (htimely : ∀ x ∈ w.queue, x.Timely now) (hfuel : w.queue.length < fuel) :
    w.runFor s now me fuel = (w.drained, w.queue.foldl (fun s x => s.apply now x) s) := by
  induction fuel generalizing w s with
  | zero => simp at hfuel
  | succ fuel ih =>
      cases hqueue : w.queue with
      | nil =>
          rw [runFor, turn_eq_none_of_idle hqueue hfed]
          simp [drained_of_idle hqueue, wait_of_idle hqueue]
      | cons x rest =>
          -- a move for the first write, and the rest of the line is shorter by one
          rw [hqueue] at htimely hfuel
          have hturn := turn_ungated me hgate hphase hqueue (htimely x List.mem_cons_self)
          have hrest := ih (w := w.advance x rest) (s := s.apply now x) (by simp [hgate]) hphase
            hfed (fun y hy => htimely y (List.mem_cons_of_mem x hy))
            (Nat.lt_of_succ_lt_succ hfuel)
          rw [runFor, hturn]
          dsimp only
          rw [hrest, drained_advance hqueue]
          rfl

theorem run_ungated {w : LogWriter} {s : Store α} {now : Time} (me : α)
    (hgate : s.gate = none) (hphase : w.phase = .running) (hfed : w.fed = true)
    (htimely : ∀ x ∈ w.queue, x.Timely now) :
    w.run s now me = (w.drained, w.queue.foldl (fun s x => s.apply now x) s) :=
  runFor_ungated me hgate hphase hfed htimely (by omega)

omit [DecidableEq α] in
/-- What the writer attempts leaves the gate alone. -/
theorem gate_attempt (w : LogWriter) (s : Store α) (now : Time) (x : LogWrite)
    (rest : List LogWrite) : (w.attempt s now x rest).2.gate = s.gate := by
  cases x with
  | append key value ttl =>
      have hgate := s.gate_write now key value ttl
      simp only [attempt]
      rcases hwrite : s.write now key value ttl with ⟨_ | reason | _, s'⟩ <;>
        rwa [hwrite] at hgate
  | purge key => exact s.gate_call now _
  | flush ticket => rfl

/-- A store without gate gets none while the writer runs. -/
theorem gate_runFor {w : LogWriter} {s : Store α} (now : Time) (me : α) (hgate : s.gate = none)
    (fuel : Nat) : (w.runFor s now me fuel).2.gate = none := by
  induction fuel generalizing w s with
  | zero => exact hgate
  | succ fuel ih =>
      cases hturn : w.turn s now me with
      | none =>
          simp only [runFor, hturn, wait]
          split
          · split
            · rw [Store.acquire_ungated hgate]
              exact hgate
            · exact hgate
          · exact hgate
      | some moved =>
          obtain ⟨w', s'⟩ := moved
          simp only [runFor, hturn]
          refine ih ?_
          obtain ⟨-, ⟨-, -, -, rfl⟩ | ⟨x, rest, -, -, hattempt⟩⟩ := turn_cases hturn
          · exact hgate
          · have hkept := w.gate_attempt (if x.isAppend then (s.acquire me).2 else s) now x rest
            rw [← hattempt, Store.acquire_ungated hgate, ite_self] at hkept
            exact hkept.trans hgate

theorem gate_run {w : LogWriter} {s : Store α} (now : Time) (me : α) (hgate : s.gate = none) :
    (w.run s now me).2.gate = none :=
  gate_runFor now me hgate _

/-- With nothing in line the store is left alone, whether or not the writer ends. -/
theorem run_idle {w : LogWriter} (s : Store α) (now : Time) (me : α) (h : w.queue = []) :
    ∃ phase, w.run s now me = ({ w with phase }, s) := by
  have hrun : w.run s now me = w.runFor s now me 2 := by
    rw [run, h]
    rfl
  rw [hrun]
  cases hturn : w.turn s now me with
  | none =>
      refine ⟨w.phase, ?_⟩
      simp only [runFor, hturn, wait_of_idle h]
  | some p =>
      obtain ⟨w', s'⟩ := p
      obtain ⟨hphase, ⟨-, hfed, rfl, rfl⟩ | ⟨x, rest, hqueue, -⟩⟩ := turn_cases hturn
      · -- the writer ends with its first move and cannot make a second one
        refine ⟨.finished, ?_⟩
        rw [runFor, hturn]
        dsimp only
        rw [runFor, turn_of_not_running (by simp)]
        dsimp only
        rw [wait_of_idle (w := { w with phase := .finished }) h]
      · simp [h] at hqueue

end LogWriter

end ChatServer
