import ChatServer.Proofs.Log.Sequence

/-!
How a writer ends, however its store fails and whoever else asks for permits. An attempt is fatal if
the value has been appended and the clock cannot show the deadline that would have to be set; calls
that fail before that are not. A writer is dead just if it has made a fatal attempt, and a barrier
is dropped just if the writer is dead and has not passed it.
-/

namespace ChatServer

/-- Whether an attempt ends the writer that makes it. -/
def Attempt.isFatal (a : Attempt) : Bool :=
  match a.write with
  | .append _ _ ttl =>
    a.outages.push.isNone && a.outages.expire.isNone && decide (Time.limit ≤ a.now + ttl)
  | _ => false

/-- An attempt is fatal only if the clock gives out. -/
theorem Attempt.isFatal_of_timely {a : Attempt} (h : a.write.Timely a.now) : a.isFatal = false := by
  obtain ⟨now, outages, x⟩ := a
  cases x with
  | append key value ttl =>
      have hlate : ¬ Time.limit ≤ now + ttl := Nat.not_le.2 h
      simp [isFatal, hlate]
  | purge key => rfl
  | flush ticket => rfl

namespace Store

variable {α : Type}

/-- A deadline is worked out only for a key that is there. -/
theorem call_expire_eq_overflow (s : Store α) (now : Time) (key : String) (ttl : Duration) :
    (s.call now (.expire key ttl)).1 = .overflow ↔
      s.outages.expire = none ∧ (s.log.live? now key).isSome = true ∧ Time.limit ≤ now + ttl := by
  rw [← ExpiringLog.expire?_eq_none]
  unfold call
  cases hexpire : s.outages.expire with
  | some reason => simp [Outages.reason, hexpire]
  | none =>
      simp only [Outages.reason, hexpire, ExpiringLog.call]
      cases s.log.expire? now key ttl <;> simp

/-- The clock gives out when the deadline of an appended value is to be set. -/
theorem write_eq_overflow (s : Store α) (now : Time) (key value : String) (ttl : Duration) :
    (s.write now key value ttl).1 = .overflow ↔
      s.outages.push = none ∧ s.outages.expire = none ∧ Time.limit ≤ now + ttl := by
  rw [write_eq]
  cases hpush : s.outages.push with
  | some reason => simp [call, Outages.reason, hpush]
  | none =>
      have hdone : (s.call now (.push key value)).1 = .answered .done := by
        simp [call, Outages.reason, hpush, ExpiringLog.call]
      have hlog : (s.call now (.push key value)).2.log = s.log.push now key value := by
        simp [log_call, Outages.reason, hpush, ExpiringLog.call]
      rw [if_pos hdone, call_expire_eq_overflow, outages_call, hlog]
      simp

end Store

namespace LogWriter

variable {α : Type}

/-- A writer that has been started: it runs, or it has ended and left nothing in line. -/
def Started (w : LogWriter) : Prop :=
  w.phase = .running ∨ w.queue = [] ∧ (w.phase = .dead ∨ w.phase = .finished ∧ w.fed = false)

/-- It need not be started and can no longer be given up. -/
theorem Started.phase_ne {w : LogWriter} (h : w.Started) :
    w.phase ≠ .ready ∧ w.phase ≠ .discarded := by
  rcases h with hphase | ⟨-, hphase | ⟨hphase, -⟩⟩ <;> simp [hphase]

/-- A fatal attempt ends the writer, and after any other one it goes on. -/
theorem attempt_fst (w : LogWriter) (s : Store α) (now : Time) (x : LogWrite)
    (rest : List LogWrite) : (w.attempt s now x rest).1 =
      if Attempt.isFatal ⟨now, s.outages, x⟩ then { w with queue := [], phase := .dead }
      else w.advance x rest := by
  cases x with
  | append key value ttl =>
      have hoverflow := s.write_eq_overflow now key value ttl
      have hfatal : Attempt.isFatal ⟨now, s.outages, .append key value ttl⟩ =
          decide ((s.write now key value ttl).1 = .overflow) := by
        rw [Bool.eq_iff_iff, decide_eq_true_iff, hoverflow]
        simp [Attempt.isFatal, and_assoc]
      rw [hfatal, attempt]
      rcases hwrite : s.write now key value ttl with ⟨a | reason | _, s'⟩ <;>
        simp [advance, LogWrite.isAppend, LogWrite.ticket?]
  | purge key => rfl
  | flush ticket => rfl

theorem Started.running_of_accepting {w : LogWriter} (h : w.Started) (ha : w.accepting = true) :
    w.phase = .running := by
  rcases h with hphase | ⟨-, hdead | ⟨hfinished, -⟩⟩
  · exact hphase
  · simp [accepting, hdead] at ha
  · simp [accepting, hfinished] at ha

/-- Only a writer that runs accepts anything. -/
theorem Started.push {w : LogWriter} (h : w.Started) (x : LogWrite) : (w.push x).2.Started := by
  rcases w.push_cases x with ⟨hok, pending, hpush⟩ | ⟨-, hpush⟩
  · rw [hpush]
    exact .inl (h.running_of_accepting (push_isOk.1 hok).1)
  · rw [hpush]
    exact h

theorem Started.release {w : LogWriter} (h : w.Started) : w.release.Started := by
  rcases h with hphase | ⟨hqueue, hdead | ⟨hfinished, -⟩⟩
  · exact .inl hphase
  · exact .inr ⟨hqueue, .inl hdead⟩
  · exact .inr ⟨hqueue, .inr ⟨hfinished, rfl⟩⟩

theorem flushState_eq_done {w : LogWriter} {ticket : Nat} :
    w.flushState ticket = .done ↔ ticket ∈ w.passed := by
  unfold flushState
  split
  · simpa
  · split <;> simpa

theorem flushState_eq_dropped {w : LogWriter} {ticket : Nat} :
    w.flushState ticket = .dropped ↔
      ticket ∉ w.passed ∧ LogWrite.flush ticket ∉ w.queue := by
  unfold flushState
  split
  · simp [*]
  · split <;> simp [*]

end LogWriter

namespace Journal

variable {α : Type} [DecidableEq α] {me : α} {j : Journal α}

/-- A writer that has been started is neither started again nor given up, and it ends when nothing
is left and nothing can come, or by a fatal attempt. -/
theorem started_go (h : j.writer.Started) (me : α) (mv : Move α) :
    (j.go me mv).writer.Started := by
  obtain ⟨hready, -⟩ := h.phase_ne
  cases hoffered : j.offered? mv with
  | some x =>
      rw [(go_of_offered hoffered me).1]
      exact h.push x
  | none =>
      cases mv with
      | append key value ttl | purge key | flush => simp [offered?] at hoffered
      | release => exact h.release
      | start =>
          simp only [go, LogWriter.start, if_neg hready]
          exact h
      | discard =>
          simp only [go, LogWriter.discard, if_neg hready]
          exact h
      | turn =>
          rcases j.go_turn me with ⟨hgo, -⟩ | ⟨-, hqueue, -, hgo⟩ |
            ⟨x, rest, gate, hphase, -, -, hgo⟩
          · rw [hgo]
            exact h
          · cases hfed : j.writer.fed with
            | true =>
                rw [go, LogWriter.turn_eq_none_of_idle hqueue hfed]
                exact h
            | false =>
                rw [hgo]
                exact .inr ⟨hqueue, .inr ⟨rfl, hfed⟩⟩
          · rw [hgo, LogWriter.attempt_fst]
            split
            · exact .inr ⟨rfl, .inl rfl⟩
            · exact .inl hphase
      | _ => exact h

theorem started_goes (h : j.writer.Started) (me : α) (mvs : List (Move α)) :
    (j.goes me mvs).writer.Started := by
  induction mvs generalizing j with
  | nil => exact h
  | cons mv mvs ih => exact ih (started_go h me mv)

/-- A move leaves the writer dead just if it was dead before or makes a fatal attempt. -/
theorem dead_go (me : α) (j : Journal α) (mv : Move α) : (j.go me mv).writer.phase = .dead ↔
    j.writer.phase = .dead ∨ ∃ a ∈ j.madeIn me mv, a.isFatal = true := by
  cases hoffered : j.offered? mv with
  | some x =>
      obtain ⟨hwriter, -, -, -, -, hmade⟩ := go_of_offered hoffered me
      rw [hwriter, hmade]
      rcases j.writer.push_cases x with ⟨-, pending, hpush⟩ | ⟨-, hpush⟩ <;> simp [hpush]
  | none =>
      cases mv with
      | append key value ttl | purge key | flush => simp [offered?] at hoffered
      | start =>
          simp only [go, LogWriter.start, madeIn]
          split <;> simp [*]
      | discard =>
          simp only [go, LogWriter.discard, madeIn]
          split <;> simp [*]
      | turn =>
          rcases j.go_turn me with ⟨hgo, hmade⟩ | ⟨hphase, -, hmade, hgo⟩ |
            ⟨x, rest, gate, hphase, -, hmade, hgo⟩
          · simp [hgo, hmade]
          · simp [hgo, hmade, hphase]
          · rw [hgo, hmade, LogWriter.attempt_fst]
            simp only [attempt, hphase, List.mem_singleton, exists_eq_left, reduceCtorEq, false_or]
            split <;> simp [*, LogWriter.advance]
      | _ => simp [go, madeIn, LogWriter.release, advance]

/-- A run, by induction on its moves. -/
theorem dead_goes_iff (me : α) (j : Journal α) (mvs : List (Move α)) :
    (j.goes me mvs).writer.phase = .dead ↔
      j.writer.phase = .dead ∨ ∃ a ∈ j.made me mvs, a.isFatal = true := by
  induction mvs generalizing j with
  | nil => simp [made, along]
  | cons mv mvs ih =>
      have hmade : j.made me (mv :: mvs) = j.madeIn me mv ++ (j.go me mv).made me mvs := rfl
      rw [goes_cons, ih, dead_go, hmade, or_assoc]
      simp only [List.mem_append, or_and_right, exists_or]

/-- What becomes of a barrier that is handed over: it is passed when it is its turn, and dropped
just if the writer dies before that. -/
theorem flushState_iff (me : α) {line : List LogWrite} {made : List Attempt}
    (h : j.writer.Started)
    (hs : j.writer.Sequenced j.ticket line made) (hfed : j.writer.fed = true)
    (mvs : List (Move α)) :
    let later := j.goes me (.flush :: mvs)
    let all := made ++ j.made me (.flush :: mvs)
    (later.writer.flushState j.ticket = .done ↔ .flush j.ticket ∈ all.map Attempt.write) ∧
      (later.writer.flushState j.ticket = .dropped ↔
        later.writer.phase = .dead ∧ .flush j.ticket ∉ all.map Attempt.write) := by
  intro later all
  have hsequenced : later.writer.Sequenced later.ticket _ all :=
    sequenced_goes hs me (.flush :: mvs)
  have hpassed := hsequenced.mem_passed j.ticket
  have hstarted : later.writer.Started := started_goes h me (.flush :: mvs)
  refine ⟨by rw [LogWriter.flushState_eq_done, hpassed], ?_⟩
  rw [LogWriter.flushState_eq_dropped, ← hpassed, and_comm, and_congr_left_iff]
  intro hin
  constructor
  · -- a writer that lives would have the barrier in line, or would have passed it
    intro hqueue
    refine Decidable.byContradiction fun hdead => ?_
    have hrunning : j.writer.phase = .running := by
      rcases h with hphase | ⟨-, hphase | ⟨-, hunfed⟩⟩
      · exact hphase
      · exact absurd ((dead_goes_iff me j (.flush :: mvs)).2 (.inl hphase)) hdead
      · simp [hfed] at hunfed
    have haccepted : j.accepted .flush = [.flush j.ticket] := by
      have hok : (j.writer.push (.flush j.ticket)).1.isOk = true :=
        LogWriter.push_isOk_of_running hrunning rfl
      simp [accepted, offered?, hok]
    have hmem : .flush j.ticket ∈ line ++ j.line me (.flush :: mvs) := by
      refine List.mem_append_right _ (List.mem_append_left _ ?_)
      rw [haccepted]
      exact List.mem_singleton.2 rfl
    rw [hsequenced.rest hdead hstarted.phase_ne.2] at hmem
    exact (List.mem_append.1 hmem).elim (fun hmade => hin (hpassed.2 hmade)) hqueue
  · intro hdead
    rcases hstarted with hphase | ⟨hqueue, -⟩
    · simp [hdead] at hphase
    · simp [hqueue]

end Journal

end ChatServer
