import ChatServer.Proofs.Log.Move

/-!
The writer makes the accepted writes one at a time in the order of their acceptance. At every moment
those made are the first ones of the line, the rest waits, and a barrier is passed when it is its
turn; so the line with its writer is the log to which the accepted writes are applied one after the
other, each at the moment of its attempt.
-/

namespace ChatServer

namespace LogWriter

/-- A write is accepted if there is a writer and, for an append, a place. -/
theorem push_isOk {w : LogWriter} {x : LogWrite} :
    (w.push x).1.isOk = true ↔
      w.accepting = true ∧ (x.isAppend = true → w.pending < w.capacity) := by
  unfold push
  by_cases hc : w.capacity ≤ w.pending
  · have hfull : ¬ w.pending < w.capacity := Nat.not_lt.2 hc
    cases hx : x.isAppend <;> cases ha : w.accepting <;>
      simp [hc, hfull, Except.isOk, Except.toBool]
  · have hplace : w.pending < w.capacity := Nat.not_le.1 hc
    cases hx : x.isAppend <;> cases ha : w.accepting <;>
      simp [hc, hplace, Except.isOk, Except.toBool]

/-- A write that is accepted takes its place at the end of the line. -/
theorem push_of_isOk {w : LogWriter} {x : LogWrite} (h : (w.push x).1.isOk = true) :
    (w.push x).2 = { w with
      queue := w.queue ++ [x]
      pending := if x.isAppend then w.pending + 1 else w.pending } := by
  obtain ⟨ha, hplace⟩ := push_isOk.1 h
  have hfull : (x.isAppend && decide (w.capacity ≤ w.pending)) = false := by
    cases hx : x.isAppend with
    | false => rfl
    | true => simpa using hplace hx
  simp [push, hfull, ha]

theorem push_of_not_isOk {w : LogWriter} {x : LogWrite} (h : (w.push x).1.isOk = false) :
    (w.push x).2 = w := by
  rcases w.push_cases x with ⟨hok, -⟩ | ⟨-, hsame⟩
  · rw [h] at hok
    exact absurd hok (by simp)
  · exact hsame

/-- A writer and what has been accepted and made so far. -/
structure Sequenced (w : LogWriter) (ticket : Nat) (line : List LogWrite) (made : List Attempt) :
    Prop where
  order : made.map Attempt.write <+: line
  /-- Unless the writer is gone, what has not been made is still in line. -/
  rest : w.phase ≠ .dead → w.phase ≠ .discarded → line = made.map Attempt.write ++ w.queue
  passed : w.passed = (made.filterMap fun a => a.write.ticket?).reverse
  /-- Every barrier has a ticket of its own. -/
  fresh : ∀ t, .flush t ∈ line → t < ticket
  died : w.phase = .dead → ∃ a ∈ made, ¬a.write.Timely a.now
  /-- The places that are taken, one of them by the append that ended the writer. -/
  places : w.pending =
    (line.drop made.length).countP LogWrite.isAppend + if w.phase = .dead then 1 else 0
  bound : w.pending ≤ w.capacity

variable {w : LogWriter} {ticket : Nat} {line : List LogWrite} {made : List Attempt}

theorem sequenced_new (capacity : Nat) : (LogWriter.new capacity).Sequenced 0 [] [] where
  order := List.prefix_rfl
  rest := fun _ _ => rfl
  passed := rfl
  fresh := fun _ h => absurd h List.not_mem_nil
  died := fun h => absurd h (by simp [LogWriter.new])
  places := rfl
  bound := Nat.zero_le _

/-- While writes are accepted what has not been made is in line. -/
theorem Sequenced.drop_eq (h : w.Sequenced ticket line made) (hd : w.phase ≠ .dead)
    (hg : w.phase ≠ .discarded) : line.drop made.length = w.queue := by
  rw [h.rest hd hg, ← List.length_map Attempt.write, List.drop_left]

theorem phase_of_accepting (h : w.accepting = true) : w.phase ≠ .dead ∧ w.phase ≠ .discarded := by
  unfold accepting at h
  cases hphase : w.phase <;> simp [hphase] at h ⊢

theorem Sequenced.of_ticket_le (h : w.Sequenced ticket line made) {ticket' : Nat}
    (ht : ticket ≤ ticket') : w.Sequenced ticket' line made :=
  { h with fresh := fun t hm => Nat.lt_of_lt_of_le (h.fresh t hm) ht }

/-- A write that is accepted is the last one of the line. -/
theorem Sequenced.push (h : w.Sequenced ticket line made) {x : LogWrite}
    (hok : (w.push x).1.isOk = true) {ticket' : Nat} (hle : ticket ≤ ticket')
    (hx : ∀ t, x = .flush t → t < ticket') :
    (w.push x).2.Sequenced ticket' (line ++ [x]) made := by
  obtain ⟨haccepting, hplace⟩ := push_isOk.1 hok
  obtain ⟨hd, hg⟩ := phase_of_accepting haccepting
  have hlength : made.length ≤ line.length := by
    simpa using h.order.length_le
  rw [push_of_isOk hok]
  refine ⟨h.order.trans (List.prefix_append _ _), fun _ _ => ?_, h.passed, fun t hm => ?_, h.died,
    ?_, ?_⟩
  · rw [h.rest hd hg, List.append_assoc]
  · rcases List.mem_append.1 hm with hm | hm
    · exact Nat.lt_of_lt_of_le (h.fresh t hm) hle
    · exact hx t (List.mem_singleton.1 hm).symm
  · have hplaces := h.places
    rw [List.drop_append_of_le_length hlength, List.countP_append]
    cases hx : x.isAppend with
    | true =>
        simp only [hx, if_true, List.countP_singleton]
        omega
    | false =>
        simp only [hx, Bool.false_eq_true, if_false, List.countP_singleton]
        omega
  · dsimp only
    split
    · exact hplace ‹_›
    · exact h.bound

/-- A writer that is given up before it was started leaves the line unmade. -/
theorem Sequenced.discard (h : w.Sequenced ticket line made) :
    w.discard.Sequenced ticket line made := by
  unfold LogWriter.discard
  split
  case isTrue hready =>
    have hplaces := h.places
    simp only [hready, reduceCtorEq, if_false] at hplaces
    exact ⟨h.order, fun _ hg => absurd rfl hg, h.passed, h.fresh, fun hd => absurd hd (by simp),
      hplaces, h.bound⟩
  case isFalse => exact h

theorem Sequenced.start (h : w.Sequenced ticket line made) :
    w.start.2.Sequenced ticket line made := by
  unfold LogWriter.start
  split
  case isTrue hready =>
    have hplaces := h.places
    simp only [hready, reduceCtorEq, if_false] at hplaces
    exact ⟨h.order, fun _ _ => h.rest (by simp [hready]) (by simp [hready]), h.passed, h.fresh,
      fun hd => absurd hd (by simp), hplaces, h.bound⟩
  case isFalse => exact h

theorem Sequenced.release (h : w.Sequenced ticket line made) :
    w.release.Sequenced ticket line made :=
  ⟨h.order, h.rest, h.passed, h.fresh, h.died, h.places, h.bound⟩

theorem Sequenced.finish (h : w.Sequenced ticket line made) (hphase : w.phase = .running) :
    ({ w with phase := .finished } : LogWriter).Sequenced ticket line made := by
  have hplaces := h.places
  simp only [hphase, reduceCtorEq, if_false] at hplaces
  exact ⟨h.order, fun _ _ => h.rest (by simp [hphase]) (by simp [hphase]), h.passed, h.fresh,
    fun hd => absurd hd (by simp), hplaces, h.bound⟩

/-- The attempt at the first write in line, whether or not the writer survives it. -/
theorem Sequenced.attempt {α : Type} (h : w.Sequenced ticket line made)
    (hphase : w.phase = .running) {x : LogWrite} {rest : List LogWrite}
    (hqueue : w.queue = x :: rest) (s : Store α) {a : Attempt} (hx : a.write = x) :
    (w.attempt s a.now x rest).1.Sequenced ticket line (made ++ [a]) := by
  have hline : line = (made ++ [a]).map Attempt.write ++ rest := by
    rw [h.rest (by simp [hphase]) (by simp [hphase]), hqueue]
    simp [hx]
  have horder : (made ++ [a]).map Attempt.write <+: line := by
    rw [hline]
    exact List.prefix_append _ _
  have hdrop : line.drop (made ++ [a]).length = rest := by
    rw [hline, ← List.length_map Attempt.write, List.drop_left]
  have hplaces : w.pending = rest.countP LogWrite.isAppend + if x.isAppend then 1 else 0 := by
    rw [h.places, h.drop_eq (by simp [hphase]) (by simp [hphase]), hqueue, List.countP_cons]
    simp [hphase]
  obtain ⟨-, hadvance | ⟨happend, htimely, hdead⟩⟩ := w.attempt_cases s a.now x rest
  · rw [hadvance]
    refine ⟨horder, fun _ _ => hline, ?_, h.fresh, fun hd => ?_, ?_, ?_⟩
    · cases x <;> simp [advance, h.passed, hx, LogWrite.ticket?, List.filterMap_append]
    · exact absurd hd (by simp [advance, hphase])
    · rw [hdrop]
      simp only [advance, hphase, reduceCtorEq, if_false]
      split <;> simp_all
    · refine Nat.le_trans ?_ h.bound
      simp only [advance]
      split <;> omega
  · -- the append that ends the writer keeps its place, and so do those behind it
    rw [hdead]
    refine ⟨horder, fun hd _ => absurd rfl hd, ?_, h.fresh, fun _ => ⟨a, by simp, by rwa [hx]⟩, ?_,
      h.bound⟩
    · have hnone : a.write.ticket? = none := by
        rw [hx]
        cases x <;> simp_all [LogWrite.isAppend, LogWrite.ticket?]
      simp [h.passed, List.filterMap_append, hnone]
    · rw [hdrop, hplaces]
      simp [happend]

/-- Whether a barrier has been passed. -/
theorem Sequenced.mem_passed (h : w.Sequenced ticket line made) (t : Nat) :
    t ∈ w.passed ↔ .flush t ∈ made.map Attempt.write := by
  rw [h.passed]
  simp only [List.mem_reverse, List.mem_filterMap, List.mem_map]
  refine exists_congr fun a => and_congr_right fun _ => ?_
  cases a.write <;> simp [LogWrite.ticket?]

/-- A barrier is passed after all that was accepted before it, and before all that was accepted
after it. -/
theorem Sequenced.barrier (h : w.Sequenced ticket line made) {before after : List LogWrite}
    {t : Nat} (hline : line = before ++ .flush t :: after) (hfresh : .flush t ∉ before) :
    (w.flushState t = .done ∧ before ++ [.flush t] <+: made.map Attempt.write) ∨
      (w.flushState t ≠ .done ∧ made.map Attempt.write <+: before) := by
  have hdone : w.flushState t = .done ↔ .flush t ∈ made.map Attempt.write := by
    rw [← h.mem_passed, flushState]
    split
    · simp [*]
    · split <;> simp [*]
  have hbarrier : before ++ [.flush t] <+: line := by
    rw [hline]
    exact ⟨after, by simp⟩
  rcases List.prefix_or_prefix_of_prefix h.order hbarrier with hmade | hmade
  · rcases List.prefix_concat_iff.1 hmade with heq | hmade
    · exact .inl ⟨hdone.2 (by simp [heq]), heq ▸ List.prefix_rfl⟩
    · exact .inr ⟨fun hd => hfresh (hmade.subset (hdone.1 hd)), hmade⟩
  · exact .inl ⟨hdone.2 (hmade.subset (by simp)), hmade⟩

end LogWriter

namespace Journal

variable {α : Type} [DecidableEq α] {me : α} {j : Journal α} {line : List LogWrite}
  {made : List Attempt}

/-- A move that hands a write over does nothing else, and its barrier is a new one. -/
theorem go_of_offered {mv : Move α} {x : LogWrite} (hx : j.offered? mv = some x) (me : α) :
    (j.go me mv).writer = (j.writer.push x).2 ∧
      j.ticket ≤ (j.go me mv).ticket ∧ (∀ t, x = .flush t → t < (j.go me mv).ticket) ∧
      (j.go me mv).store = j.store ∧ (j.go me mv).now = j.now ∧ j.madeIn me mv = [] := by
  cases mv <;> simp [offered?] at hx <;> subst hx <;> simp [go, push, pushFlush, madeIn]

/-- One move: what is accepted joins the line, and what is attempted is the next in order. -/
theorem sequenced_go (h : j.writer.Sequenced j.ticket line made) (me : α) (mv : Move α) :
    (j.go me mv).writer.Sequenced (j.go me mv).ticket (line ++ j.accepted mv)
      (made ++ j.madeIn me mv) := by
  cases hoffered : j.offered? mv with
  | some x =>
      obtain ⟨hwriter, hticket, hfresh, -, -, hmade⟩ := go_of_offered hoffered me
      rw [hwriter, hmade, List.append_nil, accepted, hoffered]
      cases hok : (j.writer.push x).1.isOk with
      | true =>
          simp only [Option.filter, hok, if_true, Option.toList]
          exact h.push hok hticket hfresh
      | false =>
          simp only [Option.filter, hok, Bool.false_eq_true, if_false, Option.toList,
            List.append_nil, LogWriter.push_of_not_isOk hok]
          exact h.of_ticket_le hticket
  | none =>
      have haccepted : j.accepted mv = [] := by simp [accepted, hoffered]
      rw [haccepted, List.append_nil]
      cases mv with
      | append key value ttl | purge key | flush => simp [offered?] at hoffered
      | turn =>
          rcases j.go_turn me with ⟨hgo, hmade⟩ | ⟨hphase, -, hmade, hgo⟩ |
            ⟨x, rest, gate, hphase, hqueue, hmade, hgo⟩
          · rw [hgo, hmade, List.append_nil]
            exact h
          · rw [hgo, hmade, List.append_nil]
            exact h.finish hphase
          · rw [hgo, hmade]
            exact h.attempt hphase hqueue _ (a := j.attempt x) rfl
      | start => simpa [madeIn, go] using h.start
      | discard => simpa [madeIn, go] using h.discard
      | release => simpa [madeIn, go] using h.release
      | _ => simpa [madeIn, go, Journal.advance] using h

/-- With leave to push a writer that runs attempts the first write in line. -/
theorem madeIn_turn (hphase : j.writer.phase = .running) {x : LogWrite} {rest : List LogWrite}
    (hqueue : j.writer.queue = x :: rest)
    (hleave : x.isAppend = true → (j.store.acquire me).1 = true) :
    j.madeIn me .turn = [j.attempt x] := by
  have hturn : (j.writer.turn j.store j.now me).isSome = true := by
    unfold LogWriter.turn
    simp only [hphase, hqueue, ne_eq, not_true_eq_false, if_false]
    cases hx : x.isAppend with
    | false => rfl
    | true =>
        have hgranted := hleave hx
        rcases hacquire : j.store.acquire me with ⟨granted, s⟩
        rw [hacquire] at hgranted
        dsimp only at hgranted
        subst hgranted
        rfl
  simp [madeIn, hturn, hqueue]

/-- A run, by induction on its moves. -/
theorem sequenced_goes (h : j.writer.Sequenced j.ticket line made) (me : α)
    (mvs : List (Move α)) :
    (j.goes me mvs).writer.Sequenced (j.goes me mvs).ticket (line ++ j.line me mvs)
      (made ++ j.made me mvs) := by
  induction mvs generalizing j line made with
  | nil => simpa [Journal.line, Journal.made, along] using h
  | cons mv mvs ih =>
      have hrest := ih (sequenced_go h me mv)
      rw [List.append_assoc, List.append_assoc] at hrest
      exact hrest

theorem sequenced_new (store : Store α) (capacity : Nat) (me : α) (mvs : List (Move α)) :
    ((Journal.new store capacity).goes me mvs).writer.Sequenced
      ((Journal.new store capacity).goes me mvs).ticket
      ((Journal.new store capacity).line me mvs) ((Journal.new store capacity).made me mvs) :=
  sequenced_goes (j := Journal.new store capacity) (LogWriter.sequenced_new capacity) me mvs

/-! ### Refused writes -/

/-- Once no writes are accepted, nothing changes about the writer but whether it is fed. -/
theorem writer_go_of_stopped (h : j.writer.accepting = false) (me : α) (mv : Move α) :
    ∃ fed, (j.go me mv).writer = { j.writer with fed } := by
  have hphase : j.writer.phase ≠ .ready ∧ j.writer.phase ≠ .running := by
    simpa [LogWriter.accepting] using h
  cases hoffered : j.offered? mv with
  | some x =>
      have hok : (j.writer.push x).1.isOk = false := by
        rw [Bool.eq_false_iff, Ne, LogWriter.push_isOk, h]
        simp
      obtain ⟨hwriter, -⟩ := go_of_offered hoffered me
      exact ⟨j.writer.fed, hwriter.trans (LogWriter.push_of_not_isOk hok)⟩
  | none =>
      cases mv with
      | append key value ttl | purge key | flush => simp [offered?] at hoffered
      | start => exact ⟨j.writer.fed, by simp [go, LogWriter.start, hphase.1]⟩
      | discard => exact ⟨j.writer.fed, by simp [go, LogWriter.discard, hphase.1]⟩
      | release => exact ⟨false, rfl⟩
      | turn => exact ⟨j.writer.fed, by simp [go, LogWriter.turn_of_not_running hphase.2]⟩
      | _ => exact ⟨j.writer.fed, rfl⟩

theorem accepting_go_of_stopped (h : j.writer.accepting = false) (me : α) (mv : Move α) :
    (j.go me mv).writer.accepting = false := by
  obtain ⟨fed, hwriter⟩ := writer_go_of_stopped h me mv
  rw [hwriter]
  exact h

/-- A move that is refused uses up a ticket at most, and that only where no barrier is accepted any
more. -/
theorem go_of_refuses {mv : Move α} (h : j.refuses mv = true) (me : α) :
    (∃ ticket, j.go me mv = { j with ticket }) ∧ j.accepted mv = [] ∧ j.madeIn me mv = [] ∧
      ((j.go me mv).ticket = j.ticket ∨ j.writer.accepting = false) := by
  cases hoffered : j.offered? mv with
  | none => simp [refuses, hoffered] at h
  | some x =>
      have hok : (j.writer.push x).1.isOk = false := by simpa [refuses, hoffered] using h
      have hsame := LogWriter.push_of_not_isOk hok
      have haccepted : j.accepted mv = [] := by simp [accepted, hoffered, hok]
      obtain ⟨-, -, -, -, -, hmade⟩ := go_of_offered hoffered me
      cases mv <;> simp only [offered?, Option.some.injEq, reduceCtorEq] at hoffered <;>
        subst hoffered
      case append key value ttl =>
        exact ⟨⟨j.ticket, by simp [go, push, hsame]⟩, haccepted, hmade, .inl rfl⟩
      case purge key => exact ⟨⟨j.ticket, by simp [go, push, hsame]⟩, haccepted, hmade, .inl rfl⟩
      case flush =>
        refine ⟨⟨j.ticket + 1, by simp [go, pushFlush, hsame]⟩, haccepted, hmade, .inr ?_⟩
        rw [Bool.eq_false_iff, Ne, LogWriter.push_isOk] at hok
        simpa [LogWrite.isAppend] using hok

/-- Tickets matter only to barriers that are accepted. -/
theorem go_withTicket {ticket : Nat} (ht : ticket = j.ticket ∨ j.writer.accepting = false) (me : α)
    {mv : Move α} (hmv : j.refuses mv = false) :
    (∃ ticket', ({ j with ticket } : Journal α).go me mv = { j.go me mv with ticket := ticket' } ∧
        (ticket' = (j.go me mv).ticket ∨ (j.go me mv).writer.accepting = false)) ∧
      ({ j with ticket } : Journal α).accepted mv = j.accepted mv ∧
      ({ j with ticket } : Journal α).madeIn me mv = j.madeIn me mv := by
  rcases ht with rfl | hstopped
  · exact ⟨⟨_, rfl, .inl rfl⟩, rfl, rfl⟩
  · have hafter := accepting_go_of_stopped hstopped me mv
    cases mv with
    | flush =>
        have hok : ¬(j.writer.push (.flush j.ticket)).1.isOk = true := by
          rw [LogWriter.push_isOk, hstopped]
          simp
        simp [refuses, offered?, hok] at hmv
    | turn =>
        refine ⟨⟨ticket, ?_, .inr hafter⟩, rfl, rfl⟩
        simp only [go]
        split <;> rfl
    | _ => exact ⟨⟨ticket, rfl, .inr hafter⟩, rfl, rfl⟩

/-- A run without the moves that are refused comes to the same. -/
theorem goes_heeded (me : α) (j : Journal α) {ticket : Nat}
    (ht : ticket = j.ticket ∨ j.writer.accepting = false) (mvs : List (Move α)) :
    (∃ ticket', ({ j with ticket } : Journal α).goes me (j.heeded me mvs) =
        { j.goes me mvs with ticket := ticket' }) ∧
      ({ j with ticket } : Journal α).line me (j.heeded me mvs) = j.line me mvs ∧
      ({ j with ticket } : Journal α).made me (j.heeded me mvs) = j.made me mvs := by
  induction mvs generalizing j ticket with
  | nil => exact ⟨⟨ticket, rfl⟩, rfl, rfl⟩
  | cons mv mvs ih =>
      cases hmv : j.refuses mv with
      | true =>
          obtain ⟨⟨t, hgo⟩, haccepted, hmade, hticket⟩ := go_of_refuses hmv me
          have hsame : ({ j with ticket } : Journal α) = { j.go me mv with ticket } := by rw [hgo]
          have hnext : ticket = (j.go me mv).ticket ∨ (j.go me mv).writer.accepting = false := by
            rw [hgo] at hticket ⊢
            rcases ht with rfl | hstopped
            · exact hticket.imp Eq.symm id
            · exact .inr hstopped
          obtain ⟨hgoes, hline, hmades⟩ := ih (j.go me mv) hnext
          simp only [heeded, line, made] at hgoes hline hmades ⊢
          simp only [along, hmv, if_true, List.nil_append, haccepted, hmade, hsame, goes_cons]
          exact ⟨hgoes, hline, hmades⟩
      | false =>
          obtain ⟨⟨t, hgo, hnext⟩, haccepted, hmade⟩ := go_withTicket ht me hmv
          obtain ⟨hgoes, hline, hmades⟩ := ih (j.go me mv) hnext
          simp only [heeded, line, made] at hgoes hline hmades ⊢
          simp only [along, hmv, Bool.false_eq_true, if_false, List.singleton_append, goes_cons,
            hgo, haccepted, hmade, hline, hmades]
          exact ⟨hgoes, trivial, trivial⟩

/-! ### The law -/

/-- The line with its writer is a log to which the accepted writes are applied one after the other.
Whatever the capacity, and however handing over, moves of the writer, permits, time and outages
interleave: those made are the first ones accepted, and the log is what they make of it, each at
the moment and with the outages of its attempt. A failing call does not stop the writer, and with
leave to push it always attempts the next write. Moves that were refused leave no trace. A barrier
is passed after all that was accepted before it, and before all that was accepted after it. -/
theorem writes_in_order (store : Store α) (capacity : Nat) (me : α) {mvs : List (Move α)}
    (hmvs : ∀ mv ∈ mvs, mv.isOwn = true) :
    let start := Journal.new store capacity
    let j := start.goes me mvs
    let line := start.line me mvs
    let made := start.made me mvs
    made.map Attempt.write <+: line ∧
      j.store.log = made.foldl Attempt.perform store.log ∧
      ((∀ a ∈ made, a.write.Timely a.now) → j.writer.phase ≠ .dead ∧
        (j.writer.phase ≠ .discarded → line = made.map Attempt.write ++ j.writer.queue)) ∧
      (∀ x rest, j.writer.phase = .running → j.writer.queue = x :: rest →
        (x.isAppend = true → (j.store.acquire me).1 = true) →
          j.madeIn me .turn = [j.attempt x]) ∧
      ((∃ ticket, start.goes me (start.heeded me mvs) = { j with ticket }) ∧
        start.line me (start.heeded me mvs) = line ∧
        start.made me (start.heeded me mvs) = made) ∧
      ∀ before after, mvs = before ++ .flush :: after →
        let earlier := start.goes me before
        earlier.refuses .flush = false →
          (j.writer.flushState earlier.ticket = .done ∧
              start.line me before ++ [.flush earlier.ticket] <+: made.map Attempt.write) ∨
            (j.writer.flushState earlier.ticket ≠ .done ∧
              made.map Attempt.write <+: start.line me before) := by
  intro start j line made
  have hsequenced := sequenced_new store capacity me mvs
  refine ⟨hsequenced.order, log_goes me start hmvs, fun htimely => ?_, ?_,
    goes_heeded me start (.inl rfl) mvs, ?_⟩
  · have halive : j.writer.phase ≠ .dead := by
      intro hdead
      obtain ⟨a, ha, hlate⟩ := hsequenced.died hdead
      exact hlate (htimely a ha)
    exact ⟨halive, hsequenced.rest halive⟩
  · exact fun x rest hphase hqueue hleave => madeIn_turn hphase hqueue hleave
  · intro before after hsplit earlier haccepted
    have hbefore := sequenced_new store capacity me before
    have hline : line =
        start.line me before ++ .flush earlier.ticket :: (earlier.go me .flush).line me after := by
      have haccept : earlier.accepted .flush = [.flush earlier.ticket] := by
        have hok : (earlier.writer.push (.flush earlier.ticket)).1.isOk = true := by
          simpa [refuses, offered?] using haccepted
        simp [accepted, offered?, hok]
      have hsplit' : line = along me Journal.accepted start (before ++ .flush :: after) := by
        rw [← hsplit]
        rfl
      rw [hsplit', along_append, along, haccept]
      rfl
    exact hsequenced.barrier hline fun hmem =>
      absurd (hbefore.fresh _ hmem) (Nat.lt_irrefl _)

/-- Behind an append that waits for leave another one is refused and a barrier accepted. By the time
leave comes deadlines cannot be set; once they can, a purge is accepted and the barrier passed. -/
def interrupted : List (Move Unit) :=
  [.append "k" "a" 60, .append "k" "b" 60, .flush, .start, .turn, .wait,
    .outages ⟨none, none, some "down", none, none⟩, .gate (some ⟨1, [()]⟩), .turn,
    .outages Outages.none, .advance 5, .purge "k", .turn]

theorem writes_in_order_interrupted :
    (∀ mv ∈ interrupted, mv.isOwn = true) ∧
      let start := Journal.new (Store.new Outages.none true) 1
      let j := start.goes () interrupted
      let made := start.made () interrupted
      j.store.log = made.foldl Attempt.perform ExpiringLog.empty ∧
        j.store.log.entries.entries = [("k", ⟨["a"], none⟩)] ∧
        made.map Attempt.write = [.append "k" "a" 60, .flush 0] ∧
        j.writer.queue = [.purge "k"] ∧ j.writer.flushState 0 = .done ∧
        [.append "k" "a" 60, .flush 0] <+: made.map Attempt.write := by
  have hmvs : ∀ mv ∈ interrupted, mv.isOwn = true := by decide
  obtain ⟨-, hlog, -, -, -, hbarrier⟩ :=
    writes_in_order (Store.new Outages.none true) 1 () hmvs
  have hpassed := hbarrier [.append "k" "a" 60, .append "k" "b" 60] _ rfl rfl
  rcases hpassed with ⟨hdone, hmade⟩ | ⟨hnot, -⟩
  · exact ⟨hmvs, hlog, rfl, rfl, rfl, hdone, hmade⟩
  · exact absurd rfl hnot

end Journal

end ChatServer
