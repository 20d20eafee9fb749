import ChatServer.Proofs.Log.Sequence

/-!
What a writer that has stopped answers. The appends that it left unmade keep their places for good,
and an append is told of places before it is told of the writer. So a stopped writer is reported as
a full line, to appends only, just if what it left takes up all the places.
-/

namespace ChatServer.Journal

variable {α : Type} [DecidableEq α] {j : Journal α}

/-- No move changes the capacity of the writer, and whoever does not let go of it leaves it fed. -/
theorem writer_go_keeps (me : α) (j : Journal α) (mv : Move α) :
    (j.go me mv).writer.capacity = j.writer.capacity ∧
      (mv ≠ .release → (j.go me mv).writer.fed = j.writer.fed) := by
  cases hoffered : j.offered? mv with
  | some x =>
      obtain ⟨hwriter, -⟩ := go_of_offered hoffered me
      rw [hwriter]
      rcases LogWriter.push_cases j.writer x with ⟨-, pending, hpush⟩ | ⟨-, hpush⟩ <;>
        rw [hpush] <;> exact ⟨rfl, fun _ => rfl⟩
  | none =>
      cases mv with
      | append key value ttl | purge key | flush => simp [offered?] at hoffered
      | release => exact ⟨rfl, fun hne => absurd rfl hne⟩
      | start =>
          simp only [go, LogWriter.start]
          split <;> exact ⟨rfl, fun _ => rfl⟩
      | discard =>
          simp only [go, LogWriter.discard]
          split <;> exact ⟨rfl, fun _ => rfl⟩
      | turn =>
          rcases j.go_turn me with ⟨hgo, -⟩ | ⟨-, -, -, hgo⟩ | ⟨x, rest, gate, -, -, -, hgo⟩
          · rw [hgo]
            exact ⟨rfl, fun _ => rfl⟩
          · rw [hgo]
            exact ⟨rfl, fun _ => rfl⟩
          · obtain ⟨-, hadvance | ⟨-, -, hdead⟩⟩ :=
              j.writer.attempt_cases { j.store with gate } j.now x rest
            · rw [hgo, hadvance]
              exact ⟨rfl, fun _ => rfl⟩
            · rw [hgo, hdead]
              exact ⟨rfl, fun _ => rfl⟩
      | _ => exact ⟨rfl, fun _ => rfl⟩

theorem capacity_goes (me : α) (j : Journal α) (mvs : List (Move α)) :
    (j.goes me mvs).writer.capacity = j.writer.capacity := by
  induction mvs generalizing j with
  | nil => rfl
  | cons mv mvs ih => rw [goes_cons, ih, (writer_go_keeps me j mv).1]

/-- Whoever does not let go of the writer leaves it fed. -/
theorem fed_goes {me : α} {mvs : List (Move α)} (hmvs : ∀ mv ∈ mvs, mv ≠ .release) :
    (j.goes me mvs).writer.fed = j.writer.fed := by
  induction mvs generalizing j with
  | nil => rfl
  | cons mv mvs ih =>
      rw [goes_cons, ih fun mv' hmv' => hmvs mv' (List.mem_cons_of_mem mv hmv')]
      exact (writer_go_keeps me j mv).2 (hmvs mv List.mem_cons_self)

/-- A writer that has stopped remains as it is. -/
theorem writer_goes_of_stopped (h : j.writer.accepting = false) (me : α) (mvs : List (Move α)) :
    ∃ fed, (j.goes me mvs).writer = { j.writer with fed } := by
  induction mvs generalizing j with
  | nil => exact ⟨j.writer.fed, rfl⟩
  | cons mv mvs ih =>
      obtain ⟨fed, hwriter⟩ := writer_go_of_stopped h me mv
      obtain ⟨fed', hrest⟩ := ih (accepting_go_of_stopped h me mv)
      exact ⟨fed', by rw [goes_cons, hrest, hwriter]⟩

/-- However it came about that a writer has stopped, and whatever happens afterwards: it takes
nothing more, no place becomes free, and what is handed over is refused because the writer is gone,
save that an append is refused for want of a place if all are taken. Those taken are the places of
the appends accepted and not attempted, and that of the append that ended the writer, if one did. -/
theorem push_of_stopped (store : Store α) (capacity : Nat) (me : α) {mvs : List (Move α)}
    (hstopped : ((Journal.new store capacity).goes me mvs).writer.accepting = false)
    (later : List (Move α)) (x : LogWrite) :
    let start := Journal.new store capacity
    let j := start.goes me mvs
    let k := j.goes me later
    let left := (start.line me mvs).drop (start.made me mvs).length
    k.push x =
        (.error (if x.isAppend = true ∧ j.writer.pending = max capacity 1 then .full else .closed),
          k) ∧
      k.writer.pending = j.writer.pending ∧ j.writer.pending ≤ max capacity 1 ∧
      j.writer.pending =
        left.countP LogWrite.isAppend + if j.writer.phase = .dead then 1 else 0 := by
  intro start j k left
  have hsequenced := sequenced_new store capacity me mvs
  have hcapacity : j.writer.capacity = max capacity 1 := capacity_goes me start mvs
  have hbound : j.writer.pending ≤ max capacity 1 := hcapacity ▸ hsequenced.bound
  obtain ⟨fed, hwriter⟩ : ∃ fed, k.writer = { j.writer with fed } :=
    writer_goes_of_stopped hstopped me later
  have hpending : k.writer.pending = j.writer.pending := by rw [hwriter]
  refine ⟨?_, hpending, hbound, hsequenced.places⟩
  have haccepting : k.writer.accepting = false := by
    rw [hwriter]
    exact hstopped
  have hfull : (x.isAppend && decide (k.writer.capacity ≤ k.writer.pending)) =
      decide (x.isAppend = true ∧ j.writer.pending = max capacity 1) := by
    rw [hwriter, hcapacity]
    have hiff : max capacity 1 ≤ j.writer.pending ↔ j.writer.pending = max capacity 1 :=
      ⟨fun hle => Nat.le_antisymm hbound hle, Nat.le_of_eq ∘ Eq.symm⟩
    simp [hiff]
  have hpush : k.writer.push x =
      (.error (if x.isAppend = true ∧ j.writer.pending = max capacity 1 then .full else .closed),
        k.writer) := by
    rw [LogWriter.push, hfull, haccepting]
    by_cases hall : x.isAppend = true ∧ j.writer.pending = max capacity 1
    · simp only [hall, and_self, decide_true, if_true]
    · simp only [hall, decide_false, Bool.false_eq_true, if_false, Bool.not_false, if_true]
  rw [push, hpush]

/-- A writer that is given up with one of its two places taken, and one that is ended by an append
in its only place. -/
theorem push_of_stopped_both_ways :
    let discarded := (Journal.new (Store.new Outages.none false : Store Unit) 2).goes ()
      [.append "k" "a" 60, .purge "k", .discard]
    let dead := (Journal.new (Store.new Outages.none false : Store Unit) 1).goes ()
      [.start, .append "k" "a" Time.limit, .append "k" "b" 60, .turn]
    (discarded.writer.accepting = false ∧
        (discarded.goes () [.start, .turn]).push (.append "k" "c" 60) =
          (.error .closed, discarded.goes () [.start, .turn])) ∧
      dead.writer.accepting = false ∧
        (dead.goes () [.start]).push (.append "k" "c" 60) = (.error .full, dead.goes () [.start]) ∧
        (dead.goes () [.start]).push (.purge "k") = (.error .closed, dead.goes () [.start]) := by
  intro discarded dead
  have hdiscarded : discarded.writer.accepting = false := by decide +kernel
  have hdead : dead.writer.accepting = false := by decide +kernel
  have hfree : discarded.writer.pending ≠ max 2 1 := by decide +kernel
  have htaken : dead.writer.pending = max 1 1 := by decide +kernel
  have hclosed := (push_of_stopped _ 2 () hdiscarded [.start, .turn] (.append "k" "c" 60)).1
  have hfull := (push_of_stopped _ 1 () hdead [.start] (.append "k" "c" 60)).1
  have hpurge := (push_of_stopped _ 1 () hdead [.start] (.purge "k")).1
  rw [if_neg fun h => hfree h.2] at hclosed
  rw [if_pos ⟨rfl, htaken⟩] at hfull
  rw [if_neg fun h => absurd h.1 (by simp [LogWrite.isAppend])] at hpurge
  exact ⟨⟨hdiscarded, hclosed⟩, hdead, hfull, hpurge⟩

/-- The only place is taken when the writer is given up, and the next append is told that the line
is full. -/
theorem full_though_discarded :
    let j := (((Journal.new (Store.new Outages.none false) 1).step (.append "k" "a" 60)).2.step
      .discard).2
    j.writer.phase = .discarded ∧ (j.step (.append "k" "b" 60)).1 = .refused .full ∧
      (j.step (.purge "k")).1 = .refused .closed := by
  exact ⟨rfl, rfl, rfl⟩

end ChatServer.Journal
