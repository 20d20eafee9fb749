import ChatServer.Proofs.Log.Refusal

/-!
The places of the line. An append takes one when it is accepted and gives it back when it has been
attempted, whatever came of the attempt; purges and barriers need none. So as long as there is a
writer, the places taken are the appends accepted and not yet attempted, the one that the writer
waits for leave with among them.
-/

namespace ChatServer

namespace LogWriter

variable {w : LogWriter} {ticket : Nat} {line : List LogWrite} {made : List Attempt}

/-- The line is the attempts made and what waits, so its appends are those attempted and the places
taken. -/
theorem Sequenced.countP_line (h : w.Sequenced ticket line made) (ha : w.accepting = true) :
    w.pending = w.queue.countP LogWrite.isAppend ∧
      line.countP LogWrite.isAppend =
        (made.map Attempt.write).countP LogWrite.isAppend + w.pending := by
  obtain ⟨hdead, hdiscarded⟩ := phase_of_accepting ha
  have hpending : w.pending = w.queue.countP LogWrite.isAppend := by
    rw [h.places, h.drop_eq hdead hdiscarded, if_neg hdead, Nat.add_zero]
  refine ⟨hpending, ?_⟩
  rw [hpending, ← List.countP_append, ← h.rest hdead hdiscarded]

/-- A writer that is there refuses appends only, and these just if no place is left. -/
theorem push_of_accepting (ha : w.accepting = true) (hbound : w.pending ≤ w.capacity)
    (x : LogWrite) :
    (w.push x).1 =
      if x.isAppend = true ∧ w.pending = w.capacity then .error .full else .ok () := by
  have hfull : (x.isAppend && decide (w.capacity ≤ w.pending)) =
      decide (x.isAppend = true ∧ w.pending = w.capacity) := by
    have hiff : w.capacity ≤ w.pending ↔ w.pending = w.capacity :=
      ⟨fun hle => Nat.le_antisymm hbound hle, Nat.le_of_eq ∘ Eq.symm⟩
    simp [hiff]
  rw [push, hfull, ha]
  by_cases hall : x.isAppend = true ∧ w.pending = w.capacity
  · simp only [hall, and_self, decide_true, if_true]
  · simp only [hall, decide_false, Bool.false_eq_true, if_false, Bool.not_true]

end LogWriter

namespace Journal

variable {α : Type} [DecidableEq α]

/-- What the writer attempts in a turn was in line. -/
theorem mem_queue_of_mem_madeIn {me : α} {j : Journal α} {a : Attempt}
    (ha : a ∈ j.madeIn me .turn) : a.write ∈ j.writer.queue := by
  rcases j.go_turn me with ⟨-, hmade⟩ | ⟨-, -, hmade, -⟩ | ⟨x, rest, gate, -, hqueue, hmade, -⟩
  · simp [hmade] at ha
  · simp [hmade] at ha
  · rw [hmade, List.mem_singleton] at ha
    rw [ha, hqueue]
    exact List.mem_cons_self

/-- Whatever the capacity, and however handing over, moves of the writer, permits, time and outages
interleave, as long as there is a writer: the places taken are the appends in line, which are those
accepted and not yet attempted, and never more than there are. An append is refused just if all are
taken, and nothing else ever is. Every move takes a place for an append that it brings into the
line and gives one back for an append that it attempts, whether or not the store took it; there
always is one to give back. -/
theorem places_taken (store : Store α) (capacity : Nat) (me : α) {mvs : List (Move α)}
    (ha : ((Journal.new store capacity).goes me mvs).writer.accepting = true) :
    let start := Journal.new store capacity
    let j := start.goes me mvs
    j.writer.pending = j.writer.queue.countP LogWrite.isAppend ∧
      (start.line me mvs).countP LogWrite.isAppend =
        ((start.made me mvs).map Attempt.write).countP LogWrite.isAppend + j.writer.pending ∧
      j.writer.pending ≤ max capacity 1 ∧
      (∀ x, (j.push x).1 =
        if x.isAppend = true ∧ j.writer.pending = max capacity 1 then .error .full else .ok ()) ∧
      (∀ mv, (j.go me mv).writer.accepting = true →
        (j.go me mv).writer.pending +
            ((j.madeIn me mv).map Attempt.write).countP LogWrite.isAppend =
          j.writer.pending + (j.accepted mv).countP LogWrite.isAppend) ∧
      ∀ a ∈ j.madeIn me .turn, a.write.isAppend = true → 0 < j.writer.pending := by
  intro start j
  have hsequenced := sequenced_new store capacity me mvs
  have hcapacity : j.writer.capacity = max capacity 1 := capacity_goes me start mvs
  obtain ⟨hqueue, hline⟩ := hsequenced.countP_line ha
  have hbound : j.writer.pending ≤ max capacity 1 := hcapacity ▸ hsequenced.bound
  refine ⟨hqueue, hline, hbound, fun x => ?_, fun mv hafter => ?_, fun a hmade happend => ?_⟩
  · have hpush := LogWriter.push_of_accepting ha hsequenced.bound x
    rw [capacity_goes] at hpush
    exact hpush
  · -- the same count before and after the move
    have hnext : (start.line me mvs).countP LogWrite.isAppend +
        (j.accepted mv).countP LogWrite.isAppend =
          ((start.made me mvs).map Attempt.write).countP LogWrite.isAppend +
            ((j.madeIn me mv).map Attempt.write).countP LogWrite.isAppend +
              (j.go me mv).writer.pending := by
      rw [← List.countP_append, ← List.countP_append, ← List.map_append]
      exact ((sequenced_go hsequenced me mv).countP_line hafter).2
    have hbefore : (start.line me mvs).countP LogWrite.isAppend =
      ((start.made me mvs).map Attempt.write).countP LogWrite.isAppend + j.writer.pending := hline
    omega
  · rw [hqueue, List.countP_pos_iff]
    exact ⟨a.write, mem_queue_of_mem_madeIn hmade, happend⟩

/-- Both places are taken while the writer waits for leave. -/
def crowded : List (Move Unit) :=
  [.append "k" "a" 60, .start, .append "k" "b" 60, .turn, .wait, .purge "k"]

/-- The first append is attempted while no deadline can be set, the second one is to be attempted
while nothing can be appended. -/
def relieved : List (Move Unit) :=
  crowded ++ [.outages ⟨none, none, some "down", none, none⟩, .gate (some ⟨2, [()]⟩), .turn,
    .outages ⟨some "down", none, none, none, none⟩]

theorem places_taken_crowded :
    let start := Journal.new (Store.new Outages.none true) 2
    let full := start.goes () crowded
    let later := start.goes () relieved
    (full.writer.accepting = true ∧ full.writer.pending = 2 ∧
        (full.push (.append "k" "c" 60)).1 = .error .full ∧
        (full.push (.flush 0)).1 = .ok ()) ∧
      later.writer.accepting = true ∧ (later.go () .turn).writer.accepting = true ∧
        later.writer.pending = 1 ∧ later.madeIn () .turn = [later.attempt (.append "k" "b" 60)] ∧
        (later.go () .turn).writer.pending + 1 = 1 := by
  intro start full later
  have hfull : full.writer.accepting = true := by decide +kernel
  have hlater : later.writer.accepting = true := by decide +kernel
  have hafter : (later.go () .turn).writer.accepting = true := by decide +kernel
  have hmade : later.madeIn () .turn = [later.attempt (.append "k" "b" 60)] := by decide +kernel
  have htwo : full.writer.pending = 2 := by decide +kernel
  have hone : later.writer.pending = 1 := by decide +kernel
  obtain ⟨-, -, -, hpush, -, -⟩ := places_taken (Store.new Outages.none true) 2 () hfull
  obtain ⟨-, -, -, -, hbalance, -⟩ := places_taken (Store.new Outages.none true) 2 () hlater
  have happend := hpush (.append "k" "c" 60)
  rw [if_pos ⟨rfl, htwo⟩] at happend
  have hflush := hpush (.flush 0)
  rw [if_neg fun h => absurd h.1 (by simp [LogWrite.isAppend])] at hflush
  have hnamed : (Journal.new (Store.new Outages.none true) 2).goes () relieved = later := rfl
  rw [hnamed] at hbalance
  have hturn := hbalance .turn hafter
  have hnone : later.accepted .turn = [] := rfl
  rw [hmade, hnone, hone] at hturn
  exact ⟨⟨hfull, htwo, happend, hflush⟩, hlater, hafter, hone, hmade, hturn⟩

end Journal

end ChatServer
