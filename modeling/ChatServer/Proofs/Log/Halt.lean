import ChatServer.Proofs.Log.Ending

/-!
When a writer can only wait. Each of its moves takes something off its load, so it runs until it has
ended or waits for one of two things: more to write, while someone can hand it over, or leave for
the append at the head of its line. It does not wait for leave if nobody stands before it and there
is a permit for every append in line; and nobody gets into the line for permits but by asking.
-/

namespace ChatServer

namespace Gate

variable {α : Type} [DecidableEq α] {g : Gate α} {who : α}

theorem acquire_fst (g : Gate α) (who : α) : (g.acquire who).1 = g.admits who := by
  unfold acquire
  split
  · simp [*]
  · split <;> simp [*]

/-- Whoever is turned away joins the line. -/
theorem acquire_snd_of_denied (h : g.admits who = false) : (g.acquire who).2 =
    { g with waiting := if who ∈ g.waiting then g.waiting else g.waiting ++ [who] } := by
  unfold acquire
  rw [if_neg (Bool.eq_false_iff.1 h)]
  split <;> simp [*]

/-- Whoever is let through takes a permit and leaves the line. -/
theorem acquire_snd_of_granted (h : g.admits who = true) :
    (g.acquire who).2 = ⟨g.permits - 1, g.waiting.tail⟩ := by
  rw [acquire, if_pos h]

/-- Asking again from where one stands in line changes nothing. -/
theorem acquire_of_denied (h : g.admits who = false) :
    (g.acquire who).2.acquire who = (false, (g.acquire who).2) := by
  rw [acquire_snd_of_denied h]
  have hjoined : who ∈ if who ∈ g.waiting then g.waiting else g.waiting ++ [who] := by
    split
    · assumption
    · simp
  have hdenied : admits
      ({ g with waiting := if who ∈ g.waiting then g.waiting else g.waiting ++ [who] } : Gate α)
      who = false := by
    -- with nobody in line permits are missing, and otherwise somebody else is the first one
    obtain ⟨permits, waiting⟩ := g
    cases waiting with
    | nil => simpa [admits, turnOf] using h
    | cons first rest =>
        have hfirst : (if who ∈ first :: rest then first :: rest else first :: rest ++ [who]) =
            first :: if who ∈ first :: rest then rest else rest ++ [who] := by
          split <;> rfl
        rw [hfirst]
        exact h
  rw [acquire, hdenied]
  simp only [Bool.false_eq_true, if_false, if_pos hjoined]

end Gate

namespace Store

variable {α : Type} [DecidableEq α] {s : Store α} {who : α}

theorem acquire_of_denied (h : (s.acquire who).1 = false) :
    (s.acquire who).2.acquire who = (false, (s.acquire who).2) := by
  unfold acquire at h ⊢
  cases hgate : s.gate with
  | none => simp [hgate] at h
  | some g =>
      simp only [hgate, Gate.acquire_fst] at h
      simp [Gate.acquire_of_denied h]

end Store

namespace LogWriter

variable {α : Type} [DecidableEq α] {w w' : LogWriter} {s s' : Store α} {now : Time} {me : α}

/-- Whether a writer needs leave for the append at the head of its line and does not get it. -/
def waits (w : LogWriter) (s : Store α) (me : α) : Bool :=
  decide (w.phase = .running) && w.queue.head?.any LogWrite.isAppend && !(s.acquire me).1

/-- A writer that cannot move has ended or waits. -/
theorem turn_eq_none_iff : w.turn s now me = none ↔
    w.phase ≠ .running ∨ (w.queue = [] ∧ w.fed = true) ∨ w.waits s me = true := by
  unfold turn waits
  by_cases hphase : w.phase = .running
  · cases hqueue : w.queue with
    | nil => simp [hphase]
    | cons x rest =>
        rcases hacquire : s.acquire me with ⟨_ | _, s'⟩ <;>
          cases happend : x.isAppend <;> simp [hphase, happend]
  · simp [hphase]

theorem waits_of_ungated (h : s.gate = none) (w : LogWriter) (me : α) : w.waits s me = false := by
  simp [waits, Store.acquire_ungated h]

/-- A writer that cannot move joins the line for permits if it waits for one. -/
theorem wait_of_turn_eq_none (h : w.turn s now me = none) :
    w.wait s me = if w.waits s me then (s.acquire me).2 else s := by
  rcases turn_eq_none_iff.1 h with hphase | ⟨hqueue, -⟩ | hwaits
  · have hwaits : w.waits s me = false := by simp [waits, hphase]
    rw [hwaits, wait]
    split <;> simp [hphase]
  · simp [wait, waits, hqueue]
  · rw [if_pos hwaits]
    simp only [waits, Bool.and_eq_true, decide_eq_true_eq] at hwaits
    obtain ⟨⟨hphase, hhead⟩, -⟩ := hwaits
    unfold wait
    cases hqueue : w.queue with
    | nil => simp [hqueue] at hhead
    | cons x rest => cases x <;> simp_all [LogWrite.isAppend]

/-- A writer that waits for leave goes on waiting once it stands in line. -/
theorem waits_acquire (h : w.waits s me = true) : w.waits (s.acquire me).2 me = true := by
  simp only [waits, Bool.and_eq_true, Bool.not_eq_true'] at h ⊢
  exact ⟨h.1, by rw [Store.acquire_of_denied h.2]⟩

/-- Nothing but waiting is left to a writer, and it stands in line if it waits for leave. -/
structure Halts (w : LogWriter) (s : Store α) (me : α) : Prop where
  turn : ∀ now, w.turn s now me = none
  wait : w.wait s me = s

theorem halts_wait (h : w.turn s now me = none) : w.Halts (w.wait s me) me := by
  have hnone : ∀ now, w.turn s now me = none := fun _ => turn_eq_none_iff.2 (turn_eq_none_iff.1 h)
  have hwait := wait_of_turn_eq_none h
  cases hwaits : w.waits s me with
  | false =>
      rw [hwaits, if_neg Bool.false_ne_true] at hwait
      rw [hwait]
      exact ⟨hnone, hwait⟩
  | true =>
      rw [hwait, hwaits]
      have hagain := waits_acquire hwaits
      have hturn : ∀ now, w.turn (s.acquire me).2 now me = none :=
        fun _ => turn_eq_none_iff.2 (.inr (.inr hagain))
      have hdenied : (s.acquire me).1 = false := by
        simp only [waits, Bool.and_eq_true, Bool.not_eq_true'] at hwaits
        exact hwaits.2
      refine ⟨hturn, ?_⟩
      rw [if_pos rfl, wait_of_turn_eq_none (hturn now), hagain, if_pos rfl,
        Store.acquire_of_denied hdenied]

/-- A bound on the moves that a writer can make: one for each write in line and one to end. -/
def load (w : LogWriter) : Nat := if w.phase = .running then w.queue.length + 1 else 0

/-- Every move takes something off the load. -/
theorem load_turn (h : w.turn s now me = some (w', s')) : w'.load < w.load := by
  obtain ⟨hphase, ⟨-, -, rfl, -⟩ | ⟨x, rest, hqueue, -, hattempt⟩⟩ := turn_cases h
  · simp [load, hphase]
  · have hw : w' = _ := congrArg Prod.fst hattempt
    obtain ⟨-, hadvance | ⟨-, -, hdead⟩⟩ :=
      w.attempt_cases (if x.isAppend then (s.acquire me).2 else s) now x rest
    · rw [hw, hadvance]
      simp [load, advance, hphase, hqueue]
    · rw [hw, hdead]
      simp [load, hphase]

/-- With more moves than it can make a writer runs until it can only wait. -/
theorem halts_runFor {fuel : Nat} (h : w.load < fuel) :
    (w.runFor s now me fuel).1.Halts (w.runFor s now me fuel).2 me := by
  induction fuel generalizing w s with
  | zero => exact absurd h (Nat.not_lt_zero _)
  | succ fuel ih =>
      rw [runFor]
      cases hturn : w.turn s now me with
      | none => exact halts_wait hturn
      | some moved =>
          obtain ⟨w', s'⟩ := moved
          exact ih (Nat.lt_of_lt_of_le (load_turn hturn) (Nat.le_of_lt_succ h))

theorem halts_run (w : LogWriter) (s : Store α) (now : Time) (me : α) :
    (w.run s now me).1.Halts (w.run s now me).2 me := by
  refine halts_runFor ?_
  unfold load
  split <;> omega

theorem Halts.run_eq (h : w.Halts s me) (now : Time) : w.run s now me = (w, s) := by
  rw [run, runFor, h.turn now]
  dsimp only
  rw [h.wait]

/-- Started and not waiting for leave, a writer that can only wait has nothing in line. -/
theorem Halts.queue_eq_nil (h : w.Halts s me) (hw : w.Started) (hwaits : w.waits s me = false) :
    w.queue = [] := by
  rcases hw with hphase | ⟨hqueue, -⟩
  · rcases turn_eq_none_iff.1 (h.turn 0) with hne | ⟨hqueue, -⟩ | hwaits'
    · exact absurd hphase hne
    · exact hqueue
    · simp [hwaits] at hwaits'
  · exact hqueue

/-- If it has been let go of as well it has ended. -/
theorem Halts.ended (h : w.Halts s me) (hw : w.Started) (hfed : w.fed = false)
    (hwaits : w.waits s me = false) : w.phase = .dead ∨ w.phase = .finished := by
  rcases hw with hphase | ⟨-, hdead | ⟨hfinished, -⟩⟩
  · rcases turn_eq_none_iff.1 (h.turn 0) with hne | ⟨-, hfed'⟩ | hwaits'
    · exact absurd hphase hne
    · simp [hfed] at hfed'
    · simp [hwaits] at hwaits'
  · exact .inl hdead
  · exact .inr hfinished

end LogWriter

/-! ### Who stands in line -/

/-- In line for permits stand, once each, only those of whom `P` holds. -/
structure Gate.Lines {α : Type} (g : Gate α) (P : α → Prop) : Prop where
  nodup : g.waiting.Nodup
  all : ∀ who ∈ g.waiting, P who

namespace Gate.Lines

variable {α : Type} [DecidableEq α] {g : Gate α} {P : α → Prop} {who : α}

theorem acquire (h : g.Lines P) (hwho : P who) : (g.acquire who).2.Lines P := by
  cases hadmits : g.admits who with
  | true =>
      rw [acquire_snd_of_granted hadmits]
      exact ⟨h.nodup.tail, fun x hx => h.all x (List.mem_of_mem_tail hx)⟩
  | false =>
      rw [acquire_snd_of_denied hadmits]
      by_cases hin : who ∈ g.waiting
      · rw [if_pos hin]
        exact h
      · rw [if_neg hin]
        refine ⟨?_, fun x hx => ?_⟩
        · rw [List.nodup_append]
          refine ⟨h.nodup, List.pairwise_singleton _ who, fun x hx y hy => ?_⟩
          rintro rfl
          exact hin (List.mem_singleton.1 hy ▸ hx)
        · rcases List.mem_append.1 hx with hx | hx
          · exact h.all x hx
          · rw [List.mem_singleton.1 hx]
            exact hwho

/-- Whoever has been let through no longer stands in line. -/
theorem acquire_of_granted (h : g.Lines P) (hadmits : g.admits who = true) :
    (g.acquire who).2.Lines fun x => P x ∧ x ≠ who := by
  rw [acquire_snd_of_granted hadmits]
  have hturn : g.turnOf who = true := (Bool.and_eq_true_iff.1 hadmits).2
  obtain ⟨permits, waiting⟩ := g
  cases waiting with
  | nil => exact ⟨List.nodup_nil, fun x hx => absurd hx List.not_mem_nil⟩
  | cons first rest =>
      obtain rfl : first = who := of_decide_eq_true hturn
      have hnodup := List.nodup_cons.1 h.nodup
      refine ⟨hnodup.2, fun x hx => ⟨h.all x (List.mem_cons_of_mem first hx), ?_⟩⟩
      rintro rfl
      exact hnodup.1 hx

end Gate.Lines

/-- In line before a store stand, once each, only those of whom `P` holds. -/
def Store.Lines {α : Type} (s : Store α) (P : α → Prop) : Prop := ∀ g, s.gate = some g → g.Lines P

namespace Store.Lines

variable {α : Type} {s s' : Store α} {P Q : α → Prop}

theorem mono (h : s.Lines P) (hPQ : ∀ who, P who → Q who) : s.Lines Q :=
  fun g hg => ⟨(h g hg).nodup, fun who hwho => hPQ who ((h g hg).all who hwho)⟩

theorem of_gate (h : s.Lines P) (hgate : s'.gate = s.gate) : s'.Lines P :=
  fun g hg => h g (hgate ▸ hg)

theorem addPermits (h : s.Lines P) (n : Nat) : (s.addPermits n).Lines P := by
  intro g hg
  obtain ⟨g', hg', rfl⟩ := Option.map_eq_some_iff.1 hg
  exact ⟨(h g' hg').nodup, (h g' hg').all⟩

variable [DecidableEq α] {who me : α} {w w' : LogWriter} {now : Time}

theorem acquire (h : s.Lines P) (hwho : P who) : (s.acquire who).2.Lines P := by
  unfold Store.acquire
  cases hgate : s.gate with
  | none => exact h
  | some g =>
      intro g' hg'
      obtain rfl := Option.some.inj hg'
      exact (h g hgate).acquire hwho

theorem acquire_of_granted (h : s.Lines P) (hgranted : (s.acquire who).1 = true) :
    (s.acquire who).2.Lines fun x => P x ∧ x ≠ who := by
  unfold Store.acquire at hgranted ⊢
  cases hgate : s.gate with
  | none =>
      intro g hg
      simp [hgate] at hg
  | some g =>
      intro g' hg'
      simp only [hgate, Gate.acquire_fst] at hgranted
      obtain rfl := Option.some.inj hg'
      exact (h g hgate).acquire_of_granted hgranted

theorem turn (h : s.Lines P) (hme : P me) (hturn : w.turn s now me = some (w', s')) :
    s'.Lines P := by
  obtain ⟨-, ⟨-, -, -, rfl⟩ | ⟨x, rest, -, -, hattempt⟩⟩ := LogWriter.turn_cases hturn
  · exact h
  · have hleave : Store.Lines (if x.isAppend then (s.acquire me).2 else s) P := by
      split
      · exact h.acquire hme
      · exact h
    refine hleave.of_gate ?_
    rw [show s' = _ from congrArg Prod.snd hattempt, LogWriter.gate_attempt]

theorem wait (h : s.Lines P) (hme : P me) : (w.wait s me).Lines P := by
  unfold LogWriter.wait
  split
  · split
    · exact h.acquire hme
    · exact h
  · exact h

/-- By induction on its moves: a writer that may stand in line brings nobody else there. -/
theorem runFor (h : s.Lines P) (hme : P me) (fuel : Nat) :
    (w.runFor s now me fuel).2.Lines P := by
  induction fuel generalizing w s with
  | zero => exact h
  | succ fuel ih =>
      rw [LogWriter.runFor]
      cases hturn : w.turn s now me with
      | none => exact h.wait hme
      | some moved => exact ih (h.turn hme hturn)

theorem run (h : s.Lines P) (hme : P me) (w : LogWriter) (now : Time) :
    (w.run s now me).2.Lines P := h.runFor hme _

end Store.Lines

namespace LogWriter

variable {α : Type} [DecidableEq α] {w w' : LogWriter} {s s' : Store α} {now : Time} {me : α}

/-! ### Permits for all -/

/-- Whatever gate there is, nobody else stands in line before it and it has a permit for every
append that waits. -/
def Provided (w : LogWriter) (s : Store α) (me : α) : Prop :=
  ∀ g, s.gate = some g → (∀ who ∈ g.waiting, who = me) ∧
    w.queue.countP LogWrite.isAppend ≤ g.permits

/-- The first append in line is let through and leaves a permit for each of the others. -/
theorem Provided.acquire (h : w.Provided s me) {x : LogWrite} {rest : List LogWrite}
    (hqueue : w.queue = x :: rest) (hx : x.isAppend = true) :
    (s.acquire me).1 = true ∧ ∀ g, (s.acquire me).2.gate = some g →
      (∀ who ∈ g.waiting, who = me) ∧ rest.countP LogWrite.isAppend ≤ g.permits := by
  cases hgate : s.gate with
  | none => simp [Store.acquire_ungated hgate, hgate]
  | some g =>
      obtain ⟨halone, hpermits⟩ := h g hgate
      rw [hqueue, List.countP_cons_of_pos hx] at hpermits
      have hturn : g.turnOf me = true := by
        unfold Gate.turnOf
        cases hwaiting : g.waiting with
        | nil => rfl
        | cons first others =>
            exact decide_eq_true (halone first (by rw [hwaiting]; exact List.mem_cons_self))
      have hadmits : g.admits me = true := by
        rw [Gate.admits, hturn, Bool.and_true]
        exact decide_eq_true (by omega)
      have hacquire : s.acquire me =
          (true, { s with gate := some ⟨g.permits - 1, g.waiting.tail⟩ }) := by
        simp [Store.acquire, hgate, Gate.acquire, hadmits]
      rw [hacquire]
      refine ⟨rfl, fun g' hg' => ?_⟩
      obtain rfl := Option.some.inj hg'
      exact ⟨fun who hwho => halone who (List.mem_of_mem_tail hwho), by dsimp only; omega⟩

theorem Provided.waits_eq_false (h : w.Provided s me) : w.waits s me = false := by
  unfold waits
  cases hqueue : w.queue with
  | nil => simp
  | cons x rest =>
      cases hx : x.isAppend with
      | false => simp [hx]
      | true => simp [(h.acquire hqueue hx).1]

theorem Provided.turn (h : w.Provided s me) (hturn : w.turn s now me = some (w', s')) :
    w'.Provided s' me := by
  obtain ⟨-, ⟨-, -, rfl, rfl⟩ | ⟨x, rest, hqueue, -, hattempt⟩⟩ := turn_cases hturn
  · exact h
  · have hw : w' = _ := congrArg Prod.fst hattempt
    have hs : s'.gate = (if x.isAppend then (s.acquire me).2 else s).gate := by
      rw [show s' = _ from congrArg Prod.snd hattempt, gate_attempt]
    have hrest : w'.queue = rest ∨ w'.queue = [] := by
      obtain ⟨-, hadvance | ⟨-, -, hdead⟩⟩ :=
        w.attempt_cases (if x.isAppend then (s.acquire me).2 else s) now x rest
      · exact .inl (by rw [hw, hadvance]; rfl)
      · exact .inr (by rw [hw, hdead])
    have hcount : w'.queue.countP LogWrite.isAppend ≤ rest.countP LogWrite.isAppend := by
      rcases hrest with heq | heq <;> simp [heq]
    intro g hg
    rw [hs] at hg
    cases hx : x.isAppend with
    | true =>
        rw [hx, if_pos rfl] at hg
        obtain ⟨halone, hpermits⟩ := (h.acquire hqueue hx).2 g hg
        exact ⟨halone, Nat.le_trans hcount hpermits⟩
    | false =>
        rw [hx, if_neg Bool.false_ne_true] at hg
        obtain ⟨halone, hpermits⟩ := h g hg
        rw [hqueue, List.countP_cons_of_neg (by simp [hx])] at hpermits
        exact ⟨halone, Nat.le_trans hcount hpermits⟩

/-- By induction on the moves: a writer that is provided for does not wait for leave. -/
theorem Provided.runFor (h : w.Provided s me) (fuel : Nat) :
    (w.runFor s now me fuel).1.Provided (w.runFor s now me fuel).2 me := by
  induction fuel generalizing w s with
  | zero => exact h
  | succ fuel ih =>
      rw [LogWriter.runFor]
      cases hturn : w.turn s now me with
      | none =>
          dsimp only
          rw [wait_of_turn_eq_none hturn, h.waits_eq_false]
          exact h
      | some moved => exact ih (h.turn hturn)

theorem Provided.run (h : w.Provided s me) (now : Time) :
    (w.run s now me).1.Provided (w.run s now me).2 me := h.runFor _

end LogWriter

end ChatServer
