import ChatServer.Proofs.Log.Halt
import ChatServer.Proofs.Log.Places

/-!
What ends a writer. Over a store that works a write can fail for one reason only: its deadline lies
beyond the clock. So a writer that has been started lives until it attempts such a write, and until
then it makes whatever it is handed.
-/

namespace ChatServer

namespace Store

variable {α : Type}

/-- A store that works always appends the value, and then the deadline decides. -/
theorem write_healthy {s : Store α} (h : s.outages = Outages.none) (now : Time)
    (key value : String) (ttl : Duration) : (s.write now key value ttl).1 =
      if Time.limit ≤ now + ttl then .overflow else .answered .done := by
  by_cases hlate : Time.limit ≤ now + ttl
  · rw [if_pos hlate, write_eq_overflow, h]
    exact ⟨rfl, rfl, hlate⟩
  · have hanswer : (s.call now (.push key value)).1 = .answered .done := by
      simp [call, h, Outages.none, Outages.reason, ExpiringLog.call]
    have hpush : (s.call now (.push key value)).2.log = s.log.push now key value := by
      rw [call_healthy h]
      rfl
    have hreason : (s.call now (.push key value)).2.outages.reason (.expire key ttl) = none := by
      rw [outages_call, h]
      rfl
    obtain ⟨log', hexpire, -⟩ := (s.log.push now key value).live?_expire? key (Nat.not_le.1 hlate)
    rw [if_neg hlate, write_eq, if_pos hanswer, call, hreason, hpush]
    simp [ExpiringLog.call, hexpire]

end Store

theorem LogWrite.not_timely_iff {x : LogWrite} {now : Time} {ttl : Duration}
    (hx : x.isRoutine ttl = true) :
    ¬x.Timely now ↔ x.isAppend = true ∧ Time.limit ≤ now + ttl := by
  cases x with
  | append key value t =>
      obtain rfl : t = ttl := of_decide_eq_true hx
      simp [Timely, isAppend]
  | purge key | flush ticket => simp [Timely, isAppend]

/-- Over a store that works an attempt is fatal just if its deadline lies beyond the clock. -/
theorem Attempt.isFatal_iff {a : Attempt} (h : a.outages = Outages.none) :
    a.isFatal = true ↔ ¬a.write.Timely a.now := by
  obtain ⟨now, outages, x⟩ := a
  obtain rfl : outages = Outages.none := h
  cases x with
  | append key value ttl => simp [isFatal, LogWrite.Timely, Outages.none]
  | purge key | flush ticket => simp [isFatal, LogWrite.Timely]

namespace Journal

variable {α : Type} [DecidableEq α] {me : α} {j : Journal α}

/-- A journal over a store that works, whose writer has been started: it runs, or it has ended and
left nothing in line. -/
structure Going (j : Journal α) : Prop where
  outages : j.store.outages = Outages.none
  writer : j.writer.phase = .running ∨
    j.writer.queue = [] ∧
      (j.writer.phase = .dead ∨ j.writer.phase = .finished ∧ j.writer.fed = false)

/-- Moves by which neither the store is put out of order nor a writer started or given up. -/
def Move.isCalm : Move α → Bool
  | .outages _ | .start | .discard => false
  | _ => true

omit [DecidableEq α] in
theorem Going.started (h : j.Going) : j.writer.Started := h.writer

theorem outages_go (me : α) (j : Journal α) {mv : Move α} (hmv : mv.isCalm = true) :
    (j.go me mv).store.outages = j.store.outages := by
  cases hoffered : j.offered? mv with
  | some x => rw [(go_of_offered hoffered me).2.2.2.1]
  | none =>
      cases mv with
      | append key value ttl | purge key | flush => simp [offered?] at hoffered
      | outages o => simp [Move.isCalm] at hmv
      | turn =>
          rcases j.go_turn me with ⟨hgo, -⟩ | ⟨-, -, -, hgo⟩ | ⟨x, rest, gate, -, -, -, hgo⟩ <;>
            simp [hgo]
      | wait => rw [go, LogWriter.wait_eq]
      | aside x => exact Store.outages_apply _ _ _
      | call c => exact Store.outages_call _ _ _
      | callDirect c =>
          show (j.store.callDirect j.now c).2.outages = _
          unfold Store.callDirect
          split <;> rfl
      | _ => rfl

theorem going_go (h : j.Going) (me : α) {mv : Move α} (hmv : mv.isCalm = true) :
    (j.go me mv).Going :=
  ⟨(outages_go me j hmv).trans h.outages, started_go h.started me mv⟩

theorem going_goes (h : j.Going) (me : α) {mvs : List (Move α)}
    (hmvs : ∀ mv ∈ mvs, mv.isCalm = true) : (j.goes me mvs).Going := by
  induction mvs generalizing j with
  | nil => exact h
  | cons mv mvs ih =>
      exact ih (going_go h me (hmvs mv List.mem_cons_self)) fun mv' hmv' =>
        hmvs mv' (List.mem_cons_of_mem mv hmv')

/-- Nothing is out of order when a write is attempted. -/
theorem outages_of_mem_attempted (h : j.Going) {mvs : List (Move α)}
    (hmvs : ∀ mv ∈ mvs, mv.isCalm = true) {a : Attempt} (ha : a ∈ j.attempted me mvs) :
    a.outages = Outages.none := by
  induction mvs generalizing j with
  | nil => exact absurd ha (by simp [attempted, along])
  | cons mv mvs ih =>
      rcases List.mem_append.1 ha with ha | ha
      · have hattempt : a.outages = j.store.outages := by
          cases mv with
          | turn =>
              simp only [attemptedIn, madeIn] at ha
              split at ha
              · obtain ⟨x, -, rfl⟩ := List.mem_map.1 ha
                rfl
              · simp at ha
          | aside x =>
              rw [List.mem_singleton.1 ha]
              rfl
          | _ => simp [attemptedIn, madeIn] at ha
        exact hattempt.trans h.outages
      · exact ih (going_go h me (hmvs mv List.mem_cons_self))
          (fun mv' hmv' => hmvs mv' (List.mem_cons_of_mem mv hmv')) ha

/-! ### Time, the line and those who fill it -/

/-- What the writer attempts is attempted. -/
theorem madeIn_subset (me : α) (j : Journal α) (mv : Move α) :
    j.madeIn me mv ⊆ j.attemptedIn me mv := by
  cases mv with
  | aside x => simp [madeIn]
  | _ => exact List.Subset.refl _

theorem mem_attempted_of_mem_made {mvs : List (Move α)} {a : Attempt} (ha : a ∈ j.made me mvs) :
    a ∈ j.attempted me mvs := by
  induction mvs generalizing j with
  | nil => simp [made, along] at ha
  | cons mv mvs ih =>
      rcases List.mem_append.1 ha with ha | ha
      · exact List.mem_append_left _ (madeIn_subset me j mv ha)
      · exact List.mem_append_right _ (ih ha)

/-- A run: the writer has ended just if one of the writes that it has attempted had its deadline
beyond the clock. -/
theorem dead_goes (h : j.Going) (me : α) {mvs : List (Move α)}
    (hmvs : ∀ mv ∈ mvs, mv.isCalm = true) : (j.goes me mvs).writer.phase = .dead ↔
      j.writer.phase = .dead ∨ ∃ a ∈ j.made me mvs, ¬a.write.Timely a.now := by
  rw [dead_goes_iff]
  refine or_congr_right (exists_congr fun a => and_congr_right fun ha => ?_)
  exact Attempt.isFatal_iff (outages_of_mem_attempted h hmvs (mem_attempted_of_mem_made ha))

/-- An attempt was made at a time that has been. -/
theorem le_now_of_mem_attempted (me : α) (j : Journal α) (mvs : List (Move α)) :
    j.now ≤ (j.goes me mvs).now ∧ ∀ a ∈ j.attempted me mvs, a.now ≤ (j.goes me mvs).now := by
  induction mvs generalizing j with
  | nil => exact ⟨Nat.le_refl _, fun a ha => absurd ha (by simp [attempted, along])⟩
  | cons mv mvs ih =>
      obtain ⟨hle, -, hnow⟩ := now_go me j mv
      obtain ⟨hrest, hall⟩ := ih (j.go me mv)
      refine ⟨Nat.le_trans hle hrest, ?_⟩
      intro a ha
      rcases List.mem_append.1 ha with ha | ha
      · rw [hnow a ha]
        exact Nat.le_trans hle hrest
      · exact hall a ha

theorem now_le_of_mem_made {mvs : List (Move α)} :
    j.now ≤ (j.goes me mvs).now ∧ ∀ a ∈ j.made me mvs, a.now ≤ (j.goes me mvs).now :=
  ⟨(j.le_now_of_mem_attempted me mvs).1, fun a ha =>
    (j.le_now_of_mem_attempted me mvs).2 a (mem_attempted_of_mem_made ha)⟩

/-- Moves that hand a write over. -/
def Move.isOffer : Move α → Bool
  | .append .. | .purge _ | .flush => true
  | _ => false

theorem line_eq_nil {mvs : List (Move α)} (hmvs : ∀ mv ∈ mvs, mv.isOffer = false) :
    j.line me mvs = [] := by
  induction mvs generalizing j with
  | nil => rfl
  | cons mv mvs ih =>
      have hnothing : j.accepted mv = [] := by
        have hmv := hmvs mv List.mem_cons_self
        cases mv <;> first | rfl | simp [Move.isOffer] at hmv
      show j.accepted mv ++ (j.go me mv).line me mvs = []
      rw [hnothing, ih fun mv' hmv' => hmvs mv' (List.mem_cons_of_mem mv hmv')]
      rfl

/-- A barrier that is alone in line is passed by a writer that runs, and dropped where it has
ended. -/
theorem flushState_goes {line : List LogWrite} {made : List Attempt} (h : j.Going)
    (hs : j.writer.Sequenced j.ticket line made) (hqueue : j.writer.queue = [])
    (hrunning : j.writer.phase ≠ .dead → j.writer.phase = .running) {mvs : List (Move α)}
    (hcalm : ∀ mv ∈ mvs, mv.isCalm = true) (hoffer : ∀ mv ∈ mvs, mv.isOffer = false)
    (hafter : (j.goes me (.flush :: mvs)).writer.queue = []) :
    (j.goes me (.flush :: mvs)).writer.flushState j.ticket =
      if j.writer.phase = .dead then .dropped else .done := by
  have hline : j.line me (.flush :: mvs) = j.accepted .flush := by
    show j.accepted .flush ++ (j.go me .flush).line me mvs = _
    rw [line_eq_nil hoffer, List.append_nil]
  have hsequenced := sequenced_goes hs me (.flush :: mvs)
  rw [hline] at hsequenced
  have hpassed := hsequenced.mem_passed j.ticket
  by_cases hdead : j.writer.phase = .dead
  · -- the barrier was refused, and no earlier one had its ticket
    have hrefused : j.accepted .flush = [] := by
      have hok : ¬(j.writer.push (.flush j.ticket)).1.isOk = true := by
        rw [LogWriter.push_isOk]
        simp [LogWriter.accepting, hdead]
      simp [accepted, offered?, hok]
    have hnot : .flush j.ticket ∉ ((made ++ j.made me (.flush :: mvs)).map Attempt.write) := by
      intro hmem
      have hearlier := hsequenced.order.subset hmem
      rw [hrefused, List.append_nil] at hearlier
      exact absurd (hs.fresh _ hearlier) (Nat.lt_irrefl _)
    rw [if_pos hdead, LogWriter.flushState, if_neg (fun hmem => hnot (hpassed.1 hmem)), hafter,
      if_neg List.not_mem_nil]
  · have haccepted : j.accepted .flush = [.flush j.ticket] := by
      have hok : (j.writer.push (.flush j.ticket)).1.isOk = true :=
        LogWriter.push_isOk_of_running (hrunning hdead) rfl
      simp [accepted, offered?, hok]
    have hbefore : line = made.map Attempt.write := by
      rw [hs.rest hdead h.started.phase_ne.2, hqueue, List.append_nil]
    -- all that is attempted after what was in line before is the barrier
    have hlate : ¬∃ a ∈ j.made me (.flush :: mvs), ¬a.write.Timely a.now := by
      have hprefix : (j.made me (.flush :: mvs)).map Attempt.write <+: [.flush j.ticket] := by
        have horder := hsequenced.order
        rwa [haccepted, hbefore, List.map_append, List.prefix_append_right_inj] at horder
      rintro ⟨a, ha, hlate⟩
      have hflush := hprefix.subset (List.mem_map_of_mem ha)
      rw [List.mem_singleton.1 hflush] at hlate
      exact hlate trivial
    have hcalm' : ∀ mv ∈ Move.flush :: mvs, mv.isCalm = true := by
      intro mv hmv
      rcases List.mem_cons.1 hmv with rfl | hmv
      · rfl
      · exact hcalm mv hmv
    have halive : (j.goes me (.flush :: mvs)).writer.phase ≠ .dead := fun hd =>
      ((dead_goes h me hcalm').1 hd).elim hdead hlate
    have hall := hsequenced.rest halive (going_goes h me hcalm').started.phase_ne.2
    rw [hafter, List.append_nil, haccepted] at hall
    rw [if_neg hdead, LogWriter.flushState, if_pos]
    rw [hpassed, ← hall]
    exact List.mem_append_right _ (List.mem_singleton.2 rfl)

end Journal

end ChatServer
