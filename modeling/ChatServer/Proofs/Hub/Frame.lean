import ChatServer.Hub.Step

/-!
A server is used from two sides. Rooms, listeners and pumps are its front; flushes, histories,
direct messages and whatever befalls the store are its log side. What is left alone on either
side by an event, and by the background work after it, is gathered here; connections, which act
on both sides at once, are left out throughout.
-/

namespace ChatServer.Hub

/-- Events that concern rooms, listeners and pumps. -/
def Event.isFront : Event → Bool
  | .create _ | .delete _ | .submit .. | .count _ | .roomExists _ | .listen .. | .listenAbandoned _
  | .close .. | .closeHeld _ | .drop _ | .receive _ | .tryReceive _ | .pump .. | .sinkReceive _
  | .sinkDrop _ | .cancel _ | .pumpEnd _ | .shutdown => true
  | _ => false

/-- Events that concern only the log and what befalls it. -/
def Event.isLogSide : Event → Bool
  | .flush | .history _ | .direct .. | .getDirect .. | .deleteDirect .. | .keyExists _ | .log _
  | .logSize | .advance _ | .permits _ | .outages _ => true
  | _ => false

/-! ### Background work without connections -/

/-- Every pump runs once. -/
def runPumps (h : Hub) : Hub := h.pumps.keys.foldl runPump h

/-- A pump touches its own sink and the rooms. -/
theorem runPump_eq (h : Hub) (name : Label) :
    ∃ registry pumps, h.runPump name = { h with registry, pumps } := by
  unfold runPump
  split
  · exact ⟨h.registry, h.pumps, rfl⟩
  · exact ⟨_, _, rfl⟩

theorem foldl_runPump_eq (names : List Label) (h : Hub) :
    ∃ registry pumps, names.foldl runPump h = { h with registry, pumps } := by
  induction names generalizing h with
  | nil => exact ⟨h.registry, h.pumps, rfl⟩
  | cons name names ih =>
      obtain ⟨registry, pumps, hone⟩ := runPump_eq h name
      obtain ⟨registry', pumps', hrest⟩ := ih (h.runPump name)
      refine ⟨registry', pumps', ?_⟩
      rw [List.foldl_cons, hrest, hone]

theorem runPumps_eq (h : Hub) :
    h.runPumps = { h with registry := h.runPumps.registry, pumps := h.runPumps.pumps } := by
  obtain ⟨registry, pumps, heq⟩ := foldl_runPump_eq h.pumps.keys h
  rw [runPumps, heq]

@[simp] theorem journal_runPumps (h : Hub) : h.runPumps.journal = h.journal := by
  rw [runPumps_eq]

@[simp] theorem managed_runPumps (h : Hub) : h.runPumps.managed = h.managed := by
  rw [runPumps_eq]

@[simp] theorem handle_runPumps (h : Hub) : h.runPumps.handle = h.handle := by
  rw [runPumps_eq]

@[simp] theorem tuning_runPumps (h : Hub) : h.runPumps.tuning = h.tuning := by
  rw [runPumps_eq]

@[simp] theorem connections_runPumps (h : Hub) : h.runPumps.connections = h.connections := by
  rw [runPumps_eq]

/-- Without connections only pumps and the writer work in the background. -/
theorem round_eq {h : Hub} (hc : h.connections = Table.empty) :
    h.round = h.runPumps.runWriter := by
  have hafter : (h.pumps.keys.foldl runPump h).connections = Table.empty := by
    have hpumps := h.connections_runPumps
    rwa [runPumps, hc] at hpumps
  have hkeys : (Table.empty : Table Label Connection).keys = [] := rfl
  simp only [round, hc, hafter, hkeys, List.foldl_nil]
  rfl

/-- Without connections there is nothing to collect. -/
theorem collect_eq {h : Hub} (hc : h.connections = Table.empty) : h.collect = ([], h) := by
  obtain ⟨tuning, registry, journal, wall, handle, managed, opened, held, pumps, connections⟩ := h
  simp only at hc
  subst hc
  rfl

/-- A server whose user holds a handle goes on. -/
theorem retire_of_handle {h : Hub} (hh : h.handle = true) : h.retire = h := by
  simp [retire, attended, hh]

/-- Without permits to take, one round is all there is to do. -/
theorem settle_of_no_permits {h : Hub} (hh : h.round.handle = true) (hp : h.permits = 0) :
    h.settle = h.round := by
  have hrounds : h.rounds 1 = h.round := by
    simp only [rounds]
    split <;> rfl
  rw [settle, hp, Nat.zero_add, hrounds, retire_of_handle hh]

/-! ### Steps without connections -/

/-- Whether an event is turned away before it does anything. -/
def refuses (h : Hub) (e : Event) : Bool :=
  e.needsHandle && !h.handle || e.isCommand && !h.managed

theorem step_of_refuses {h : Hub} {e : Event} (hr : h.refuses e = true) :
    (h.step e).1 ≠ .done ∧ (h.step e).2 = ([], h) := by
  unfold step
  cases hh : e.needsHandle && !h.handle with
  | true => exact ⟨by simp, by simp⟩
  | false =>
      cases hm : e.isCommand && !h.managed with
      | true => exact ⟨by simp, by simp⟩
      | false => simp [refuses, hh, hm] at hr

theorem managed_of_not_refuses {h : Hub} {e : Event} (hr : h.refuses e = false)
    (he : e.isCommand = true) : h.managed = true := by
  simp only [refuses, he, Bool.true_and, Bool.or_eq_false_iff] at hr
  simpa using hr.2

theorem conclude_snd (before h : Hub) (a : Answer) {e : Event}
    (he : e.isFront = true ∨ e.isLogSide = true) : (conclude before h a e).2 = h := by
  cases e <;> first | rfl | simp [Event.isFront, Event.isLogSide] at he

theorem conclude_fst (before h : Hub) (a : Answer) {e : Event} (he : e.isFront = true) :
    (conclude before h a e).1 = a := by
  cases e <;> first | rfl | simp [Event.isFront] at he

theorem step_fst {h : Hub} {e : Event} (hr : h.refuses e = false) :
    (h.step e).1 = (conclude h (h.react e).2.settle (h.react e).1 e).1 := by
  simp only [refuses, Bool.or_eq_false_iff] at hr
  simp only [step, hr.1, hr.2, Bool.false_eq_true, if_false]

/-- What an event that is not turned away comes to. -/
theorem step_eq {h : Hub} {e : Event} (hr : h.refuses e = false)
    (he : e.isFront = true ∨ e.isLogSide = true)
    (hc : (h.react e).2.settle.connections = Table.empty) :
    h.step e =
      ((conclude h (h.react e).2.settle (h.react e).1 e).1, [], (h.react e).2.settle) := by
  simp only [refuses, Bool.or_eq_false_iff] at hr
  have hconclude := conclude_snd h (h.react e).2.settle (h.react e).1 he
  simp only [step, hr.1, hr.2, Bool.false_eq_true, if_false, hconclude, collect_eq hc]

end ChatServer.Hub
