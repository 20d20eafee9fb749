import ChatServer.Proofs.Hub.Steady

/-!
The front of a server by itself. Two servers with the same front answer every event of the front
alike and have the same front afterwards, whatever their logs have come to; and events of the log
side leave a steady front as it is.
-/

namespace ChatServer.Hub

/-- Two servers with the same rooms, listeners, pumps and connections. -/
def SameFront (h g : Hub) : Prop := ∃ tuning journal wall, g = { h with tuning, journal, wall }

theorem SameFront.refl (h : Hub) : SameFront h h := ⟨h.tuning, h.journal, h.wall, rfl⟩

theorem SameFront.symm {h g : Hub} (hg : SameFront h g) : SameFront g h := by
  obtain ⟨tuning, journal, wall, rfl⟩ := hg
  exact ⟨h.tuning, h.journal, h.wall, rfl⟩

theorem SameFront.trans {h g f : Hub} (hg : SameFront h g) (gf : SameFront g f) :
    SameFront h f := by
  obtain ⟨tuning, journal, wall, rfl⟩ := hg
  obtain ⟨tuning', journal', wall', rfl⟩ := gf
  exact ⟨tuning', journal', wall', rfl⟩

theorem Orderly.of_sameFront {h g : Hub} (ho : h.Orderly) (hg : SameFront h g) : g.Orderly := by
  obtain ⟨tuning, journal, wall, rfl⟩ := hg
  exact ho.of_registry (Registry.Grown.refl ho.sound) rfl rfl

/-- A front that is at rest and has somebody to give commands, if they are still handled. -/
structure Steady (h : Hub) : Prop where
  orderly : h.Orderly
  resting : h.Resting
  connections : h.connections = Table.empty
  attended : h.managed = true → h.attended = true

theorem Steady.of_sameFront {h g : Hub} (hs : h.Steady) (hg : SameFront h g) : g.Steady := by
  have ho := hs.orderly.of_sameFront hg
  obtain ⟨tuning, journal, wall, rfl⟩ := hg
  exact ⟨ho, hs.resting, hs.connections, hs.attended⟩

/-! ### Background work -/

theorem sameFront_runWriter (h : Hub) : SameFront h h.runWriter :=
  ⟨h.tuning, h.journal.settle .writer, h.wall, rfl⟩

theorem sameFront_runPump {h g : Hub} (hg : SameFront h g) (name : Label) :
    SameFront (h.runPump name) (g.runPump name) := by
  obtain ⟨tuning, journal, wall, rfl⟩ := hg
  refine ⟨tuning, journal, wall, ?_⟩
  unfold runPump
  dsimp only
  cases h.pumps.get? name <;> rfl

theorem sameFront_runPumps {h g : Hub} (hg : SameFront h g) :
    SameFront h.runPumps g.runPumps := by
  have hall : ∀ (names : List Label) {h g : Hub}, SameFront h g →
      SameFront (names.foldl runPump h) (names.foldl runPump g) := by
    intro names
    induction names with
    | nil => exact fun hg => hg
    | cons name names ih => exact fun hg => ih (sameFront_runPump hg name)
  have hkeys : g.pumps = h.pumps := by
    obtain ⟨tuning, journal, wall, rfl⟩ := hg
    rfl
  rw [runPumps, runPumps, hkeys]
  exact hall h.pumps.keys hg

theorem sameFront_retire {h g : Hub} (hg : SameFront h g) : SameFront h.retire g.retire := by
  obtain ⟨tuning, journal, wall, rfl⟩ := hg
  unfold retire
  cases hgone : h.managed && !h.attended with
  | true =>
      have hgone' : (({ h with tuning, journal, wall } : Hub).managed &&
          !({ h with tuning, journal, wall } : Hub).attended) = true := hgone
      rw [if_pos rfl, if_pos hgone']
      exact ⟨tuning, _, wall, rfl⟩
  | false =>
      have hstays : (({ h with tuning, journal, wall } : Hub).managed &&
          !({ h with tuning, journal, wall } : Hub).attended) = false := hgone
      rw [hstays]
      exact ⟨tuning, journal, wall, rfl⟩

/-- However often the background work goes round, the front is as after one pass over the pumps. -/
theorem sameFront_rounds {h : Hub} (ho : h.Orderly) (hc : h.connections = Table.empty) (n : Nat) :
    SameFront h.runPumps (h.rounds (n + 1)) := by
  induction n generalizing h with
  | zero =>
      have hround := sameFront_runWriter h.runPumps
      rw [← round_eq hc] at hround
      simp only [rounds]
      split <;> exact hround
  | succ n ih =>
      -- the pumps rest after the first pass, so the rounds after it are the writer's alone
      obtain ⟨ho', hrests⟩ := orderly_runPumps ho
      have hround := sameFront_runWriter h.runPumps
      rw [← round_eq hc] at hround
      have hc' : h.round.connections = Table.empty := by
        rw [round_eq hc]
        exact h.connections_runPumps.trans hc
      have hrests' : h.round.Resting := by
        rw [round_eq hc]
        exact hrests
      have hrest := ih (ho'.of_sameFront hround) hc'
      rw [runPumps_of_resting hrests'] at hrest
      rw [rounds]
      split
      · exact hround
      · exact hround.trans hrest

theorem sameFront_settle_self {h : Hub} (ho : h.Orderly) (hc : h.connections = Table.empty) :
    SameFront h.runPumps.retire h.settle :=
  sameFront_retire (sameFront_rounds ho hc _)

theorem sameFront_settle {h g : Hub} (ho : h.Orderly) (hc : h.connections = Table.empty)
    (hg : SameFront h g) : SameFront h.settle g.settle := by
  have hc' : g.connections = Table.empty := by
    obtain ⟨tuning, journal, wall, rfl⟩ := hg
    exact hc
  have hself := sameFront_settle_self ho hc
  have hself' := sameFront_settle_self (ho.of_sameFront hg) hc'
  exact hself.symm.trans ((sameFront_retire (sameFront_runPumps hg)).trans hself')

/-- The background work leaves the front steady. -/
theorem steady_settle {h : Hub} (ho : h.Orderly) (hc : h.connections = Table.empty) :
    h.settle.Steady := by
  obtain ⟨ho', hrests⟩ := orderly_runPumps ho
  have hc' : h.runPumps.connections = Table.empty := h.connections_runPumps.trans hc
  refine Steady.of_sameFront ?_ (sameFront_settle_self ho hc)
  generalize h.runPumps = g at ho' hrests hc' ⊢
  unfold retire
  cases hgone : g.managed && !g.attended with
  | true =>
      rw [if_pos rfl]
      simp only [Bool.and_eq_true, Bool.not_eq_true'] at hgone
      refine ⟨ho'.of_registry Registry.grown_closeAll rfl rfl, fun name p hp => ?_, hc',
        fun hm => absurd hm (by simp [runWriter, dismiss])⟩
      have hentry : (name, p) ∈ g.pumps.entries := Table.mem_entries.2 hp
      have hrunning : p.running = false := by
        have hnone := hgone.2
        simp only [attended, Bool.or_eq_false_iff, List.any_eq_false] at hnone
        simpa using hnone.1.2 (name, p) hentry
      simp [Pump.Rests, Pump.turn, hrunning]
  | false =>
      rw [if_neg Bool.false_ne_true]
      refine ⟨ho', hrests, hc', fun hm => ?_⟩
      simpa [hm] using hgone

/-- On a steady front the background work finds nothing to do. -/
theorem sameFront_settle_of_steady {h : Hub} (hs : h.Steady) : SameFront h h.settle := by
  have hself := sameFront_settle_self hs.orderly hs.connections
  rw [runPumps_of_resting hs.resting] at hself
  have hretire : h.retire = h := by
    unfold retire
    cases hm : h.managed with
    | true => simp [hs.attended hm]
    | false => simp
  rwa [hretire] at hself

end ChatServer.Hub
