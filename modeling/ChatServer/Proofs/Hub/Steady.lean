import ChatServer.Proofs.Hub.React
import ChatServer.Proofs.Room.Rest

/-!
The front of a server at rest. Every listener has one owner, its holder or a pump, so the pumps do
not get in each other's way: after one pass over them each can only wait, and another pass changes
nothing. The front therefore does not tell how often the background work has gone round.
-/

namespace ChatServer.Hub

/-- Rooms know their listeners, and every listener has one owner and an earlier number than the
next. -/
structure Orderly (h : Hub) : Prop where
  sound : h.registry.Sound
  heldBelow : ∀ name l, h.held.get? name = some l → l.id.number < h.registry.next
  pumpedBelow : ∀ name p, h.pumps.get? name = some p → p.listener.id.number < h.registry.next
  heldApart : ∀ name name' l l', h.held.get? name = some l → h.held.get? name' = some l' →
    l.id = l'.id → name = name'
  pumpedApart : ∀ name name' p p', h.pumps.get? name = some p → h.pumps.get? name' = some p' →
    p.listener.id = p'.listener.id → name = name'
  apart : ∀ name name' l p, h.held.get? name = some l → h.pumps.get? name' = some p →
    l.id ≠ p.listener.id

/-- Every pump can only wait. -/
def Resting (h : Hub) : Prop :=
  ∀ name p, h.pumps.get? name = some p → p.Rests h.registry

/-- Order is kept when listeners are given up and pumps move on. -/
theorem Orderly.mono {h g : Hub} (ho : h.Orderly) (hg : h.registry.Grown g.registry)
    (hheld : ∀ name l, g.held.get? name = some l → h.held.get? name = some l)
    (hpumps : ∀ name p, g.pumps.get? name = some p →
      ∃ q, h.pumps.get? name = some q ∧ q.listener = p.listener) : g.Orderly where
  sound := hg.sound
  heldBelow name l hl := Nat.lt_of_lt_of_le (ho.heldBelow name l (hheld name l hl)) hg.next
  pumpedBelow name p hp := by
    obtain ⟨q, hq, hlistener⟩ := hpumps name p hp
    rw [← hlistener]
    exact Nat.lt_of_lt_of_le (ho.pumpedBelow name q hq) hg.next
  heldApart name name' l l' hl hl' := ho.heldApart name name' l l' (hheld name l hl)
    (hheld name' l' hl')
  pumpedApart name name' p p' hp hp' := by
    obtain ⟨q, hq, hlistener⟩ := hpumps name p hp
    obtain ⟨q', hq', hlistener'⟩ := hpumps name' p' hp'
    rw [← hlistener, ← hlistener']
    exact ho.pumpedApart name name' q q' hq hq'
  apart name name' l p hl hp := by
    obtain ⟨q, hq, hlistener⟩ := hpumps name' p hp
    rw [← hlistener]
    exact ho.apart name name' l q (hheld name l hl) hq

/-- What the registry has grown to is all that matters where nobody's listeners change. -/
theorem Orderly.of_registry {h g : Hub} (ho : h.Orderly) (hg : h.registry.Grown g.registry)
    (hheld : g.held = h.held) (hpumps : g.pumps = h.pumps) : g.Orderly := by
  refine ho.mono hg (fun name l hl => ?_) fun name p hp => ?_
  · rwa [hheld] at hl
  · rw [hpumps] at hp
    exact ⟨p, hp, rfl⟩

/-! ### One pass over the pumps -/

/-- Running a pump brings it to rest and disturbs no other. -/
theorem runPump_spec {h : Hub} (ho : h.Orderly) (name : Label) :
    (h.runPump name).Orderly ∧ (h.runPump name).pumps.keys = h.pumps.keys ∧
      (∀ p, (h.runPump name).pumps.get? name = some p → p.Rests (h.runPump name).registry) ∧
      ∀ name', name' ≠ name →
        (∀ p, h.pumps.get? name' = some p → p.Rests h.registry) →
        ∀ p, (h.runPump name).pumps.get? name' = some p → p.Rests (h.runPump name).registry := by
  unfold runPump
  cases hget : h.pumps.get? name with
  | none =>
      refine ⟨ho, rfl, fun p hp => ?_, fun name' _ hrests => hrests⟩
      rw [hget] at hp
      simp at hp
  | some p =>
      obtain ⟨hlistener, htouched⟩ := Pump.touched_run ho.sound p
      refine ⟨?_, ?_, fun q hq => ?_, fun name' hne hrests q hq => ?_⟩
      · exact ho.mono htouched.grown (fun _ _ hl => hl)
          (Table.forall_get?_put ⟨p, hget, hlistener.symm⟩ fun _ q hq => ⟨q, hq, rfl⟩)
      · exact Table.keys_putIn _ (Table.mem_keys.2 ⟨p, hget⟩)
      · dsimp only at hq ⊢
        rw [Table.get?_put, if_pos rfl] at hq
        rw [← Option.some.inj hq]
        exact Pump.rests_run p h.registry
      · -- the other pump has another listener, whose channel is left alone
        dsimp only at hq ⊢
        rw [Table.get?_put, if_neg hne] at hq
        refine Pump.rests_congr (htouched.channel _ fun heq => hne ?_) (hrests q hq)
        exact ho.pumpedApart name' name q p hq hget heq

theorem foldl_runPump_spec {h : Hub} (ho : h.Orderly) (names : List Label) :
    (names.foldl runPump h).Orderly ∧ (names.foldl runPump h).pumps.keys = h.pumps.keys ∧
      ∀ name, (name ∈ names ∨ ∀ p, h.pumps.get? name = some p → p.Rests h.registry) →
        ∀ p, (names.foldl runPump h).pumps.get? name = some p →
          p.Rests (names.foldl runPump h).registry := by
  induction names generalizing h with
  | nil =>
      refine ⟨ho, rfl, fun name hrests => ?_⟩
      rcases hrests with hmem | hrests
      · exact absurd hmem List.not_mem_nil
      · exact hrests
  | cons first names ih =>
      obtain ⟨ho', hkeys, hself, hothers⟩ := runPump_spec ho first
      obtain ⟨hrest, hkeys', hrests⟩ := ih ho'
      -- a pump that rests, having run or not, stays at rest while the others run
      refine ⟨hrest, hkeys'.trans hkeys, fun name hname => hrests name ?_⟩
      by_cases hfirst : name = first
      · subst hfirst
        exact .inr hself
      · rcases hname with hmem | hname
        · exact .inl ((List.mem_cons.1 hmem).resolve_left hfirst)
        · exact .inr (hothers name hfirst hname)

/-- After one pass over the pumps each of them can only wait. -/
theorem orderly_runPumps {h : Hub} (ho : h.Orderly) :
    h.runPumps.Orderly ∧ h.runPumps.Resting := by
  obtain ⟨ho', hkeys, hrests⟩ := foldl_runPump_spec ho h.pumps.keys
  refine ⟨ho', fun name p hp => hrests name (.inl ?_) p hp⟩
  rw [← hkeys]
  exact Table.mem_keys.2 ⟨p, hp⟩

theorem runPump_of_resting {h : Hub} (hr : h.Resting) (name : Label) : h.runPump name = h := by
  unfold runPump
  cases hget : h.pumps.get? name with
  | none => rfl
  | some p =>
      simp only [Pump.run_of_rests (hr name p hget), Table.put_of_get? hget]

/-- Another pass changes nothing. -/
theorem runPumps_of_resting {h : Hub} (hr : h.Resting) : h.runPumps = h := by
  have hall : ∀ names : List Label, names.foldl runPump h = h := by
    intro names
    induction names with
    | nil => rfl
    | cons name names ih => rw [List.foldl_cons, runPump_of_resting hr, ih]
  exact hall h.pumps.keys

/-! ### Events of the front -/

/-- Order is kept when a pump is exchanged for one of the same listener. -/
theorem Orderly.put_pump {h : Hub} (ho : h.Orderly) {name : Label} {p q : Pump}
    (hp : h.pumps.get? name = some p) (hlistener : q.listener = p.listener) :
    Orderly { h with pumps := h.pumps.put name q } :=
  ho.mono (Registry.Grown.refl ho.sound) (fun _ _ hl => hl)
    (Table.forall_get?_put ⟨p, hp, hlistener.symm⟩ fun _ p' hp' => ⟨p', hp', rfl⟩)

theorem orderly_dropHeld {h : Hub} (ho : h.Orderly) (name : Label) :
    (h.dropHeld name).Orderly ∧ (h.dropHeld name).registry.next = h.registry.next ∧
      (h.dropHeld name).pumps = h.pumps ∧
      ∀ name' l, (h.dropHeld name).held.get? name' = some l → h.held.get? name' = some l := by
  unfold dropHeld
  cases h.held.get? name with
  | none => exact ⟨ho, rfl, rfl, fun _ _ hl => hl⟩
  | some l =>
      have hheld : ∀ name' l', (h.held.erase name).get? name' = some l' →
          h.held.get? name' = some l' := fun name' l' hl' => Table.get?_of_erase hl'
      exact ⟨ho.mono (Registry.grown_dropReceiver ho.sound l.id) hheld fun _ p hp => ⟨p, hp, rfl⟩,
        rfl, rfl, hheld⟩

theorem orderly_dropPump {h : Hub} (ho : h.Orderly) (name : Label) :
    (h.dropPump name).Orderly ∧ (h.dropPump name).held = h.held := by
  unfold dropPump
  cases h.pumps.get? name with
  | none => exact ⟨ho, rfl⟩
  | some p =>
      have hgrown : h.registry.Grown
          (if p.running then p.stop h.registry .cancelled else (p, h.registry)).2 := by
        split
        · exact (Pump.touched_stop ho.sound p .cancelled).grown
        · exact Registry.Grown.refl ho.sound
      exact ⟨ho.mono hgrown (fun _ _ hl => hl)
        fun _ p' hp' => ⟨p', Table.get?_of_erase hp', rfl⟩, rfl⟩

/-- A listener under a new number can be given to whoever asked for it. -/
theorem orderly_put_held {h : Hub} (ho : h.Orderly) {l : Listener}
    (hbelow : l.id.number < h.registry.next)
    (hheld : ∀ name l', h.held.get? name = some l' → l'.id ≠ l.id)
    (hpumps : ∀ name p, h.pumps.get? name = some p → p.listener.id ≠ l.id)
    (opened : Table Label Listener) (name : Label) :
    Orderly { h with opened, held := h.held.put name l } where
  sound := ho.sound
  heldBelow name' l' hl' := by
    rw [Table.get?_put] at hl'
    split at hl'
    · rw [← Option.some.inj hl']
      exact hbelow
    · exact ho.heldBelow name' l' hl'
  pumpedBelow := ho.pumpedBelow
  heldApart name₁ name₂ l₁ l₂ hl₁ hl₂ hid := by
    rcases Table.get?_of_put hl₁ with ⟨hname₁, rfl⟩ | ⟨-, hold₁⟩ <;>
      rcases Table.get?_of_put hl₂ with ⟨hname₂, rfl⟩ | ⟨-, hold₂⟩
    · exact hname₁.trans hname₂.symm
    · exact absurd hid.symm (hheld name₂ l₂ hold₂)
    · exact absurd hid (hheld name₁ l₁ hold₁)
    · exact ho.heldApart name₁ name₂ l₁ l₂ hold₁ hold₂ hid
  pumpedApart := ho.pumpedApart
  apart name₁ name₂ l₁ p hl₁ hp := by
    rw [Table.get?_put] at hl₁
    split at hl₁
    · rw [← Option.some.inj hl₁]
      exact (hpumps name₂ p hp).symm
    · exact ho.apart name₁ name₂ l₁ p hl₁ hp

/-- A held listener can be handed over to a pump. -/
theorem orderly_put_pump {h : Hub} (ho : h.Orderly) {name : Label} {l : Listener} {p : Pump}
    (hl : h.held.get? name = some l) (hlistener : p.listener = l) :
    Orderly { h with held := h.held.erase name, pumps := h.pumps.put name p } where
  sound := ho.sound
  heldBelow name' l' hl' := ho.heldBelow name' l' (Table.get?_of_erase hl')
  pumpedBelow name' p' hp' := by
    rw [Table.get?_put] at hp'
    split at hp'
    · rw [← Option.some.inj hp', hlistener]
      exact ho.heldBelow name l hl
    · exact ho.pumpedBelow name' p' hp'
  heldApart name₁ name₂ l₁ l₂ hl₁ hl₂ :=
    ho.heldApart name₁ name₂ l₁ l₂ (Table.get?_of_erase hl₁) (Table.get?_of_erase hl₂)
  pumpedApart name₁ name₂ p₁ p₂ hp₁ hp₂ hid := by
    rcases Table.get?_of_put hp₁ with ⟨hname₁, rfl⟩ | ⟨-, hold₁⟩ <;>
      rcases Table.get?_of_put hp₂ with ⟨hname₂, rfl⟩ | ⟨-, hold₂⟩
    · exact hname₁.trans hname₂.symm
    · rw [hlistener] at hid
      exact absurd hid (ho.apart name name₂ l p₂ hl hold₂)
    · rw [hlistener] at hid
      exact absurd hid.symm (ho.apart name name₁ l p₁ hl hold₁)
    · exact ho.pumpedApart name₁ name₂ p₁ p₂ hold₁ hold₂ hid
  apart name₁ name₂ l₁ p' hl₁ hp' hid := by
    rw [Table.get?_erase] at hl₁
    split at hl₁
    case isTrue => simp at hl₁
    case isFalse hne =>
      rw [Table.get?_put] at hp'
      split at hp'
      · rw [← Option.some.inj hp', hlistener] at hid
        exact hne (ho.heldApart name₁ name l₁ l hl₁ hl hid)
      · exact ho.apart name₁ name₂ l₁ p' hl₁ hp' hid

/-- Opening a listener keeps order, and nobody has the new listener's number yet. -/
theorem orderly_openListener {h h' : Hub} (ho : h.Orderly) {room : RoomId} {l : Listener}
    (hopen : h.openListener room = (some l, h')) :
    h'.Orderly ∧ h'.held = h.held ∧ h'.pumps = h.pumps ∧ l.id.number = h.registry.next ∧
      h'.registry.next = h.registry.next + 1 := by
  unfold openListener at hopen
  split at hopen
  · simp at hopen
  · split at hopen
    · obtain ⟨hl, rfl⟩ := Prod.mk.inj hopen
      rw [← Option.some.inj hl]
      exact ⟨ho.of_registry (Registry.grown_openListener ho.sound room) rfl rfl, rfl, rfl, rfl, rfl⟩
    · simp at hopen

theorem orderly_listen {h : Hub} (ho : h.Orderly) (name : Label) (room : RoomId) :
    (h.react (.listen name room)).2.Orderly := by
  have hcases := openListener_cases h room
  rcases hopen : h.openListener room with ⟨_ | l, h'⟩
  · simp only [hopen, react] at hcases ⊢
    rcases hcases with ⟨-, rfl⟩ | rfl | ⟨-, rfl⟩
    · exact ho
    · exact ho.of_registry (Registry.grown_openListener ho.sound room) rfl rfl
    · exact ho.of_registry Registry.grown_closeAll rfl rfl
  · simp only [hopen, react]
    obtain ⟨ho', hheld, hpumps, hnumber, hnext⟩ := orderly_openListener ho hopen
    obtain ⟨hdropped, hnext', hpumps', hheld'⟩ := orderly_dropHeld ho' name
    -- whoever held or pumped a listener before has one with an earlier number
    refine orderly_put_held hdropped ?_ (fun name' l' hl' hid => ?_) (fun name' p hp hid => ?_) _ _
    · rw [hnext', hnext, hnumber]
      exact Nat.lt_succ_self _
    · have hbelow := ho.heldBelow name' l' (hheld ▸ hheld' name' l' hl')
      rw [hid, hnumber] at hbelow
      exact absurd hbelow (Nat.lt_irrefl _)
    · rw [hpumps', hpumps] at hp
      have hbelow := ho.pumpedBelow name' p hp
      rw [hid, hnumber] at hbelow
      exact absurd hbelow (Nat.lt_irrefl _)

/-- Events of the front keep order. -/
theorem orderly_react {h : Hub} (ho : h.Orderly) {e : Event} (he : e.isFront = true) :
    (h.react e).2.Orderly := by
  cases e with
  | listen name room => exact orderly_listen ho name room
  | create room => exact ho.of_registry (Registry.grown_create ho.sound room) rfl rfl
  | delete room =>
      have hgrown := Registry.grown_delete ho.sound room
      simp only [react, delete]
      split <;> exact ho.of_registry hgrown rfl rfl
  | submit sender room text =>
      exact ho.of_registry (Registry.grown_publish ho.sound room _) rfl rfl
  | listenAbandoned room =>
      simp only [react, openAbandoned]
      split
      · split
        · exact ho.of_registry (Registry.grown_openAbandoned ho.sound room) rfl rfl
        · exact ho.of_registry Registry.grown_closeAll rfl rfl
      · exact ho
  | close name room =>
      simp only [react]
      split
      · exact ho
      · exact ho.of_registry (Registry.grown_closeListener ho.sound _ _) rfl rfl
  | closeHeld name =>
      simp only [react]
      cases hl : h.held.get? name with
      | none => exact ho
      | some l =>
          dsimp only
          have hclosed := Registry.grown_closeListener ho.sound l.room l.id
          exact ho.mono (hclosed.trans (Registry.grown_dropReceiver hclosed.sound l.id))
            (fun _ _ hl' => Table.get?_of_erase hl') fun _ p hp => ⟨p, hp, rfl⟩
  | drop name => exact (orderly_dropHeld ho name).1
  | receive name | tryReceive name =>
      simp only [react]
      split
      · exact ho
      · exact ho.of_registry (Registry.grown_receive ho.sound _) rfl rfl
  | pump name capacity heading =>
      simp only [react]
      cases hl : h.held.get? name with
      | none => exact ho
      | some l =>
          dsimp only
          split
          · exact ho
          · obtain ⟨hdropped, hheld⟩ := orderly_dropPump ho name
            have hl' : (h.dropPump name).held.get? name = some l := by rw [hheld, hl]
            exact orderly_put_pump hdropped hl' rfl
  | sinkReceive name =>
      simp only [react]
      cases hp : (h.pumps.get? name).filter (·.sink.receiving) with
      | none => exact ho
      | some p =>
          exact ho.put_pump (Option.filter_eq_some_iff.1 hp).1 rfl
  | sinkDrop name =>
      refine ho.mono (Registry.Grown.refl ho.sound) (fun _ _ hl => hl) fun name' p hp => ?_
      simp only [react, Table.get?_modify] at hp
      split at hp
      · obtain ⟨q, hq, rfl⟩ := Option.map_eq_some_iff.1 hp
        exact ⟨q, hq, rfl⟩
      · exact ⟨p, hp, rfl⟩
  | cancel name =>
      simp only [react]
      cases hp : h.pumps.get? name with
      | none => exact ho
      | some p =>
          dsimp only
          split
          · exact ho
          · exact ho.put_pump hp rfl
  | count room | roomExists room | pumpEnd name => exact ho
  | shutdown => exact ho.of_registry (Registry.Grown.refl ho.sound) rfl rfl
  | _ => simp [Event.isFront] at he

end ChatServer.Hub
