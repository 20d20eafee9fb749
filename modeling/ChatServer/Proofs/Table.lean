import ChatServer.Table

/-!
Entries of finite maps against what `get?` finds.
-/

namespace ChatServer.Table

variable {α β : Type} [DecidableEq α]

theorem mem_of_valueIn {es : List (α × β)} {k : α} {v : β} (h : valueIn es k = some v) :
    (k, v) ∈ es := by
  induction es with
  | nil => simp [valueIn] at h
  | cons e es ih =>
      obtain ⟨k', v'⟩ := e
      simp only [valueIn] at h
      split at h
      case isTrue hk =>
        cases h
        rw [hk]
        exact List.mem_cons_self
      case isFalse => exact List.mem_cons_of_mem _ (ih h)

theorem valueIn_of_mem {es : List (α × β)} (hnodup : (es.map Prod.fst).Nodup) {k : α} {v : β}
    (h : (k, v) ∈ es) : valueIn es k = some v := by
  induction es with
  | nil => simp at h
  | cons e es ih =>
      obtain ⟨k', v'⟩ := e
      rw [List.map_cons, List.nodup_cons] at hnodup
      simp only [valueIn]
      rcases List.mem_cons.1 h with h | h
      · cases h
        rw [if_pos rfl]
      · have hne : k' ≠ k := by
          rintro rfl
          exact hnodup.1 (List.mem_map.2 ⟨_, h, rfl⟩)
        rw [if_neg hne]
        exact ih hnodup.2 h

/-- The entries are the keys with their values. -/
theorem mem_entries {t : Table α β} {k : α} {v : β} :
    (k, v) ∈ t.entries ↔ t.get? k = some v :=
  ⟨valueIn_of_mem t.nodup, mem_of_valueIn⟩

theorem mem_keys {t : Table α β} {k : α} : k ∈ t.keys ↔ ∃ v, t.get? k = some v := by
  constructor
  · intro h
    obtain ⟨⟨k', v⟩, he, rfl⟩ := List.mem_map.1 h
    exact ⟨v, mem_entries.1 he⟩
  · rintro ⟨v, hv⟩
    exact List.mem_map.2 ⟨(k, v), mem_entries.2 hv, rfl⟩

theorem putIn_of_valueIn {es : List (α × β)} {k : α} {v : β} (h : valueIn es k = some v) :
    putIn es k v = es := by
  induction es with
  | nil => simp [valueIn] at h
  | cons e es ih =>
      obtain ⟨k', v'⟩ := e
      simp only [valueIn] at h
      simp only [putIn]
      split
      case isTrue hk =>
        rw [if_pos hk] at h
        rw [Option.some.inj h, hk]
      case isFalse hk =>
        rw [if_neg hk] at h
        rw [ih h]

/-- Giving a key the value that it has changes nothing. -/
theorem put_of_get? {t : Table α β} {k : α} {v : β} (h : t.get? k = some v) : t.put k v = t := by
  obtain ⟨entries, nodup⟩ := t
  have hentries : putIn entries k v = entries := putIn_of_valueIn h
  simp only [put, hentries]

theorem putIn_putIn (es : List (α × β)) (k : α) (v w : β) :
    putIn (putIn es k v) k w = putIn es k w := by
  induction es with
  | nil => simp [putIn]
  | cons e es ih =>
      obtain ⟨k', v'⟩ := e
      by_cases hk : k' = k
      · simp [putIn, hk]
      · simp [putIn, hk, ih]

/-- Of two values given to a key the later one counts. -/
theorem put_put (t : Table α β) (k : α) (v w : β) : (t.put k v).put k w = t.put k w := by
  simp only [put, putIn_putIn]

theorem keys_putIn {es : List (α × β)} {k : α} (v : β) (h : k ∈ es.map Prod.fst) :
    (putIn es k v).map Prod.fst = es.map Prod.fst := by
  induction es with
  | nil => simp at h
  | cons e es ih =>
      obtain ⟨k', v'⟩ := e
      simp only [putIn]
      split
      case isTrue hk =>
        simp [hk]
      case isFalse hk =>
        have hrest : k ∈ es.map Prod.fst := by
          rcases List.mem_cons.1 h with heq | hmem
          · exact absurd heq.symm hk
          · exact hmem
        simp [ih hrest]

theorem keys_modify (t : Table α β) (k : α) (f : β → β) : (t.modify k f).keys = t.keys := by
  unfold modify
  cases h : t.get? k with
  | none => rfl
  | some v => exact keys_putIn (f v) (mem_keys.2 ⟨v, h⟩)

/-- What is found after a value was put in is that value or was there before. -/
theorem get?_of_put {t : Table α β} {k x : α} {v w : β} (h : (t.put k v).get? x = some w) :
    (x = k ∧ w = v) ∨ (x ≠ k ∧ t.get? x = some w) := by
  rw [get?_put] at h
  split at h
  case isTrue hx =>
    exact .inl ⟨hx, (Option.some.inj h).symm⟩
  case isFalse hx =>
    exact .inr ⟨hx, h⟩

theorem forall_get?_put {t : Table α β} {k : α} {v : β} {P : α → β → Prop} (hv : P k v)
    (h : ∀ x w, t.get? x = some w → P x w) :
    ∀ x w, (t.put k v).get? x = some w → P x w := by
  intro x w hx
  rcases get?_of_put hx with ⟨rfl, rfl⟩ | ⟨-, hx⟩
  · exact hv
  · exact h x w hx

theorem get?_of_erase {t : Table α β} {k x : α} {v : β} (h : (t.erase k).get? x = some v) :
    t.get? x = some v := by
  rw [get?_erase] at h
  split at h
  · simp at h
  · exact h

/-- What is done to the values of some keys is done to no other. -/
theorem get?_foldl_modify_of_not_mem (f : β → β) {ks : List α} {k : α} (h : k ∉ ks)
    (t : Table α β) : (ks.foldl (fun t k => t.modify k f) t).get? k = t.get? k := by
  induction ks generalizing t with
  | nil => rfl
  | cons k' ks ih =>
      rw [List.mem_cons, not_or] at h
      rw [List.foldl_cons, ih h.2, get?_modify, if_neg h.1]

/-- What is done to the values of some keys is done once to a key that is among them once. -/
theorem get?_foldl_modify_of_once (f : β → β) {ks ks' : List α} {k : α} (h : k ∉ ks)
    (h' : k ∉ ks') (t : Table α β) :
    ((ks ++ k :: ks').foldl (fun t k => t.modify k f) t).get? k = (t.get? k).map f := by
  rw [List.foldl_append, List.foldl_cons, get?_foldl_modify_of_not_mem f h', get?_modify,
    if_pos rfl, get?_foldl_modify_of_not_mem f h]

/-- What is done once to the values of some keys is done to their values and to no other. -/
theorem get?_foldl_modify (f : β → β) {ks : List α} (h : ks.Nodup) (t : Table α β) (k : α) :
    (ks.foldl (fun t k => t.modify k f) t).get? k =
      if k ∈ ks then (t.get? k).map f else t.get? k := by
  split
  case isTrue hmem =>
    obtain ⟨ks₁, ks₂, rfl⟩ := List.append_of_mem hmem
    rw [List.nodup_append, List.nodup_cons] at h
    exact get?_foldl_modify_of_once f (fun hk => h.2.2 k hk k List.mem_cons_self rfl) h.2.1.1 t
  case isFalse hmem =>
    exact get?_foldl_modify_of_not_mem f hmem t

theorem keys_foldl_modify (f : β → β) (ks : List α) (t : Table α β) :
    (ks.foldl (fun t k => t.modify k f) t).keys = t.keys := by
  induction ks generalizing t with
  | nil => rfl
  | cons k ks ih => rw [List.foldl_cons, ih, keys_modify]

theorem entries_foldl_erase (ks : List α) (t : Table α β) :
    (ks.foldl erase t).entries = t.entries.filter fun e => e.1 ∉ ks := by
  induction ks generalizing t with
  | nil => exact (List.filter_eq_self.2 fun e _ => by simp).symm
  | cons k ks ih =>
      rw [List.foldl_cons, ih, erase, List.filter_filter]
      exact List.filter_congr fun e _ => by simp [Bool.and_comm]

/-- A value that only one key has stands once among the values. -/
theorem values_of_unique {t : Table α β} {k : α} {v : β} (h : t.get? k = some v)
    (hunique : ∀ k', t.get? k' = some v → k' = k) :
    ∃ vs vs', t.entries.map Prod.snd = vs ++ v :: vs' ∧ v ∉ vs ∧ v ∉ vs' := by
  obtain ⟨es, es', hes⟩ := List.append_of_mem (mem_entries.2 h)
  have hnodup := t.nodup
  rw [hes, List.map_append, List.map_cons, List.nodup_append, List.nodup_cons] at hnodup
  have hother : ∀ e ∈ t.entries, e.2 = v → e.1 = k := by
    rintro ⟨k', v'⟩ hmem rfl
    exact hunique k' (mem_entries.1 hmem)
  refine ⟨es.map Prod.snd, es'.map Prod.snd, by rw [hes, List.map_append, List.map_cons],
    fun hmem => ?_, fun hmem => ?_⟩
  · obtain ⟨e, he, hv⟩ := List.mem_map.1 hmem
    have hk := hother e (by rw [hes]; exact List.mem_append_left _ he) hv
    exact hnodup.2.2 e.1 (List.mem_map_of_mem he) k List.mem_cons_self hk
  · obtain ⟨e, he, hv⟩ := List.mem_map.1 hmem
    have hk := hother e
      (by rw [hes]; exact List.mem_append_right _ (List.mem_cons_of_mem _ he)) hv
    exact hnodup.2.1.1 (List.mem_map.2 ⟨e, he, hk⟩)

/-- Maps that find the same under every key have equally many entries. -/
theorem size_congr {s t : Table α β} (h : ∀ k, s.get? k = t.get? k) : s.size = t.size := by
  have hmem : ∀ k, k ∈ s.keys ↔ k ∈ t.keys := fun k => by rw [mem_keys, mem_keys, h]
  have hperm : s.keys.Perm t.keys := (List.perm_ext_iff_of_nodup s.nodup t.nodup).2 hmem
  have hlength := hperm.length_eq
  rwa [keys, keys, List.length_map, List.length_map] at hlength

omit [DecidableEq α] in
theorem eq_of_entries {s t : Table α β} (h : s.entries = t.entries) : s = t := by
  obtain ⟨es, hes⟩ := s
  obtain ⟨es', hes'⟩ := t
  dsimp only at h
  subst h
  rfl

/-- A map is known by its keys in their order and by what it finds under each. -/
theorem eq_of_keys {s t : Table α β} (hkeys : s.keys = t.keys) (h : ∀ k, s.get? k = t.get? k) :
    s = t := by
  refine eq_of_entries (List.ext_getElem ?_ fun n hn hn' => ?_)
  · simpa [keys] using congrArg List.length hkeys
  · have hfst : s.entries[n].1 = t.entries[n].1 := by
      have hget : s.keys[n]? = t.keys[n]? := congrArg (·[n]?) hkeys
      simpa [keys, hn, hn'] using hget
    have hfound : s.get? s.entries[n].1 = some s.entries[n].2 :=
      mem_entries.1 (List.getElem_mem hn)
    have hfound' : t.get? t.entries[n].1 = some t.entries[n].2 :=
      mem_entries.1 (List.getElem_mem hn')
    rw [h, hfst, hfound'] at hfound
    exact Prod.ext hfst (Option.some.inj hfound).symm

/-- A value that no key has is not among the values. -/
theorem not_mem_values {t : Table α β} {v : β} (h : ∀ k, t.get? k ≠ some v) :
    v ∉ t.entries.map Prod.snd := by
  intro hmem
  obtain ⟨⟨k, v'⟩, he, rfl⟩ := List.mem_map.1 hmem
  exact h k (mem_entries.1 he)

end ChatServer.Table
