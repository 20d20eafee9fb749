import ChatServer.Proofs.Log.Prompt

/-!
A write is two calls: the value is appended, then the key's time to live is renewed. When time
passes between them, the deadline from before the write still counts. A key that outlives the gap
has the value and keeps it for the new time to live; a deadline in the gap takes the value with
everything before it, and the second call finds nothing to renew, though both are answered alike.
-/

namespace ChatServer

namespace ExpiringLog

/-- Whether an event leaves a key at least the time to live `ttl`, if it sets one at all. -/
def Event.spares (key : String) (ttl : Duration) : Event → Bool
  | .call (.delete k) => k ≠ key
  | .call (.expire k ttl') => k ≠ key || ttl ≤ ttl'
  | _ => true

/-- Whether an event appends to a key. -/
def Event.fills (key : String) : Event → Bool
  | .call (.push k _) => k = key
  | _ => false

namespace Timed

variable {t : Timed} {key value : String} {d ttl : Duration} {vs : List String} {due : Time}

/-- The two calls of a write, and what goes by between them. -/
def writing (key value : String) (d ttl : Duration) : List Event :=
  [.call (.push key value), .advance d, .call (.expire key ttl)]

/-- Whether a key that is found has its deadline at most `d` from now. -/
def lapsesWithin (t : Timed) (key : String) (d : Duration) : Bool :=
  ((t.shown key).bind LogEntry.deadline).any (· ≤ t.now + d)

theorem le_now_after (t : Timed) (es : List Event) : t.now ≤ (t.after es).now := by
  induction es generalizing t with
  | nil => exact Nat.le_refl _
  | cons e es ih =>
      calc t.now ≤ (t.step e).2.now := by rw [now_step]; exact Nat.le_add_right _ _
        _ ≤ ((t.step e).2.after es).now := ih _

/-! ### What stands -/

/-- The key begins with the values `vs` and has no deadline before `due`. -/
def Stands (t : Timed) (key : String) (vs : List String) (due : Time) : Prop :=
  ∃ e, t.shown key = some e ∧ vs <+: e.values ∧ ∀ at', e.deadline = some at' → due ≤ at'

/-- What one event makes of an entry before it is due. -/
theorem Stands.step (h : Stands t key vs due) {ev : Event} (hspares : ev.spares key ttl = true)
    (hdue : due ≤ t.now + ttl) (hnow : (t.step ev).2.now < due) :
    Stands (t.step ev).2 key vs due := by
  obtain ⟨e, he, hvs, hdeadline⟩ := h
  have hshown := shown_step t ev key
  rw [he] at hshown
  rw [now_step] at hnow
  have hkept : ev.alter t.now key (some e) = some e → Stands (t.step ev).2 key vs due :=
    fun hsame => ⟨e, hshown.trans hsame, hvs, hdeadline⟩
  cases ev with
  | advance d =>
      refine hkept ?_
      have hexp : e.expired (t.now + d) = false := by
        cases hat : e.deadline with
        | none => simp [LogEntry.expired, hat]
        | some at' =>
            have := Nat.lt_of_lt_of_le hnow (hdeadline at' hat)
            simpa [LogEntry.expired, hat, Event.elapsed] using this
      simp [Event.alter, Option.filter, hexp]
  | size | isEmpty => exact hkept rfl
  | call c =>
      cases c with
      | range k start stop | contains k => exact hkept rfl
      | delete k =>
          have hk : k ≠ key := by simpa [Event.spares] using hspares
          exact hkept (if_neg hk)
      | push k value =>
          by_cases hk : k = key
          · refine ⟨LogEntry.appended (some e) value, hshown.trans (if_pos hk), ?_, hdeadline⟩
            exact hvs.trans (List.prefix_append _ _)
          · exact hkept (if_neg hk)
      | expire k ttl' =>
          by_cases hk : k = key
          · have hle : ttl ≤ ttl' := by simpa [Event.spares, hk] using hspares
            by_cases hclock : t.now + ttl' < Time.limit
            · have hlater : due ≤ t.now + ttl' :=
                Nat.le_trans hdue (Nat.add_le_add_left hle t.now)
              have hpos : t.now < t.now + ttl' := Nat.lt_of_lt_of_le hnow hlater
              refine ⟨{ e with deadline := some (t.now + ttl') }, hshown.trans ?_, hvs, ?_⟩
              · simp [Event.alter, hk, Time.after?_eq_some.2 ⟨rfl, hclock⟩, hpos]
              · intro at' hat
                exact Option.some.inj hat ▸ hlater
            · -- the deadline asked for is none that the clock can show
              refine hkept ?_
              simp [Event.alter, Time.after?_eq_none.2 (Nat.not_lt.1 hclock)]
          · exact hkept (if_neg hk)

/-- By induction on the events: before it is due, nothing but a deletion or a shorter time to live
takes anything from a key. -/
theorem Stands.after (h : Stands t key vs due) {es : List Event}
    (hspares : ∀ e ∈ es, e.spares key ttl = true) (hdue : due ≤ t.now + ttl)
    (hnow : (t.after es).now < due) : Stands (t.after es) key vs due := by
  induction es generalizing t with
  | nil => exact h
  | cons e es ih =>
      have hlast : ((t.step e).2.after es).now < due := hnow
      have hnext : (t.step e).2.now < due := Nat.lt_of_le_of_lt (le_now_after _ es) hlast
      have hstep := h.step (hspares e List.mem_cons_self) hdue hnext
      refine ih hstep (fun e he => hspares e (List.mem_cons_of_mem _ he)) ?_ hlast
      have hnow' : t.now ≤ (t.step e).2.now := by
        rw [now_step]
        exact Nat.le_add_right _ _
      exact Nat.le_trans hdue (Nat.add_le_add_right hnow' ttl)

theorem Stands.prefix_values (h : Stands t key vs due) : vs <+: t.values key := by
  obtain ⟨e, he, hvs, -⟩ := h
  rw [values_eq, he]
  exact hvs

/-! ### What is missing -/

/-- A key that is not found is not found later either, unless something is appended to it. -/
theorem holds_after_of_missing {es : List Event} (h : t.holds key = false)
    (hes : ∀ e ∈ es, e.fills key = false) : (t.after es).holds key = false := by
  induction es generalizing t with
  | nil => exact h
  | cons ev es ih =>
      refine ih ?_ fun e he => hes e (List.mem_cons_of_mem _ he)
      have hfills := hes ev List.mem_cons_self
      rw [holds_eq_false] at h ⊢
      rw [shown_step, h]
      cases ev with
      | call c => cases c <;> simp_all [Event.alter, Event.fills]
      | _ => rfl

/-! ### Both calls -/

theorem values_appended (t : Timed) (key value : String) :
    (LogEntry.appended (t.shown key) value).values = t.values key ++ [value] := by
  rw [values_eq]
  cases t.shown key <;> rfl

/-- An appended value leaves the deadline as it was. -/
theorem expired_appended (t : Timed) (key value : String) (d : Duration) :
    (LogEntry.appended (t.shown key) value).expired (t.now + d) = t.lapsesWithin key d := by
  rw [LogEntry.expired, lapsesWithin]
  cases t.shown key <;> rfl

theorem shown_renewed (t : Timed) (key : String) (httl : 0 < ttl)
    (hclock : t.now + ttl < Time.limit) :
    (t.after [.call (.expire key ttl)]).shown key =
      (t.shown key).map fun e => { e with deadline := some (t.now + ttl) } := by
  have hpos : t.now < t.now + ttl := Nat.lt_add_of_pos_right httl
  refine (shown_step t _ key).trans ?_
  cases he : t.shown key with
  | none => simp [Event.alter]
  | some e => simp [Event.alter, Time.after?_eq_some.2 ⟨rfl, hclock⟩, hpos]

/-- What a log shows of a key after a write, by what it showed before. -/
theorem shown_writing (t : Timed) (key value : String) (httl : 0 < ttl)
    (hclock : t.now + d + ttl < Time.limit) :
    (t.after (writing key value d ttl)).shown key =
      if t.lapsesWithin key d then none
      else some ⟨t.values key ++ [value], some (t.now + d + ttl)⟩ := by
  have hsplit : t.after (writing key value d ttl) =
      (t.after [.call (.push key value), .advance d]).after [.call (.expire key ttl)] := rfl
  have hnow : (t.after [.call (.push key value), .advance d]).now = t.now + d := rfl
  rw [hsplit, shown_renewed _ key httl (hnow ▸ hclock), shown_pushed, hnow,
    ← expired_appended t key value d, ← values_appended]
  cases hexp : (LogEntry.appended (t.shown key) value).expired (t.now + d) <;>
    simp [Option.filter, hexp]

/-- Neither call of a write fails as long as the clock can show the deadline. -/
theorem readings_writing (t : Timed) (key value : String) (hclock : t.now + d + ttl < Time.limit) :
    t.readings (writing key value d ttl) = [.answer .done, .answer .done, .answer .done] := by
  have hnow : (t.after [.call (.push key value), .advance d]).now = t.now + d := rfl
  have hexpire : ((t.after [.call (.push key value), .advance d]).step
      (.call (.expire key ttl))).1 = .answer .done := by
    rw [expire_step, hnow, if_neg fun h => Nat.not_le.2 hclock h.2]
  show [_, _, _] = _
  rw [reading_step]
  exact congrArg (fun r => [_, _, r]) hexpire

/-- The key holds the values `vs`, and holds them for `ttl` from now. -/
structure Keeps (t : Timed) (key : String) (vs : List String) (ttl : Duration) : Prop where
  found : t.holds key = true
  values : t.values key = vs
  /-- Only a deletion or a shorter time to live could take them before. -/
  lasts : ∀ es : List Event, (∀ e ∈ es, e.spares key ttl = true) →
    (t.after es).now < t.now + ttl → vs <+: (t.after es).values key
  /-- Left alone, they are gone when the time is over. -/
  ends : ∀ d, ttl ≤ d → (t.after [.advance d]).holds key = false

/-- Nothing of the key is left, and nothing comes back. -/
structure Loses (t : Timed) (key : String) : Prop where
  missing : t.holds key = false
  values : t.values key = []
  stays : ∀ es : List Event, (∀ e ∈ es, e.fills key = false) → (t.after es).holds key = false

theorem keeps_of_shown (hshown : t.shown key = some ⟨vs, some (t.now + ttl)⟩) :
    t.Keeps key vs ttl where
  found := by rw [holds_eq, hshown]; rfl
  values := by rw [values_eq, hshown]; rfl
  lasts es hspares hnow := by
    have hstands : Stands t key vs (t.now + ttl) :=
      ⟨_, hshown, List.prefix_rfl, fun at' hat => Nat.le_of_eq (Option.some.inj hat)⟩
    exact (hstands.after hspares (Nat.le_refl _) hnow).prefix_values
  ends d hd := by
    have hdue : t.now + ttl ≤ t.now + d := Nat.add_le_add_left hd t.now
    rw [holds_eq_false, shown_advanced, hshown]
    simp [Option.filter, LogEntry.expired, hd]

theorem loses_of_shown (hshown : t.shown key = none) : t.Loses key where
  missing := holds_eq_false.2 hshown
  values := by rw [values_eq, hshown]; rfl
  stays _ hes := holds_after_of_missing (holds_eq_false.2 hshown) hes

/-- **A deadline between the two calls of a write decides it.** Both calls are answered alike. If
the key had no deadline in the gap, the value is its last one and lasts for the time to live; if it
had, the value is lost with all that the key held. -/
theorem write_kept_unless_lapsed (t : Timed) (key value : String) (d ttl : Duration)
    (httl : 0 < ttl) (hclock : t.now + d + ttl < Time.limit) :
    t.readings (writing key value d ttl) = [.answer .done, .answer .done, .answer .done] ∧
      (t.lapsesWithin key d = false →
        (t.after (writing key value d ttl)).Keeps key (t.values key ++ [value]) ttl) ∧
      (t.lapsesWithin key d = true → (t.after (writing key value d ttl)).Loses key) := by
  have hshown := shown_writing t key value httl hclock
  have hnow : t.now + d = (t.after (writing key value d ttl)).now := by
    simp only [writing, after, List.foldl_cons, List.foldl_nil, now_step, Event.elapsed,
      Nat.add_zero]
  refine ⟨readings_writing t key value hclock, fun hkept => ?_, fun hlost => ?_⟩
  · rw [hkept, hnow] at hshown
    exact keeps_of_shown hshown
  · rw [hlost] at hshown
    exact loses_of_shown hshown

/-- A key with a deadline in ten seconds. -/
def datedKey : Timed :=
  Timed.initial.after [.call (.push "k" "a"), .call (.expire "k" (.ofSeconds 10))]

/-- A second write that takes a second, and one that is split by the deadline. -/
theorem write_kept_unless_lapsed_dated :
    datedKey.lapsesWithin "k" (.ofSeconds 1) = false ∧
      (datedKey.after (writing "k" "b" (.ofSeconds 1) (.ofSeconds 10))).Keeps "k" ["a", "b"]
        (.ofSeconds 10) ∧
      datedKey.lapsesWithin "k" (.ofSeconds 10) = true ∧
      (datedKey.after (writing "k" "b" (.ofSeconds 10) (.ofSeconds 10))).Loses "k" := by
  have hvalues : datedKey.values "k" ++ ["b"] = ["a", "b"] := by decide
  have hkept := write_kept_unless_lapsed datedKey "k" "b" (.ofSeconds 1) (.ofSeconds 10)
    (by decide) (by decide)
  have hlost := write_kept_unless_lapsed datedKey "k" "b" (.ofSeconds 10) (.ofSeconds 10)
    (by decide) (by decide)
  exact ⟨by decide, hvalues ▸ hkept.2.1 (by decide), by decide, hlost.2.2 (by decide)⟩

/-- A write whose calls are a second apart, both answered, after which the key is not there. -/
theorem acknowledged_write_lost :
    Timed.initial.readings ([.call (.push "k" "a"), .call (.expire "k" (.ofSeconds 10)),
        .advance (.ofSeconds 9)] ++ writing "k" "b" (.ofSeconds 1) (.ofSeconds 10) ++
        [.call (.contains "k"), .call (.range "k" 0 (-1))]) =
      [.answer .done, .answer .done, .answer .done, .answer .done, .answer .done, .answer .done,
        .answer (.found false), .answer (.values [])] := by decide

end Timed

end ExpiringLog

end ChatServer
