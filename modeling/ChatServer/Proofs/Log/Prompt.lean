import ChatServer.Proofs.Log.Live
import ChatServer.Proofs.Table

/-!
A log that takes entries out when it next touches them against one that takes them out the moment
they are due. Of either a key shows its live entry and no more; what an event makes of that entry,
and what a call reads from it, is the same for both, and for a key that the event does not name
nothing is made of it. So nobody can tell the two logs apart.
-/

namespace ChatServer

/-- The key that a call names. -/
def LogCall.key : LogCall → String
  | .push key _ | .range key _ _ | .expire key _ | .delete key | .contains key => key

namespace ExpiringLog

/-! ### One key -/

/-- What an event makes of the live entry of a key. -/
def Event.alter (now : Time) (key : String) (e : Option LogEntry) : Event → Option LogEntry
  | .call (.push k value) => if k = key then some (LogEntry.appended e value) else e
  | .call (.expire k ttl) =>
    if k = key then
      e.bind fun e =>
        match Time.after? now ttl with
        | none => some e
        -- a deadline that is reached at once takes the key out
        | some t => if now < t then some { e with deadline := some t } else none
    else e
  | .call (.delete k) => if k = key then none else e
  | .advance d => e.filter fun e => !e.expired (now + d)
  | .call (.range ..) | .call (.contains _) | .size | .isEmpty => e

/-- What a call reads from the live entry of its key. -/
def reading (now : Time) (e : Option LogEntry) : LogCall → Reading
  | .push .. | .delete _ => .answer .done
  | .range _ start stop =>
    .answer (.values ((e.map fun e => readRange e.values start stop).getD []))
  | .expire _ ttl =>
    if e.isSome = true ∧ Time.limit ≤ now + ttl then .overflow else .answer .done
  | .contains _ => .answer (.found e.isSome)

/-- The time that an event takes. -/
def Event.elapsed : Event → Duration
  | .advance d => d
  | _ => 0

/-- Whether an event is a call that names a key, or the passing of time. -/
def Event.concerns (key : String) : Event → Bool
  | .call c => c.key = key
  | .advance _ => true
  | .size | .isEmpty => false

theorem Event.alter_of_not_concerns {key : String} {ev : Event} (h : ev.concerns key = false)
    (now : Time) (e : Option LogEntry) : ev.alter now key e = e := by
  cases ev with
  | call c =>
      have hkey : c.key ≠ key := by simpa [concerns] using h
      cases c <;> simp_all [alter, LogCall.key]
  | advance d => simp [concerns] at h
  | size | isEmpty => rfl

theorem Event.elapsed_of_not_concerns {key : String} {ev : Event}
    (h : ev.concerns key = false) : ev.elapsed = 0 := by
  cases ev with
  | advance d => simp [concerns] at h
  | _ => rfl

/-- No key is left without values. -/
theorem Event.values_alter {now : Time} {key : String} {e : Option LogEntry} {ev : Event}
    (h : ∀ e', e = some e' → e'.values ≠ []) {e' : LogEntry} (he : ev.alter now key e = some e') :
    e'.values ≠ [] := by
  cases ev with
  | call c =>
      cases c with
      | push k value =>
          simp only [alter] at he
          split at he
          · rw [← Option.some.inj he]
            cases e <;> simp [LogEntry.appended]
          · exact h e' he
      | expire k ttl =>
          simp only [alter] at he
          split at he
          · obtain ⟨e₀, he₀, halter⟩ := Option.bind_eq_some_iff.1 he
            have hvalues : e'.values = e₀.values := by
              split at halter
              · rw [← Option.some.inj halter]
              · split at halter
                · rw [← Option.some.inj halter]
                · simp at halter
            rw [hvalues]
            exact h e₀ he₀
          · exact h e' he
      | delete k =>
          simp only [alter] at he
          split at he
          · simp at he
          · exact h e' he
      | range k start stop | contains k => exact h e' he
  | advance d => exact h e' (Option.filter_eq_some_iff.1 he).1
  | size | isEmpty => exact h e' he

namespace Timed

/-- What the log shows under a key. -/
def shown (t : Timed) (key : String) : Option LogEntry := t.log.live? t.now key

/-- The log after a series of events. -/
def after (t : Timed) (es : List Event) : Timed := es.foldl (fun t e => (t.step e).2) t

/-- What the events of a series show. -/
def readings (t : Timed) : List Event → List Reading
  | [] => []
  | e :: es => (t.step e).1 :: (t.step e).2.readings es

theorem step_call (t : Timed) (c : LogCall) :
    t.step (.call c) = (((t.log.call t.now c).1.map Reading.answer).getD .overflow,
      { t with log := (t.log.call t.now c).2 }) := by
  simp only [step]
  split <;> simp [*]

theorem now_step (t : Timed) (e : Event) : (t.step e).2.now = t.now + e.elapsed := by
  cases e with
  | call c =>
      rw [step_call]
      rfl
  | _ => rfl

/-- What a call shows is read from the live entry of its key. -/
theorem reading_step (t : Timed) (c : LogCall) :
    (t.step (.call c)).1 = reading t.now (t.shown c.key) c := by
  rw [step_call]
  cases c with
  | push key value | delete key => rfl
  | range key start stop =>
      simp only [call, range, reading, shown, LogCall.key]
      cases t.log.live? t.now key <;> rfl
  | contains key => rfl
  | expire key ttl =>
      have hnone : t.log.expire? t.now key ttl = none ↔
        (t.shown key).isSome = true ∧ Time.limit ≤ t.now + ttl := t.log.expire?_eq_none
      show _ = if (t.shown key).isSome = true ∧ Time.limit ≤ t.now + ttl then Reading.overflow
        else Reading.answer .done
      simp only [call]
      cases hexpire : t.log.expire? t.now key ttl with
      | none => rw [if_pos (hnone.1 hexpire)]; rfl
      | some log' => rw [if_neg (fun h => by simp [hnone.2 h] at hexpire)]; rfl

/-- An event changes the live entry of a key alike, whatever has expired. -/
theorem shown_step (t : Timed) (e : Event) (key : String) :
    (t.step e).2.shown key = e.alter t.now key (t.shown key) := by
  cases e with
  | call c =>
      rw [step_call]
      cases c with
      | push k value =>
          simp only [shown, call, live?_push, Event.alter]
          by_cases hk : k = key
          · simp [hk]
          · simp [hk, Ne.symm hk]
      | range k start stop | contains k => exact t.log.live?_evict t.now k key
      | delete k =>
          simp only [shown, call, live?_delete, Event.alter]
          by_cases hk : k = key
          · simp [hk]
          · simp [hk, Ne.symm hk]
      | expire k ttl =>
          by_cases hclock : t.now + ttl < Time.limit
          · obtain ⟨log', hlog', hlive⟩ := t.log.live?_expire? k hclock
            have hafter := Time.after?_eq_some.2 ⟨rfl, hclock⟩
            simp only [shown, call, hlog', hlive, Event.alter, hafter]
            by_cases hk : k = key
            · simp [hk]
            · simp [hk, Ne.symm hk]
          · -- the deadline is worked out for a live key only, and nothing is changed then
            have hafter := Time.after?_eq_none.2 (Nat.not_lt.1 hclock)
            have hsame : (t.log.call t.now (.expire k ttl)).2.live? t.now key =
                t.log.live? t.now key := by
              simp only [call, expire?]
              cases hk : t.log.live? t.now k with
              | none => exact t.log.live?_evict t.now k key
              | some e => simp [hafter]
            simp only [shown, hsame, Event.alter, hafter]
            split
            · cases t.log.live? t.now key <;> rfl
            · rfl
  | size | isEmpty => exact t.log.live?_purge t.now key
  | advance d => exact t.log.live?_later (Nat.le_add_right t.now d) key

end Timed

/-! ### The reference -/

/-- A log in which nothing has expired. -/
structure PromptLog where
  entries : Table String LogEntry
  now : Time
  standing : ∀ key e, entries.get? key = some e → e.expired now = false

namespace PromptLog

def initial : PromptLog := ⟨Table.empty, Time.start, fun key e h => by simp at h⟩

/-- The entries without those that are due. -/
def sweep (entries : Table String LogEntry) (now : Time) : PromptLog where
  entries := entries.filter fun _ e => !e.expired now
  now := now
  standing := fun key e h => by
    rw [Table.get?_filter, Option.filter_eq_some_iff] at h
    simpa using h.2

/-- Answers a call; what is due when it has been made is gone. -/
def call (p : PromptLog) : LogCall → Reading × PromptLog
  | .push key value =>
    (.answer .done,
      sweep (p.entries.put key (LogEntry.appended (p.entries.get? key) value)) p.now)
  | .range key start stop =>
    match p.entries.get? key with
    | none => (.answer (.values []), p)
    | some e => (.answer (.values (readRange e.values start stop)), p)
  | .expire key ttl =>
    match p.entries.get? key with
    | none => (.answer .done, p)
    | some e =>
      match Time.after? p.now ttl with
      | none => (.overflow, p)
      | some t => (.answer .done, sweep (p.entries.put key { e with deadline := some t }) p.now)
  | .delete key => (.answer .done, sweep (p.entries.erase key) p.now)
  | .contains key => (.answer (.found (p.entries.contains key)), p)

def step (p : PromptLog) : Event → Reading × PromptLog
  | .call c => p.call c
  | .size => (.size p.entries.size, p)
  | .isEmpty => (.empty (p.entries.size == 0), p)
  | .advance d => (.answer .done, sweep p.entries (p.now + d))

/-- What the events of a series show. -/
def readings (p : PromptLog) : List Event → List Reading
  | [] => []
  | e :: es => (p.step e).1 :: (p.step e).2.readings es

theorem get?_sweep (entries : Table String LogEntry) (now : Time) (key : String) :
    (sweep entries now).entries.get? key =
      (entries.get? key).filter fun e => !e.expired now :=
  Table.get?_filter _ _ _

theorem filter_standing (p : PromptLog) (key : String) :
    ((p.entries.get? key).filter fun e => !e.expired p.now) = p.entries.get? key := by
  cases he : p.entries.get? key with
  | none => rfl
  | some e => simp [Option.filter, p.standing key e he]

theorem now_step (p : PromptLog) (e : Event) : (p.step e).2.now = p.now + e.elapsed := by
  cases e with
  | call c =>
      cases c with
      | range key start stop =>
          simp only [step, call]
          split <;> rfl
      | expire key ttl =>
          simp only [step, call]
          split
          · rfl
          · split <;> rfl
      | _ => rfl
  | _ => rfl

theorem reading_step (p : PromptLog) (c : LogCall) :
    (p.step (.call c)).1 = reading p.now (p.entries.get? c.key) c := by
  cases c with
  | range key start stop =>
      simp only [step, call, reading, LogCall.key]
      cases p.entries.get? key <;> rfl
  | expire key ttl =>
      show _ = if (p.entries.get? key).isSome = true ∧ Time.limit ≤ p.now + ttl then
        Reading.overflow else Reading.answer .done
      simp only [step, call]
      cases p.entries.get? key with
      | none => rfl
      | some e =>
          by_cases hclock : p.now + ttl < Time.limit
          · simp [Time.after?_eq_some.2 ⟨rfl, hclock⟩, Nat.not_le.2 hclock]
          · simp [Time.after?_eq_none.2 (Nat.not_lt.1 hclock), Nat.not_lt.1 hclock]
  | _ => rfl

/-- An entry with a value appended is due when it was. -/
theorem expired_appended (p : PromptLog) (key value : String) :
    (LogEntry.appended (p.entries.get? key) value).expired p.now = false := by
  cases he : p.entries.get? key with
  | none => rfl
  | some e => exact p.standing key e he

theorem get?_step (p : PromptLog) (e : Event) (key : String) :
    (p.step e).2.entries.get? key = e.alter p.now key (p.entries.get? key) := by
  cases e with
  | call c =>
      cases c with
      | push k value =>
          simp only [step, call, get?_sweep, Table.get?_put, Event.alter]
          by_cases hk : k = key
          · subst hk
            simp [Option.filter, expired_appended]
          · simp [hk, Ne.symm hk, filter_standing]
      | range k start stop =>
          simp only [step, call]
          split <;> rfl
      | expire k ttl =>
          simp only [step, call, Event.alter]
          by_cases hk : k = key
          · subst hk
            cases he : p.entries.get? k with
            | none => simp [he]
            | some e =>
                cases hafter : Time.after? p.now ttl with
                | none => simp [he]
                | some t =>
                    by_cases ht : p.now < t
                    · simp [get?_sweep, Option.filter, LogEntry.expired, ht]
                    · simp [get?_sweep, Option.filter, LogEntry.expired, ht, Nat.not_lt.1 ht]
          · rw [if_neg hk]
            split
            · rfl
            · split
              · rfl
              · simp [get?_sweep, Ne.symm hk, filter_standing]
      | delete k =>
          simp only [step, call, get?_sweep, Table.get?_erase, Event.alter]
          by_cases hk : k = key
          · simp [hk]
          · simp [hk, Ne.symm hk, filter_standing]
      | contains k => rfl
  | size | isEmpty => rfl
  | advance d => exact get?_sweep p.entries (p.now + d) key

end PromptLog

/-! ### Both logs -/

namespace Timed

/-- A log shows what the reference holds. -/
structure Shows (t : Timed) (p : PromptLog) : Prop where
  now : t.now = p.now
  shown : ∀ key, t.shown key = p.entries.get? key

variable {t u : Timed} {p : PromptLog}

theorem shows_initial : Shows initial PromptLog.initial := ⟨rfl, fun _ => rfl⟩

/-- The reference that holds what a log shows. -/
theorem shows_sweep (t : Timed) : Shows t (.sweep t.log.entries t.now) :=
  ⟨rfl, fun key => (PromptLog.get?_sweep t.log.entries t.now key).symm⟩

theorem Shows.size (h : Shows t p) : t.log.size t.now = p.entries.size :=
  Table.size_congr fun key => (Table.get?_filter _ _ _).trans (h.shown key)

/-- One event: both show the same, and go on showing the same. -/
theorem Shows.step (h : Shows t p) (e : Event) :
    (t.step e).1 = (p.step e).1 ∧ Shows (t.step e).2 (p.step e).2 := by
  refine ⟨?_, by rw [now_step, PromptLog.now_step, h.now], fun key => ?_⟩
  · cases e with
    | call c => rw [reading_step, PromptLog.reading_step, h.now, h.shown]
    | size => exact congrArg Reading.size h.size
    | isEmpty => exact congrArg (fun n => Reading.empty (n == 0)) h.size
    | advance d => rfl
  · rw [shown_step, PromptLog.get?_step, h.now, h.shown]

/-- A series of events, by induction on it. -/
theorem Shows.readings (h : Shows t p) (es : List Event) : t.readings es = p.readings es := by
  induction es generalizing t p with
  | nil => rfl
  | cons e es ih =>
      obtain ⟨hreading, hnext⟩ := h.step e
      rw [Timed.readings, PromptLog.readings, hreading, ih hnext]

/-- What a log shows later depends on what it shows now and on nothing else. -/
theorem readings_congr (hnow : t.now = u.now) (hshown : ∀ key, t.shown key = u.shown key)
    (es : List Event) : t.readings es = u.readings es := by
  have hu := shows_sweep u
  have ht : Shows t (.sweep u.log.entries u.now) :=
    ⟨hnow.trans hu.now, fun key => (hshown key).trans (hu.shown key)⟩
  rw [ht.readings, hu.readings]

/-! ### One log and its keys -/

/-- Whether a key is found. -/
def holds (t : Timed) (key : String) : Bool := t.log.contains t.now key

/-- All values of a key. -/
def values (t : Timed) (key : String) : List String := t.log.range t.now key 0 (-1)

theorem holds_eq (t : Timed) (key : String) : t.holds key = (t.shown key).isSome := rfl

theorem holds_eq_false {key : String} : t.holds key = false ↔ t.shown key = none := by
  rw [holds_eq, Option.isSome_eq_false_iff, Option.isNone_iff_eq_none]

theorem values_eq (t : Timed) (key : String) :
    t.values key = ((t.shown key).map LogEntry.values).getD [] :=
  t.log.range_all t.now key

theorem shown_pushed (t : Timed) (key value : String) (d : Duration) :
    (t.after [.call (.push key value), .advance d]).shown key =
      (some (LogEntry.appended (t.shown key) value)).filter fun e => !e.expired (t.now + d) := by
  show ((t.step _).2.step _).2.shown key = _
  rw [shown_step, shown_step, now_step]
  simp [Event.alter, Event.elapsed]

theorem shown_advanced (t : Timed) (key : String) (d : Duration) :
    (t.after [.advance d]).shown key = (t.shown key).filter fun e => !e.expired (t.now + d) :=
  t.shown_step (.advance d) key

/-- By induction on the run: no key is shown without values. -/
theorem values_ne_nil (ht : ∀ key e, t.shown key = some e → e.values ≠ []) (es : List Event)
    (key : String) (e : LogEntry) (he : (t.after es).shown key = some e) : e.values ≠ [] := by
  induction es generalizing t with
  | nil => exact ht key e he
  | cons ev es ih =>
      refine ih (t := (t.step ev).2) (fun key e he => ?_) he
      rw [shown_step] at he
      exact Event.values_alter (fun e' he' => ht key e' he') he

theorem expire_step (t : Timed) (key : String) (ttl : Duration) :
    (t.step (.call (.expire key ttl))).1 =
      if t.holds key = true ∧ Time.limit ≤ t.now + ttl then .overflow else .answer .done :=
  t.reading_step (.expire key ttl)

theorem overflow_iff (t : Timed) (key : String) (ttl : Duration) :
    (t.step (.call (.expire key ttl))).1 = .overflow ↔
      t.holds key = true ∧ Time.limit ≤ t.now + ttl := by
  rw [expire_step]
  split <;> simp [*]

/-- A deadline asked for in vain, or of a key that is not there, changes nothing that shows. -/
theorem readings_expire {key : String} {ttl : Duration}
    (h : t.holds key = false ∨ (t.step (.call (.expire key ttl))).1 = .overflow)
    (es : List Event) : (t.after [.call (.expire key ttl)]).readings es = t.readings es := by
  refine readings_congr (now_step t (.call (.expire key ttl))) (fun x => ?_) es
  refine (shown_step t (.call (.expire key ttl)) x).trans ?_
  simp only [Event.alter]
  split
  case isTrue hkey =>
    subst hkey
    rcases h with h | h
    · rw [holds_eq_false.1 h]
      rfl
    · rw [Time.after?_eq_none.2 ((overflow_iff t key ttl).1 h).2]
      cases t.shown key <;> rfl
  case isFalse => rfl

/-- Two logs that show the same of a key, told the same about it, go on showing the same of it:
by induction on the events, of which those about other keys change nothing that matters. -/
theorem readings_concerning (key : String) (es : List Event) (hnow : t.now = u.now)
    (hshown : t.shown key = u.shown key) :
    ((es.zip (t.readings es)).filter fun p => p.1.concerns key).map Prod.snd =
      u.readings (es.filter (Event.concerns key)) := by
  induction es generalizing t u with
  | nil => rfl
  | cons e es ih =>
      have hnext := now_step t e
      have hkey := shown_step t e key
      cases he : e.concerns key with
      | true =>
          have hreading : (t.step e).1 = (u.step e).1 := by
            cases e with
            | call c =>
                obtain rfl : c.key = key := by simpa [Event.concerns] using he
                rw [reading_step, reading_step, hnow, hshown]
            | advance d => rfl
            | size | isEmpty => simp [Event.concerns] at he
          have hrest := ih (t := (t.step e).2) (u := (u.step e).2)
            (by rw [hnext, now_step, hnow]) (by rw [hkey, shown_step, hnow, hshown])
          simp [readings, he, hreading, hrest]
      | false =>
          have hrest := ih (t := (t.step e).2) (u := u)
            (by rw [hnext, Event.elapsed_of_not_concerns he, hnow]; rfl)
            (by rw [hkey, Event.alter_of_not_concerns he, hshown])
          simp [readings, he, hrest]

/-- The keys that are held, each once. -/
theorem exists_keys (t : Timed) :
    ∃ keys : List String, keys.Nodup ∧ (∀ key, key ∈ keys ↔ t.holds key = true) ∧
      t.log.size t.now = keys.length := by
  refine ⟨(t.log.purge t.now).entries.keys, (t.log.purge t.now).entries.nodup, fun key => ?_, ?_⟩
  · have hshown : (t.log.purge t.now).entries.get? key = t.shown key := Table.get?_filter _ _ _
    rw [Table.mem_keys, hshown, holds_eq, Option.isSome_iff_exists]
  · simp [size, Table.keys, Table.size]

/-- What can be said of a log by what it answers, without regard to when it takes entries out. -/
structure Lapses (t : Timed) : Prop where
  /-- A key is found just if it has values. -/
  held : ∀ key, t.holds key = true ↔ t.values key ≠ []
  /-- Counted are the keys that are found. -/
  counted : ∃ keys : List String, keys.Nodup ∧ (∀ key, key ∈ keys ↔ t.holds key = true) ∧
    (t.step .size).1 = .size keys.length ∧ (t.step .isEmpty).1 = .empty keys.isEmpty
  /-- A key that is not found starts afresh and stays. -/
  fresh : ∀ key value d, t.holds key = false →
    (t.after [.call (.push key value), .advance d]).values key = [value]
  /-- A key that is found gets a value more and vanishes when it would have done without. -/
  lasting : ∀ key value d, t.holds key = true →
    (t.after [.call (.push key value), .advance d]).values key =
      if (t.after [.advance d]).holds key then t.values key ++ [value] else []
  /-- A key that is not found is given no deadline, and nobody is told. -/
  idle : ∀ key ttl, t.holds key = false →
    (t.step (.call (.expire key ttl))).1 = .answer .done ∧
      ∀ es, (t.after [.call (.expire key ttl)]).readings es = t.readings es
  /-- What is shown of a key is what would be shown if no other key were named. -/
  apart : ∀ (key : String) (es : List Event),
    ((es.zip (t.readings es)).filter fun p => p.1.concerns key).map Prod.snd =
      t.readings (es.filter (Event.concerns key))
  /-- The clock gives out just if a key is found and the deadline lies beyond the last reading. -/
  overflows : ∀ key ttl, (t.step (.call (.expire key ttl))).1 = .overflow ↔
    t.holds key = true ∧ Time.limit ≤ t.now + ttl
  /-- When the clock has given out, it is as if it had not been asked. -/
  harmless : ∀ key ttl, (t.step (.call (.expire key ttl))).1 = .overflow →
    ∀ es, (t.after [.call (.expire key ttl)]).readings es = t.readings es

theorem lapses (h : ∀ key e, t.shown key = some e → e.values ≠ []) : t.Lapses where
  held key := by
    rw [holds_eq, values_eq]
    cases he : t.shown key with
    | none => simp
    | some e => simp [h key e he]
  counted := by
    obtain ⟨keys, hnodup, hmem, hsize⟩ := t.exists_keys
    refine ⟨keys, hnodup, hmem, congrArg Reading.size hsize, ?_⟩
    refine congrArg Reading.empty ?_
    rw [hsize]
    cases keys <;> rfl
  fresh key value d hkey := by
    rw [values_eq, shown_pushed, holds_eq_false.1 hkey]
    rfl
  lasting key value d hkey := by
    obtain ⟨e, he⟩ : ∃ e, t.shown key = some e := Option.isSome_iff_exists.1 hkey
    rw [values_eq, shown_pushed, holds_eq, shown_advanced, values_eq, he]
    -- the deadline is that of the entry without the value
    have hdeadline : (LogEntry.mk (e.values ++ [value]) e.deadline).expired (t.now + d) =
      e.expired (t.now + d) := rfl
    cases hexp : e.expired (t.now + d) <;> simp [Option.filter, hdeadline, hexp, LogEntry.appended]
  idle key ttl hkey := by
    refine ⟨?_, readings_expire (.inl hkey)⟩
    rw [expire_step, if_neg (fun hlive => ?_)]
    exact Bool.false_ne_true (hkey.symm.trans hlive.1)
  apart key es := readings_concerning key es rfl rfl
  overflows := t.overflow_iff
  harmless key ttl hoverflow := readings_expire (.inr hoverflow)

end Timed

/-- **Lazy eviction is unobservable.** Whatever is asked of a log, and however time passes, it
answers as a log does that takes every entry out the moment it is due. -/
theorem eviction_unseen (es : List Event) :
    Timed.initial.readings es = PromptLog.initial.readings es ∧
      (Timed.initial.after es).Lapses :=
  ⟨Timed.shows_initial.readings es,
    Timed.lapses (Timed.values_ne_nil (fun _ _ he => by cases he) es)⟩

/-- A second before its deadline a key is there, at its deadline it is not, and it starts anew. -/
example : Timed.initial.readings [.call (.push "k" "a"), .call (.expire "k" (.ofSeconds 10)),
      .advance (.ofSeconds 9), .call (.contains "k"), .advance (.ofSeconds 1),
      .call (.contains "k"), .call (.push "k" "b"), .call (.range "k" 0 (-1))] =
    [.answer .done, .answer .done, .answer .done, .answer (.found true), .answer .done,
      .answer (.found false), .answer .done, .answer (.values ["b"])] := by decide

end ExpiringLog

end ChatServer
