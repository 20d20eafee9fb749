import ChatServer.Log.Expiring

/-!
What a log shows at a time is its live entries. Every operation is described here by what it does
to them, so that nothing after this has to know which expired entries still lie about.
-/

namespace ChatServer

/-- An entry with a value appended; an absent one starts afresh and without a deadline. -/
def LogEntry.appended (e : Option LogEntry) (value : String) : LogEntry :=
  match e with
  | none => ⟨[value], none⟩
  | some e => { e with values := e.values ++ [value] }

/-- What has expired stays expired. -/
theorem LogEntry.filter_expired (e : Option LogEntry) {now later : Time} (h : now ≤ later) :
    ((e.filter fun e => !e.expired now).filter fun e => !e.expired later) =
      e.filter fun e => !e.expired later := by
  cases e with
  | none => rfl
  | some e =>
      by_cases hnow : e.expired now
      · have hlater : e.expired later = true := by
          cases hd : e.deadline with
          | none => simp [LogEntry.expired, hd] at hnow
          | some d =>
              simp only [LogEntry.expired, hd, Option.any_some, decide_eq_true_eq] at hnow ⊢
              exact Nat.le_trans hnow h
        simp [Option.filter, hnow, hlater]
      · simp [Option.filter, hnow]

namespace ExpiringLog

theorem live?_eq_some {log : ExpiringLog} {now : Time} {key : String} {e : LogEntry} :
    log.live? now key = some e ↔ log.entries.get? key = some e ∧ e.expired now = false := by
  simp [live?, Option.filter_eq_some_iff]

/-- As time passes entries vanish, and none comes back. -/
theorem live?_later (log : ExpiringLog) {now later : Time} (h : now ≤ later) (key : String) :
    log.live? later key = (log.live? now key).filter fun e => !e.expired later :=
  (LogEntry.filter_expired (log.entries.get? key) h).symm

/-- Taking an expired entry out shows nowhere. -/
@[simp] theorem live?_evict (log : ExpiringLog) (now : Time) (key x : String) :
    (log.evict now key).live? now x = log.live? now x := by
  unfold evict
  cases he : log.entries.get? key with
  | none => rfl
  | some e =>
      by_cases hexp : e.expired now
      · by_cases hx : x = key
        · subst hx
          simp [live?, he, hexp, Option.filter]
        · simp [live?, hexp, hx]
      · simp [hexp]

@[simp] theorem live?_purge (log : ExpiringLog) (now : Time) (x : String) :
    (log.purge now).live? now x = log.live? now x := by
  simp only [live?, purge, Table.get?_filter]
  cases log.entries.get? x with
  | none => rfl
  | some e => by_cases hexp : e.expired now <;> simp [Option.filter, hexp]

@[simp] theorem live?_delete (log : ExpiringLog) (now : Time) (key x : String) :
    (log.delete key).live? now x = if x = key then none else log.live? now x := by
  by_cases hx : x = key <;> simp [live?, delete, hx]

@[simp] theorem live?_push (log : ExpiringLog) (now : Time) (key value x : String) :
    (log.push now key value).live? now x =
      if x = key then some (LogEntry.appended (log.live? now key) value)
      else log.live? now x := by
  unfold push
  cases he : log.live? now key with
  | none => by_cases hx : x = key <;> simp [live?, hx, LogEntry.appended, LogEntry.expired]
  | some e =>
      have hexp : e.expired now = false := (live?_eq_some.1 he).2
      by_cases hx : x = key
      · simp only [LogEntry.expired] at hexp
        simp [live?, hx, LogEntry.appended, LogEntry.expired, hexp]
      · simp [live?, hx]

/-- A deadline that the clock can show is set. -/
theorem live?_expire? (log : ExpiringLog) {now : Time} {ttl : Duration} (key : String)
    (h : now + ttl < Time.limit) :
    ∃ log', log.expire? now key ttl = some log' ∧ ∀ x, log'.live? now x =
      if x = key then
        (log.live? now key).bind fun e =>
          if 0 < ttl then some { e with deadline := some (now + ttl) } else none
      else log.live? now x := by
  have hafter : Time.after? now ttl = some (now + ttl) := Time.after?_eq_some.2 ⟨rfl, h⟩
  unfold expire?
  cases he : log.live? now key with
  | none =>
      refine ⟨_, rfl, fun x => ?_⟩
      by_cases hx : x = key <;> simp [hx, he]
  | some e =>
      refine ⟨_, by rw [hafter]; rfl, fun x => ?_⟩
      by_cases hx : x = key
      · -- a deadline that is reached at once takes the key out
        by_cases httl : 0 < ttl
        · have hlasts : LogEntry.expired { e with deadline := some (now + ttl) } now = false :=
            decide_eq_false (Nat.not_le.2 (Nat.lt_add_of_pos_right httl))
          simp [live?, hx, httl, hlasts, Option.filter]
        · obtain rfl : ttl = 0 := Nat.eq_zero_of_not_pos httl
          simp [live?, hx, LogEntry.expired, Option.filter]
      · simp [live?, hx]

/-- A deadline beyond the clock is asked for just if it is asked for a live key. -/
theorem expire?_eq_none (log : ExpiringLog) {now : Time} {key : String} {ttl : Duration} :
    log.expire? now key ttl = none ↔
      (log.live? now key).isSome = true ∧ Time.limit ≤ now + ttl := by
  unfold expire?
  cases hlive : log.live? now key with
  | none => simp
  | some e => simp [Time.after?_eq_none]

/-- The whole of a live key is read between its first and its last position. -/
theorem readRange_all (vs : List String) : readRange vs 0 (-1) = vs := by
  cases vs with
  | nil => rfl
  | cons v vs =>
      have hlen : ((v :: vs).length : Int) + -1 = vs.length := by
        simp only [List.length_cons]
        omega
      have hresolve : resolveRange (v :: vs).length 0 (-1) = some (0, vs.length) := by
        unfold resolveRange
        simp only [hlen]
        simp
      rw [readRange, hresolve]
      simp

theorem range_all (log : ExpiringLog) (now : Time) (key : String) :
    log.range now key 0 (-1) = ((log.live? now key).map LogEntry.values).getD [] := by
  unfold range
  cases log.live? now key with
  | none => rfl
  | some e => exact readRange_all e.values

end ExpiringLog

end ChatServer
