import ChatServer.Proofs.Log.Line

/-!
Attempts at writes. What an attempt makes of a log follows from the write, the moment and what is
out of order at that moment, and from nothing else: not from who makes it, nor from the line in
which the write waited.
-/

namespace ChatServer

/-- A write, the moment at which it is attempted and what is out of order then. -/
structure Attempt where
  now : Time
  outages : Outages
  write : LogWrite
  deriving DecidableEq

namespace Attempt

/-- The log after an attempt. A value is appended and, if that worked, the deadline of its key is
set; a purge deletes; a call that fails changes nothing. -/
def perform (log : ExpiringLog) (a : Attempt) : ExpiringLog :=
  match a.write with
  | .append key value ttl =>
    if a.outages.push.isSome then log
    else
      let pushed := log.push a.now key value
      if a.outages.expire.isSome then pushed else (pushed.expire? a.now key ttl).getD pushed
  | .purge key => if a.outages.delete.isSome then log else log.delete key
  | .flush _ => log

/-- The value that an attempt leaves under a key. -/
def stored? (key : String) (a : Attempt) : Option String :=
  match a.write with
  | .append k value _ => if k = key ∧ a.outages.push = none then some value else none
  | _ => none

/-- The deadline that an attempt gives a key. -/
def dated? (key : String) (a : Attempt) : Option Time :=
  match a.write with
  | .append k _ ttl =>
    if k = key ∧ a.outages.push = none ∧ a.outages.expire = none then Time.after? a.now ttl
    else none
  | _ => none

/-- Whether an attempt takes a key out of the log. -/
def clears (key : String) (a : Attempt) : Bool :=
  match a.write with
  | .purge k => k = key ∧ a.outages.delete = none
  | _ => false

/-- What an attempt makes of the live entry of a key. -/
def alter (key : String) (e : Option LogEntry) (a : Attempt) : Option LogEntry :=
  if a.clears key then none
  else
    match a.stored? key with
    | none => e
    | some value =>
      let e := LogEntry.appended e value
      match a.dated? key with
      | none => some e
      -- a deadline that is reached at once takes the key out
      | some t => if a.now < t then some { e with deadline := some t } else none

/-- What attempts that are made one after the other leave under a key, what is due when one is made
having vanished. -/
def left (key : String) (e : Option LogEntry) (as : List Attempt) : Option LogEntry :=
  as.foldl (fun e a => a.alter key (e.filter fun e => !e.expired a.now)) e

theorem left_append (key : String) (e : Option LogEntry) (as bs : List Attempt) :
    left key e (as ++ bs) = left key (left key e as) bs := List.foldl_append

theorem stored?_of_dated? {key : String} {a : Attempt} {t : Time} (h : a.dated? key = some t) :
    (a.stored? key).isSome = true := by
  unfold dated? at h
  unfold stored?
  split at h
  · split at h
    case isTrue hdated =>
      rw [if_pos ⟨hdated.1, hdated.2.1⟩]
      rfl
    case isFalse => simp at h
  · simp at h

/-- A deadline is set for a time to live after the attempt. -/
theorem dated?_eq_some {key : String} {a : Attempt} {t : Time} (h : a.dated? key = some t) :
    ∃ value ttl, a.write = .append key value ttl ∧ t = a.now + ttl := by
  unfold dated? at h
  cases hwrite : a.write with
  | append k value ttl =>
      simp only [hwrite] at h
      split at h
      case isTrue hdated =>
        rw [hdated.1]
        exact ⟨value, ttl, rfl, (Time.after?_eq_some.1 h).1.symm⟩
      case isFalse => simp at h
  | purge k => simp [hwrite] at h
  | flush ticket => simp [hwrite] at h

/-- Only the key of the write shows anything of an attempt. -/
theorem live?_perform (log : ExpiringLog) (a : Attempt) (key : String) :
    (perform log a).live? a.now key = a.alter key (log.live? a.now key) := by
  obtain ⟨now, outages, x⟩ := a
  cases x with
  | append k value ttl =>
      cases hpush : outages.push with
      | some reason => simp [perform, alter, clears, stored?, hpush]
      | none =>
          cases hexpire : outages.expire with
          | some reason =>
              by_cases hk : k = key
              · subst hk
                simp [perform, alter, clears, stored?, dated?, hpush, hexpire]
              · simp [perform, alter, clears, stored?, hpush, hexpire, hk, Ne.symm hk]
          | none =>
              by_cases hclock : now + ttl < Time.limit
              · obtain ⟨log', hlog', hlive⟩ := (log.push now k value).live?_expire? k hclock
                by_cases hk : k = key
                · subst hk
                  simp [perform, alter, clears, stored?, dated?, hpush, hexpire, hlog', hlive,
                    Time.after?, hclock]
                · simp [perform, alter, clears, stored?, hpush, hexpire, hlog', hlive, hk,
                    Ne.symm hk]
              · have hnone : (log.push now k value).expire? now k ttl = none := by
                  simp [ExpiringLog.expire?, Time.after?, hclock]
                by_cases hk : k = key
                · subst hk
                  simp [perform, alter, clears, stored?, dated?, hpush, hexpire, hnone,
                    Time.after?, hclock]
                · simp [perform, alter, clears, stored?, hpush, hexpire, hnone, hk, Ne.symm hk]
  | purge k =>
      cases hdelete : outages.delete with
      | some reason => simp [perform, alter, clears, stored?, hdelete]
      | none =>
          by_cases hk : k = key
          · subst hk
            simp [perform, alter, clears, hdelete]
          · simp [perform, alter, clears, stored?, hdelete, hk, Ne.symm hk]
  | flush ticket => simp [perform, alter, clears, stored?]

end Attempt

namespace Store

variable {α : Type}

theorem log_call (s : Store α) (now : Time) (c : LogCall) :
    (s.call now c).2.log =
      if (s.outages.reason c).isSome then s.log else (s.log.call now c).2 := by
  unfold call
  cases s.outages.reason c with
  | some reason => rfl
  | none =>
      dsimp only
      split <;> simp [*]

/-- Whoever attempts a write, the log is changed as by the attempt. -/
theorem log_apply (s : Store α) (now : Time) (x : LogWrite) :
    (s.apply now x).log = Attempt.perform s.log ⟨now, s.outages, x⟩ := by
  cases x with
  | append key value ttl =>
      rw [apply, write_eq]
      cases hpush : s.outages.push with
      | some reason => simp [call, Outages.reason, hpush, Attempt.perform]
      | none =>
          have hlog : (s.call now (.push key value)).2.log = s.log.push now key value := by
            simp [log_call, Outages.reason, hpush, ExpiringLog.call]
          have hdone : (s.call now (.push key value)).1 = .answered .done := by
            simp [call, Outages.reason, hpush, ExpiringLog.call]
          rw [if_pos hdone, log_call, outages_call, hlog]
          cases hexpire : s.outages.expire with
          | some reason => simp [Outages.reason, hpush, hexpire, Attempt.perform]
          | none =>
              simp only [Outages.reason, hpush, hexpire, Attempt.perform, ExpiringLog.call,
                Option.isSome_none, Bool.false_eq_true, if_false]
              split <;> simp [*]
  | purge key => rw [apply, log_call]; rfl
  | flush ticket => rfl

end Store

namespace LogWriter

variable {α : Type}

/-- An attempt changes the store as the write by itself says; afterwards the writer goes on, unless
the deadline of a value that was appended lies beyond the clock. -/
theorem attempt_cases (w : LogWriter) (s : Store α) (now : Time) (x : LogWrite)
    (rest : List LogWrite) :
    (w.attempt s now x rest).2 = s.apply now x ∧
      ((w.attempt s now x rest).1 = w.advance x rest ∨
        x.isAppend = true ∧ ¬x.Timely now ∧
          (w.attempt s now x rest).1 = { w with queue := [], phase := .dead }) := by
  by_cases htimely : x.Timely now
  · rw [w.attempt_eq s rest htimely]
    exact ⟨rfl, .inl rfl⟩
  · cases x with
    | append key value ttl =>
        cases hwrite : s.write now key value ttl with
        | mk r s' =>
            cases r with
            | overflow =>
                exact ⟨by simp [attempt, Store.apply, hwrite], .inr ⟨rfl, htimely, by
                  simp [attempt, hwrite]⟩⟩
            | answered a =>
                exact ⟨by simp [attempt, Store.apply, hwrite], .inl (by
                  simp [attempt, hwrite, advance, LogWrite.isAppend, LogWrite.ticket?])⟩
            | unavailable reason =>
                exact ⟨by simp [attempt, Store.apply, hwrite], .inl (by
                  simp [attempt, hwrite, advance, LogWrite.isAppend, LogWrite.ticket?])⟩
    | purge key => exact absurd trivial htimely
    | flush ticket => exact absurd trivial htimely

end LogWriter

end ChatServer
