import ChatServer.Log.Key
import ChatServer.Message.Record
import ChatServer.Proofs.Log.Attempt
import Mathlib.Data.List.Induction

/-!
What ought to be found of the direct messages under one key, said without a log: of all that was
sent under the key, what nobody has deleted since and no silence as long as the time to live has
followed, be it ended by a further message or lasting still. Attempts that work leave just that in a
log, whatever is attempted under other keys in between.
-/

namespace ChatServer

/-- What has been asked of the store of direct messages. -/
inductive Letter
  | sent (time : Time) (sender receiver : UserId) (text : String)
  /-- Everything under the key of a pair was deleted. -/
  | torn (time : Time) (sender receiver : UserId)
  deriving DecidableEq

namespace Letter

def time : Letter → Time
  | sent time .. | torn time .. => time

def key : Letter → String
  | sent _ sender receiver _ | torn _ sender receiver => directKey sender receiver

/-- Whether a message sent at `time` is still there after these letters: nothing is deleted, and
from each message to the next and from the last one to now less than the time to live passes. -/
def stands (ttl : Duration) (now : Time) : Time → List Letter → Bool
  | time, [] => now < time + ttl
  | _, torn .. :: _ => false
  | time, sent next .. :: later => next < time + ttl && stands ttl now next later

/-- The messages that are still there, as they were sent. -/
def standing (ttl : Duration) (now : Time) : List Letter → List DirectRecord
  | [] => []
  | torn .. :: later => standing ttl now later
  | sent time sender receiver text :: later =>
    if stands ttl now time later then
      DirectRecord.new sender receiver text :: standing ttl now later
    else standing ttl now later

/-- The attempt that a letter is at a store in good order. -/
def attempt (ttl : Duration) : Letter → Attempt
  | sent time sender receiver text => ⟨time, Outages.none,
      .append (directKey sender receiver) (DirectRecord.new sender receiver text).json ttl⟩
  | torn time sender receiver => ⟨time, Outages.none, .purge (directKey sender receiver)⟩

variable (ttl : Duration) (now : Time) (ls : List Letter) (time : Time) (sender receiver : UserId)
  (text : String)

theorem stands_torn (first : Time) :
    stands ttl now first (ls ++ [torn time sender receiver]) = false := by
  induction ls generalizing first with
  | nil => rfl
  | cons l ls ih =>
      cases l with
      | torn => rfl
      | sent next => simp [stands, ih]

theorem stands_sent (first : Time) :
    stands ttl now first (ls ++ [sent time sender receiver text]) =
      (stands ttl time first ls && decide (now < time + ttl)) := by
  induction ls generalizing first with
  | nil => rfl
  | cons l ls ih =>
      cases l with
      | torn => rfl
      | sent next => simp [stands, ih, Bool.and_assoc]

theorem standing_torn : standing ttl now (ls ++ [torn time sender receiver]) = [] := by
  induction ls with
  | nil => rfl
  | cons l ls ih =>
      cases l with
      | torn => exact ih
      | sent next => simp [standing, stands_torn, ih]

/-- A message joins what is there when it is sent, and all of it lasts until the time to live has
passed. -/
theorem standing_sent : standing ttl now (ls ++ [sent time sender receiver text]) =
    if now < time + ttl then standing ttl time ls ++ [DirectRecord.new sender receiver text]
    else [] := by
  induction ls with
  | nil =>
      by_cases hnow : now < time + ttl
      · simp [standing, stands, hnow]
      · simp [standing, stands, hnow]
  | cons l ls ih =>
      cases l with
      | torn => exact ih
      | sent next =>
          simp only [List.cons_append, standing, stands_sent, ih]
          by_cases hnow : now < time + ttl
          · simp only [hnow, decide_true, Bool.and_true, if_true]
            split <;> rfl
          · simp [hnow]

end Letter

namespace Attempt

/-- Whether an attempt is made under a key. -/
def under (key : String) (a : Attempt) : Bool :=
  match a.write with
  | .append k _ _ | .purge k => k = key
  | .flush _ => false

variable {key : String}

theorem alter_of_not_under {a : Attempt} (h : a.under key = false) (e : Option LogEntry) :
    a.alter key e = e := by
  obtain ⟨now, outages, x⟩ := a
  cases x <;> simp_all [under, alter, clears, stored?]

/-- Attempts under other keys make no difference to a key. -/
theorem left_filter_under {as : List Attempt} (has : as.Pairwise fun a b => a.now ≤ b.now)
    (e : Option LogEntry) {now : Time} (hnow : ∀ a ∈ as, a.now ≤ now) :
    (left key e as).filter (fun e => !e.expired now) =
      (left key e (as.filter (under key))).filter fun e => !e.expired now := by
  induction as using List.reverseRecOn generalizing now with
  | nil => rfl
  | append_singleton as a ih =>
      obtain ⟨hbefore, -, hlast⟩ := List.pairwise_append.1 has
      have hupto := ih hbefore fun b hb => hlast b hb a (List.mem_singleton_self a)
      have ha : a.now ≤ now := hnow a (by simp)
      rw [left_append, List.filter_append]
      cases hunder : a.under key with
      | true =>
          have hone : [a].filter (under key) = [a] := by simp [hunder]
          rw [hone, left_append]
          simp only [left, List.foldl_cons, List.foldl_nil] at hupto ⊢
          rw [hupto]
      | false =>
          have hnone : [a].filter (under key) = [] := by simp [hunder]
          rw [hnone, List.append_nil]
          simp only [left, List.foldl_cons, List.foldl_nil, alter_of_not_under hunder] at hupto ⊢
          rw [hupto, LogEntry.filter_expired _ ha]

/-- A message joins the values under its key, and the time to live of them all begins anew. -/
theorem alter_sent {ttl : Duration} {time : Time} (hclock : time + ttl < Time.limit)
    (sender receiver : UserId) (text : String) (e : Option LogEntry) :
    (Letter.attempt ttl (.sent time sender receiver text)).alter (directKey sender receiver) e =
      if time < time + ttl then
        some ⟨(e.map LogEntry.values).getD [] ++ [(DirectRecord.new sender receiver text).json],
          some (time + ttl)⟩
      else none := by
  have hvalues : ∀ value, (LogEntry.appended e value).values =
      (e.map LogEntry.values).getD [] ++ [value] := by cases e <;> exact fun _ => rfl
  simp [alter, Letter.attempt, clears, stored?, dated?, Outages.none, Time.after?, hclock, hvalues]

/-- Letters leave under their key what ought to stand of them. -/
theorem values_left_letters {ttl : Duration} {ls : List Letter}
    (hkey : ∀ l ∈ ls, l.key = key) (hls : ls.Pairwise fun l l' => l.time ≤ l'.time) {now : Time}
    (hnow : ∀ l ∈ ls, l.time ≤ now) (hclock : now + ttl < Time.limit) :
    (((left key none (ls.map (Letter.attempt ttl))).filter fun e => !e.expired now).map
      LogEntry.values).getD [] = (Letter.standing ttl now ls).map DirectRecord.json := by
  induction ls using List.reverseRecOn generalizing now with
  | nil => rfl
  | append_singleton ls l ih =>
      obtain ⟨hbefore, -, hlast⟩ := List.pairwise_append.1 hls
      have hl : l.time ≤ now := hnow l (by simp)
      have hclock' : l.time + ttl < Time.limit :=
        Nat.lt_of_le_of_lt (Nat.add_le_add_right hl ttl) hclock
      have hupto := ih (fun l' hl' => hkey l' (List.mem_append_left _ hl')) hbefore
        (fun l' hl' => hlast l' hl' l (List.mem_singleton_self l)) hclock'
      obtain rfl : l.key = key := hkey l (by simp)
      rw [List.map_append, left_append, List.map_singleton, left, List.foldl_cons, List.foldl_nil]
      cases l with
      | torn time sender receiver =>
          simp [Letter.attempt, Letter.key, alter, clears, Outages.none, Letter.standing_torn]
      | sent time sender receiver text =>
          simp only [Letter.time, Letter.key] at hupto hl hclock' ⊢
          rw [alter_sent hclock', Letter.standing_sent, Letter.attempt, hupto]
          by_cases hfresh : now < time + ttl
          · have httl : time < time + ttl := Nat.lt_of_le_of_lt hl hfresh
            simp [Option.filter, LogEntry.expired, hfresh, httl]
          · by_cases httl : time < time + ttl <;>
              simp [Option.filter, LogEntry.expired, hfresh, httl]

end Attempt

end ChatServer
