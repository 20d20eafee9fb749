import ChatServer.Clock
import ChatServer.Message.Record

/-!
What ought to be remembered of a room, said without a log: of all that was said in it, what no
deletion of the room and no silence as long as the time to live has followed. A silence that still
lasts counts like one that a later message has ended.
-/

namespace ChatServer

/-- What has happened to a room's history. -/
inductive Mark
  /-- A message was submitted. -/
  | said (time : Time) (record : ChatRecord)
  /-- The room existed and was deleted. -/
  | purged

namespace Mark

/-- Whether the time to live has passed since some time. -/
def passed (ttl : Duration) (since now : Time) : Bool := decide (since + ttl ≤ now)

/-- Whether something said at `time` is still remembered after these marks: the room is not
deleted, and no message comes `ttl` or more after the one before it. -/
def lasts (ttl : Duration) (time : Time) : List Mark → Bool
  | [] => true
  | purged :: _ => false
  | said next _ :: rest => !passed ttl time next && lasts ttl next rest

/-- The messages that every later mark has left standing. -/
def kept (ttl : Duration) : List Mark → List ChatRecord
  | [] => []
  | purged :: rest => kept ttl rest
  | said time record :: rest =>
    if lasts ttl time rest then record :: kept ttl rest else kept ttl rest

/-- The time of the last message. -/
def lastSaid? : List Mark → Option Time
  | [] => none
  | purged :: rest => lastSaid? rest
  | said time _ :: rest => some ((lastSaid? rest).getD time)

/-- Whether the time to live has passed since the last message. -/
def lapsed (ttl : Duration) (now : Time) (marks : List Mark) : Bool :=
  (lastSaid? marks).any fun time => passed ttl time now

/-- What is remembered at a time. -/
def remembered (ttl : Duration) (now : Time) (marks : List Mark) : List ChatRecord :=
  if lapsed ttl now marks then [] else kept ttl marks

theorem lasts_purged (ttl : Duration) (time : Time) (marks : List Mark) :
    lasts ttl time (marks ++ [purged]) = false := by
  induction marks generalizing time with
  | nil => rfl
  | cons mark marks ih =>
      cases mark with
      | purged => rfl
      | said next record => simp [lasts, ih]

theorem lasts_said (ttl : Duration) (time now : Time) (record : ChatRecord)
    (marks : List Mark) :
    lasts ttl time (marks ++ [said now record]) =
      (lasts ttl time marks && !passed ttl ((lastSaid? marks).getD time) now) := by
  induction marks generalizing time with
  | nil => simp [lasts, lastSaid?]
  | cons mark marks ih =>
      cases mark with
      | purged => rfl
      | said next record' => simp [lasts, lastSaid?, ih, Bool.and_assoc]

theorem lastSaid?_said (now : Time) (record : ChatRecord) (marks : List Mark) :
    lastSaid? (marks ++ [said now record]) = some now := by
  induction marks with
  | nil => rfl
  | cons mark marks ih =>
      cases mark with
      | purged => exact ih
      | said time record' => simp [lastSaid?, ih]

theorem kept_of_lastSaid?_eq_none {ttl : Duration} {marks : List Mark}
    (h : lastSaid? marks = none) : kept ttl marks = [] := by
  induction marks with
  | nil => rfl
  | cons mark marks ih =>
      cases mark with
      | purged => exact ih h
      | said time record => simp [lastSaid?] at h

theorem kept_purged (ttl : Duration) (marks : List Mark) : kept ttl (marks ++ [purged]) = [] := by
  induction marks with
  | nil => rfl
  | cons mark marks ih =>
      cases mark with
      | purged => exact ih
      | said time record => simp [kept, lasts_purged, ih]

/-- A new message joins what is remembered as it comes. -/
theorem kept_said (ttl : Duration) (now : Time) (record : ChatRecord) (marks : List Mark) :
    kept ttl (marks ++ [said now record]) = remembered ttl now marks ++ [record] := by
  induction marks with
  | nil => rfl
  | cons mark marks ih =>
      cases mark with
      | purged => exact ih
      | said time first =>
          simp only [List.cons_append, kept, lasts_said, ih]
          -- the silence before the new message is too long for all that came before, or for nothing
          cases hlapsed : passed ttl ((lastSaid? marks).getD time) now with
          | true =>
              have hrest : remembered ttl now marks = [] := by
                cases hlast : lastSaid? marks with
                | none => simp [remembered, kept_of_lastSaid?_eq_none hlast]
                | some last => simp_all [remembered, lapsed]
              simp [hrest]
              simp [remembered, lapsed, lastSaid?, hlapsed]
          | false =>
              have hrest : remembered ttl now marks = kept ttl marks := by
                cases hlast : lastSaid? marks with
                | none => simp [remembered, lapsed, hlast]
                | some last => simp_all [remembered, lapsed]
              simp only [hrest]
              simp only [remembered, lapsed, lastSaid?, kept, Option.any_some, hlapsed,
                Bool.not_false, Bool.and_true, Bool.false_eq_true, if_false]
              split <;> rfl

theorem eq_or_mem_of_mem_kept_said {ttl : Duration} {time : Time} {first record : ChatRecord}
    {marks : List Mark} (h : record ∈ kept ttl (said time first :: marks)) :
    record = first ∨ record ∈ kept ttl marks := by
  unfold kept at h
  split at h
  · exact List.mem_cons.1 h
  · exact .inr h

theorem exists_said_of_mem_kept {ttl : Duration} {marks : List Mark} {record : ChatRecord}
    (h : record ∈ kept ttl marks) : ∃ time, said time record ∈ marks := by
  induction marks with
  | nil => simp [kept] at h
  | cons mark marks ih =>
      cases mark with
      | purged =>
          obtain ⟨time, hmem⟩ := ih h
          exact ⟨time, List.mem_cons_of_mem _ hmem⟩
      | said time first =>
          rcases eq_or_mem_of_mem_kept_said h with rfl | h
          · exact ⟨time, List.mem_cons_self⟩
          · obtain ⟨time', hmem⟩ := ih h
            exact ⟨time', List.mem_cons_of_mem _ hmem⟩

/-- Only what was said is remembered. -/
theorem exists_said_of_mem_remembered {ttl : Duration} {now : Time} {marks : List Mark}
    {record : ChatRecord} (h : record ∈ remembered ttl now marks) :
    ∃ time, said time record ∈ marks := by
  unfold remembered at h
  split at h
  · simp at h
  · exact exists_said_of_mem_kept h

theorem remembered_purged (ttl : Duration) (now : Time) (marks : List Mark) :
    remembered ttl now (marks ++ [purged]) = [] := by
  simp [remembered, kept_purged]

/-- Without a time to live nothing is remembered for a moment. -/
theorem remembered_said (ttl : Duration) (now : Time) (record : ChatRecord)
    (marks : List Mark) :
    remembered ttl now (marks ++ [said now record]) =
      if 0 < ttl then remembered ttl now marks ++ [record] else [] := by
  by_cases httl : 0 < ttl
  · have hnot : passed ttl now now = false :=
      decide_eq_false (Nat.not_le.2 (Nat.lt_add_of_pos_right httl))
    simp [remembered, lapsed, lastSaid?_said, kept_said, httl, hnot]
  · have hpassed : passed ttl now now = true :=
      decide_eq_true (Nat.le_of_eq (by rw [Nat.eq_zero_of_not_pos httl]; rfl))
    simp [remembered, lapsed, lastSaid?_said, httl, hpassed]

/-- As time passes, all that is remembered is remembered or nothing is. -/
theorem remembered_later (ttl : Duration) {now later : Time} (h : now ≤ later)
    (marks : List Mark) :
    remembered ttl later marks =
      if lapsed ttl later marks then [] else remembered ttl now marks := by
  unfold remembered lapsed
  cases lastSaid? marks with
  | none => rfl
  | some last =>
      cases hlater : passed ttl last later with
      | true => simp [hlater]
      | false =>
          have hnow : passed ttl last now = false := by
            simp only [passed, decide_eq_false_iff_not] at hlater ⊢
            exact fun hle => hlater (Nat.le_trans hle h)
          simp [hlater, hnow]

end Mark

end ChatServer
