import ChatServer.Proofs.History.Remembered
import ChatServer.Proofs.Hub.Calm
import ChatServer.Proofs.Hub.Run
import ChatServer.Proofs.RoundTrip.Record

/-!
What a room's history shows over a store that works and has no gate. The marks of a run are read
off its events and their answers; the invariant says that under the room's key the log shows just
what ought to be remembered after these marks, and one step of it adds one mark.
-/

namespace ChatServer

/-! ### Keys -/

theorem roomKey_inj {r s : RoomId} : roomKey r = roomKey s ↔ r = s := by
  refine ⟨fun h => ?_, fun h => by rw [h]⟩
  have hlist := congrArg String.toList h
  simp only [roomKey, String.toList_append, List.append_cancel_left_eq] at hlist
  obtain ⟨r⟩ := r
  obtain ⟨s⟩ := s
  exact congrArg RoomId.mk (String.toList_inj.1 hlist)

/-- Direct messages are kept apart from what is said in rooms. -/
theorem directKey_ne_roomKey (sender receiver : UserId) (room : RoomId) :
    directKey sender receiver ≠ roomKey room := by
  intro h
  have hlist := congrArg (fun s : String => s.toList.head?) h
  simp [roomKey, directKey, String.toList_append] at hlist

namespace Mark

/-- The entry of the log that shows what is remembered. -/
def entry (ttl : Duration) (now : Time) (marks : List Mark) : Option LogEntry :=
  if remembered ttl now marks = [] then none
  else some ⟨(remembered ttl now marks).map ChatRecord.json, (lastSaid? marks).map (· + ttl)⟩

theorem values_entry (ttl : Duration) (now : Time) (marks : List Mark) :
    ((entry ttl now marks).map LogEntry.values).getD [] =
      (remembered ttl now marks).map ChatRecord.json := by
  unfold entry
  split
  · simp [*]
  · rfl

theorem entry_purged (ttl : Duration) (now : Time) (marks : List Mark) :
    entry ttl now (marks ++ [purged]) = none := by
  simp [entry, remembered_purged]

theorem entry_said (ttl : Duration) (now : Time) (record : ChatRecord) (marks : List Mark) :
    entry ttl now (marks ++ [said now record]) =
      if 0 < ttl then
        some { LogEntry.appended (entry ttl now marks) record.json with
          deadline := some (now + ttl) }
      else none := by
  unfold entry
  rw [remembered_said, lastSaid?_said]
  by_cases httl : 0 < ttl
  · by_cases hnil : remembered ttl now marks = []
    · simp [httl, hnil, LogEntry.appended]
    · simp [httl, hnil, LogEntry.appended]
  · simp [httl]

/-- An entry vanishes when the time to live has passed. -/
theorem entry_later (ttl : Duration) {now later : Time} (h : now ≤ later) (marks : List Mark) :
    entry ttl later marks = (entry ttl now marks).filter fun e => !e.expired later := by
  unfold entry
  rw [remembered_later ttl h]
  cases hlast : lastSaid? marks with
  | none =>
      have hnil : remembered ttl now marks = [] := by
        simp [remembered, lapsed, hlast, kept_of_lastSaid?_eq_none hlast]
      simp [lapsed, hlast, hnil]
  | some last =>
      by_cases hnil : remembered ttl now marks = []
      · simp [hnil]
      · simp only [lapsed, hlast, Option.any_some, hnil, if_false, Option.map_some]
        have hexpired : LogEntry.expired
            ⟨(remembered ttl now marks).map ChatRecord.json, some (last + ttl)⟩ later =
              passed ttl last later := rfl
        cases hpassed : passed ttl last later with
        | true => simp [Option.filter, hexpired, hpassed]
        | false => simp [Option.filter, hexpired, hpassed, hnil]

end Mark

/-- A moment of a server over a store that nobody tampers with, at a civil time that exists. -/
def Moment.Regular (m : Moment) : Prop := m.event.isRegular = true ∧ m.wall.IsValid

instance (m : Moment) : Decidable m.Regular := inferInstanceAs (Decidable (_ ∧ _))

namespace Hub

/-! ### The marks of a run -/

/-- The mark that a moment leaves on a room's history: a message was submitted to it, or it was
deleted and had been there. A command that was not carried out leaves none. -/
def mark (h : Hub) (room : RoomId) (m : Moment) : Option Mark :=
  match m.event, (h.face m).1 with
  | .submit sender r text, .done =>
    if r = room then some (.said h.journal.now ⟨sender, room, text, m.wall⟩) else none
  | .delete r, .done =>
    if r = room && (h.registry.count room).isSome then some .purged else none
  | _, _ => none

/-- The marks that a run leaves on a room's history. -/
def marks (h : Hub) (room : RoomId) : List Moment → List Mark
  | [] => []
  | m :: ms => (h.mark room m).toList ++ (h.face m).2.marks room ms

/-- The time that a run takes. -/
def elapsed (ms : List Moment) : Duration := (ms.map fun m => m.event.elapsed).sum

/-- Events on other rooms' messages and on direct messages. -/
def Event.elsewhere (room : RoomId) : Event → Bool
  | .submit _ r _ | .delete r => decide (r ≠ room)
  | .direct .. | .getDirect .. | .deleteDirect .. => true
  | _ => false

/-- The marks left so far account for all that the log shows of a room. -/
structure Remembers (h : Hub) (room : RoomId) (marks : List Mark) : Prop where
  calm : h.Calm
  log : h.journal.store.log.live? h.journal.now (roomKey room) =
    Mark.entry h.tuning.ttl h.journal.now marks

/-- What an event that is carried out shows at once is its answer. -/
theorem face_of_not_refuses {h : Hub} {m : Moment} (hcalm : h.Calm)
    (hclock : h.journal.now + h.tuning.ttl < Time.limit) (he : m.event.isRegular = true)
    (hr : (h.dated m.wall).refuses m.event = false) :
    Written (h.dated m.wall) (h.face m).2 m.event ∧
      (m.event.isFront = true → (h.face m).1 = ((h.dated m.wall).react m.event).1) := by
  have hwritten := written_step (calm_dated hcalm m.wall) hclock hr he
  have hstep := step_eq hr (Event.front_or_logSide he) hwritten.calm.connections
  refine ⟨?_, fun hfront => ?_⟩
  · simp only [face, hstep]
    exact hwritten
  · simp only [face, hstep]
    exact conclude_fst _ _ _ hfront

/-- The writes of an event change a room's entry as its mark says. -/
theorem live?_writes {h : Hub} {room : RoomId} {marks : List Mark} (hrem : h.Remembers room marks)
    (hclock : h.journal.now + h.tuning.ttl < Time.limit) {m : Moment}
    (he : m.event.isRegular = true)
    (hr : (h.dated m.wall).refuses m.event = false) :
    ((((h.dated m.wall).writes m.event).foldl
      (fun s x => s.apply h.journal.now x) h.journal.store).log.live? h.journal.now
        (roomKey room)) = Mark.entry h.tuning.ttl h.journal.now
          (marks ++ (h.mark room m).toList) := by
  have hanswer := (face_of_not_refuses hrem.calm hclock he hr).2
  obtain ⟨wall, e⟩ := m
  cases e with
  | submit sender r text =>
      have hdone : (h.face ⟨wall, .submit sender r text⟩).1 = .done := hanswer rfl
      simp only [writes, handed, dated, List.foldl_cons, List.foldl_nil, Store.apply, mark, hdone]
      rw [Store.live?_write hrem.calm.outages _ _ _ hclock, hrem.log]
      by_cases hroom : r = room
      · subst hroom
        simp [Mark.entry_said, hrem.log]
      · have hkey : roomKey room ≠ roomKey r := fun hk => hroom (roomKey_inj.1 hk).symm
        simp [hroom, hkey]
  | delete r =>
      have hdone : (h.face ⟨wall, .delete r⟩).1 = .done := hanswer rfl
      simp only [writes, handed, dated, mark, hdone, Registry.count, Option.isSome_map]
      by_cases hfound : (h.registry.rooms.get? r).isSome
      · simp only [hfound, if_true, List.foldl_cons, List.foldl_nil]
        rw [Store.live?_apply_purge hrem.calm.outages, hrem.log]
        by_cases hroom : r = room
        · subst hroom
          simp [hfound, Mark.entry_purged]
        · have hkey : roomKey room ≠ roomKey r := fun hk => hroom (roomKey_inj.1 hk).symm
          simp [hroom, hkey]
      · by_cases hroom : r = room
        · subst hroom
          simp [hfound, hrem.log]
        · simp [hfound, hroom, hrem.log]
  | direct sender receiver text =>
      have hkey : roomKey room ≠ directKey sender receiver :=
        (directKey_ne_roomKey sender receiver room).symm
      simp only [writes, dated, List.foldl_cons, List.foldl_nil, Store.apply, mark]
      rw [Store.live?_write hrem.calm.outages _ _ _ hclock, hrem.log]
      simp [hkey]
  | deleteDirect sender receiver =>
      have hkey : roomKey room ≠ directKey sender receiver :=
        (directKey_ne_roomKey sender receiver room).symm
      simp only [writes, List.foldl_cons, List.foldl_nil, mark]
      rw [Store.live?_apply_purge hrem.calm.outages, hrem.log]
      simp [hkey]
  | _ => simp [writes, handed, mark, Store.apply, hrem.log]

theorem mark_of_refuses {h : Hub} {m : Moment}
    (hr : (h.dated m.wall).refuses m.event = true) (room : RoomId) :
    h.mark room m = none := by
  have hanswer : (h.face m).1 ≠ .done := (step_of_refuses hr).1
  unfold mark
  split
  case h_1 hdone => exact absurd hdone hanswer
  case h_2 hdone => exact absurd hdone hanswer
  case h_3 => rfl

theorem elapsed_of_refuses {h : Hub} {e : Event} (hr : h.refuses e = true) : e.elapsed = 0 := by
  cases e <;> first | rfl | simp [refuses, Event.needsHandle, Event.isCommand] at hr

/-- One moment keeps the invariant, its mark added. -/
theorem remembers_face {h : Hub} {room : RoomId} {marks : List Mark}
    (hrem : h.Remembers room marks) (hclock : h.journal.now + h.tuning.ttl < Time.limit)
    {m : Moment} (he : m.event.isRegular = true) :
    (h.face m).2.Remembers room (marks ++ (h.mark room m).toList) ∧
      (h.face m).2.tuning = h.tuning ∧
      (h.face m).2.journal.now = h.journal.now + m.event.elapsed := by
  cases hr : (h.dated m.wall).refuses m.event with
  | true =>
      have hface : (h.face m).2 = h.dated m.wall := by
        simp only [face, (step_of_refuses hr).2]
      rw [hface, mark_of_refuses hr, Option.toList_none, List.append_nil]
      exact ⟨⟨calm_dated hrem.calm m.wall, hrem.log⟩, rfl, by rw [elapsed_of_refuses hr]; rfl⟩
  | false =>
      -- first the writes of the event are made, then the time that it takes passes
      obtain ⟨hwritten, -⟩ := face_of_not_refuses hrem.calm hclock he hr
      refine ⟨⟨hwritten.calm, ?_⟩, hwritten.tuning, hwritten.now⟩
      have hlater : h.journal.now ≤ (h.face m).2.journal.now := by
        rw [hwritten.now]
        exact Nat.le_add_right _ _
      have hlog := hwritten.log (roomKey room)
      have htuning : (h.face m).2.tuning = h.tuning := hwritten.tuning
      rw [ExpiringLog.live?_later _ hlater, htuning, Mark.entry_later _ hlater,
        ← live?_writes hrem hclock he hr]
      exact congrArg _ hlog

theorem elapsed_cons (m : Moment) (ms : List Moment) :
    elapsed (m :: ms) = m.event.elapsed + elapsed ms := List.sum_cons

theorem remembers_through {h : Hub} {room : RoomId} {marks : List Mark}
    (hrem : h.Remembers room marks) {ms : List Moment}
    (hms : ∀ m ∈ ms, m.event.isRegular = true)
    (hclock : h.journal.now + elapsed ms + h.tuning.ttl < Time.limit) :
    (h.through ms).Remembers room (marks ++ h.marks room ms) ∧
      (h.through ms).tuning = h.tuning ∧
      (h.through ms).journal.now = h.journal.now + elapsed ms := by
  induction ms generalizing h marks with
  | nil =>
      rw [Hub.marks, List.append_nil]
      exact ⟨hrem, rfl, rfl⟩
  | cons m ms ih =>
      rw [elapsed_cons] at hclock ⊢
      have hnow : h.journal.now + h.tuning.ttl < Time.limit := by
        refine Nat.lt_of_le_of_lt (Nat.add_le_add_right ?_ _) hclock
        exact Nat.le_add_right _ _
      obtain ⟨hstep, htuning, hafter⟩ := remembers_face hrem hnow (hms m List.mem_cons_self)
      have hrest := ih hstep (fun n hn => hms n (List.mem_cons_of_mem m hn))
        (by rw [htuning, hafter, Nat.add_assoc h.journal.now]; exact hclock)
      rw [htuning, hafter, List.append_assoc, Nat.add_assoc] at hrest
      exact hrest

theorem mark_eq_said {h : Hub} {room : RoomId} {m : Moment} {time : Time} {record : ChatRecord}
    (hmark : h.mark room m = some (.said time record)) : record.sentAt = m.wall := by
  unfold mark at hmark
  split at hmark
  · split at hmark
    · cases hmark
      rfl
    · simp at hmark
  · split at hmark <;> simp at hmark
  · simp at hmark

/-- Messages are stamped with the civil times of a run. -/
theorem sentAt_of_mem_marks {h : Hub} {room : RoomId} {ms : List Moment} {time : Time}
    {record : ChatRecord} (hmem : Mark.said time record ∈ h.marks room ms) :
    ∃ m ∈ ms, record.sentAt = m.wall := by
  induction ms generalizing h with
  | nil => simp [marks] at hmem
  | cons m ms ih =>
      rcases List.mem_append.1 hmem with hmem | hmem
      · exact ⟨m, List.mem_cons_self, mark_eq_said (Option.mem_toList.1 hmem)⟩
      · obtain ⟨m', hm', hwall⟩ := ih hmem
        exact ⟨m', List.mem_cons_of_mem m hm', hwall⟩

theorem marks_concat (h : Hub) (room : RoomId) (ms : List Moment) (m : Moment) :
    h.marks room (ms ++ [m]) = h.marks room ms ++ ((h.through ms).mark room m).toList := by
  induction ms generalizing h with
  | nil => simp [marks]
  | cons first ms ih => simp [marks, ih, through_cons]

/-- Nothing that happens elsewhere leaves a mark or takes time. -/
theorem elsewhere_eq {room : RoomId} {m : Moment} (hm : m.event.elsewhere room = true) (h : Hub) :
    h.mark room m = none ∧ m.event.elapsed = 0 := by
  obtain ⟨wall, e⟩ := m
  cases e <;> simp [Event.elsewhere] at hm <;> refine ⟨?_, rfl⟩ <;> unfold mark <;> grind

/-- What a room's history shows where the marks left so far account for it. -/
theorem answer_history {h : Hub} {room : RoomId} {marks : List Mark}
    (hrem : h.Remembers room marks)
    (hvalid : ∀ time record, Mark.said time record ∈ marks → record.sentAt.IsValid) :
    (h.step (.history room)).1 =
      .history (Mark.remembered h.tuning.ttl h.journal.now marks) := by
  have hread : readable ChatRecord.parse
      ((Mark.remembered h.tuning.ttl h.journal.now marks).map ChatRecord.json) =
        Mark.remembered h.tuning.ttl h.journal.now marks := by
    refine ChatRecord.readable_map_json fun record hmem => ?_
    obtain ⟨time, hsaid⟩ := Mark.exists_said_of_mem_remembered hmem
    exact hvalid time record hsaid
  rw [step_history_of_healthy hrem.calm.handle hrem.calm.outages, hrem.log, Mark.values_entry,
    hread]

theorem remembers_new (tuning : Tuning) (wall : Instant) (room : RoomId) :
    (new tuning Outages.none false wall).Remembers room [] := ⟨calm_new tuning wall, rfl⟩

/-- The history of a room shows, in order and as they were submitted, the messages that neither a
deletion of the room nor a silence as long as the time to live has followed, whatever else has
happened; and nothing that happens to other rooms' messages or to direct messages changes it. -/
theorem history_law {tuning : Tuning} {wall : Instant} {ms : List Moment}
    (hms : ∀ m ∈ ms, m.Regular)
    (hclock : Time.start + elapsed ms + tuning.ttl < Time.limit) (room : RoomId) :
    let start := new tuning Outages.none false wall
    let shown := Answer.history
      (Mark.remembered tuning.ttl (Time.start + elapsed ms) (start.marks room ms))
    ((start.through ms).step (.history room)).1 = shown ∧
      ∀ m, m.Regular → m.event.elsewhere room = true →
        ((start.through (ms ++ [m])).step (.history room)).1 = shown := by
  intro start shown
  have hrun : ∀ ns, (∀ m ∈ ns, m.Regular) →
      Time.start + elapsed ns + tuning.ttl < Time.limit →
      ((start.through ns).step (.history room)).1 = .history
        (Mark.remembered tuning.ttl (Time.start + elapsed ns) (start.marks room ns)) := by
    intro ns hns hclock
    obtain ⟨hrem, htuning, hnow⟩ := remembers_through (remembers_new tuning wall room)
      (fun m hm => (hns m hm).1) hclock
    rw [List.nil_append] at hrem
    rw [answer_history hrem, htuning, hnow]
    · rfl
    · intro time record hsaid
      obtain ⟨m, hm, hwall⟩ := sentAt_of_mem_marks hsaid
      rw [hwall]
      exact (hns m hm).2
  refine ⟨hrun ms hms hclock, fun m hm helsewhere => ?_⟩
  obtain ⟨hmark, helapsed⟩ := elsewhere_eq helsewhere (start.through ms)
  have hsame : elapsed (ms ++ [m]) = elapsed ms := by
    simp [elapsed, helapsed]
  have hall : ∀ n ∈ ms ++ [m], n.Regular := by
    intro n hn
    rcases List.mem_append.1 hn with hn | hn
    · exact hms n hn
    · rw [List.mem_singleton.1 hn]
      exact hm
  rw [hrun (ms ++ [m]) hall (by rw [hsame]; exact hclock), hsame, marks_concat, hmark,
    Option.toList_none, List.append_nil]

/-- A message, a silence as long as the time to live, and two messages after it, between which a
direct message is sent. -/
def silenceBetween : List Moment :=
  [Event.create ⟨"r"⟩, .submit ⟨"a"⟩ ⟨"r"⟩ "lost", .advance Tuning.default.ttl,
    .submit ⟨"b"⟩ ⟨"r"⟩ "hello", .direct ⟨"a"⟩ ⟨"b"⟩ "psst", .submit ⟨"a"⟩ ⟨"r"⟩ "again"].map
    (Moment.mk ⟨2024, 2, 29, 23, 59, 59, 0⟩)

theorem history_law_silence :
    (∀ m ∈ silenceBetween, m.Regular) ∧
      Time.start + elapsed silenceBetween + Tuning.default.ttl < Time.limit ∧
      (((new Tuning.default Outages.none false default).through silenceBetween).step
        (.history ⟨"r"⟩)).1 = .history
          [⟨⟨"b"⟩, ⟨"r"⟩, "hello", ⟨2024, 2, 29, 23, 59, 59, 0⟩⟩,
            ⟨⟨"a"⟩, ⟨"r"⟩, "again", ⟨2024, 2, 29, 23, 59, 59, 0⟩⟩] := by
  have hms : ∀ m ∈ silenceBetween, m.Regular := by decide
  have hclock : Time.start + elapsed silenceBetween + Tuning.default.ttl < Time.limit := by
    decide
  refine ⟨hms, hclock, ?_⟩
  rw [(history_law hms hclock ⟨"r"⟩).1]
  rfl

end Hub

end ChatServer
