import ChatServer.Proofs.History.Law
import ChatServer.Proofs.History.Moves

/-!
A purge keeps its place in the line. The writes that concern a room are the marks that its accepted
messages and its deletions leave, in the same order, and a barrier that is passed tells that all of
them before it have been made. Hence nothing from before a deletion outlives it, and nothing after
it is lost to it.
-/

namespace ChatServer

namespace Mark

/-- The messages that stand after a mark. -/
def next (standing : List ChatRecord) : Mark → List ChatRecord
  | said _ record => standing ++ [record]
  | purged => []

/-- The messages after the last purge. -/
def standing (marks : List Mark) : List ChatRecord := marks.foldl next []

/-- The write that a mark leaves in the line. -/
def write (ttl : Duration) (room : RoomId) : Mark → LogWrite
  | said _ record => .append (roomKey room) record.json ttl
  | purged => .purge (roomKey room)

/-- The messages that a key shows, if it shows any. -/
def shownAs (deadline : Time) (records : List ChatRecord) : Option LogEntry :=
  if records = [] then none else some ⟨records.map ChatRecord.json, some deadline⟩

theorem alter_write (ttl : Duration) (room : RoomId) (now : Time) (records : List ChatRecord)
    (mark : Mark) :
    LogWrite.alter now (roomKey room) (shownAs (now + ttl) records) (mark.write ttl room) =
      shownAs (now + ttl) (next records mark) := by
  cases mark with
  | said time record =>
      by_cases hnil : records = []
      · simp [write, LogWrite.alter, next, shownAs, LogEntry.appended, hnil]
      · simp [write, LogWrite.alter, next, shownAs, LogEntry.appended, hnil]
  | purged => simp [write, LogWrite.alter, next, shownAs]

theorem values_shownAs (deadline : Time) (records : List ChatRecord) :
    ((shownAs deadline records).map LogEntry.values).getD [] = records.map ChatRecord.json := by
  unfold shownAs
  split
  · simp [*]
  · rfl

/-- What the writes of a room's marks leave under its key. -/
theorem foldl_alter_write (ttl : Duration) (room : RoomId) (now : Time) (marks : List Mark)
    (records : List ChatRecord) :
    (marks.map (write ttl room)).foldl (LogWrite.alter now (roomKey room))
        (shownAs (now + ttl) records) = shownAs (now + ttl) (marks.foldl next records) := by
  induction marks generalizing records with
  | nil => rfl
  | cons mark marks ih => rw [List.map_cons, List.foldl_cons, alter_write, ih, List.foldl_cons]

theorem standing_append_purged (marks marks' : List Mark) :
    standing (marks ++ purged :: marks') = standing marks' := by
  simp [standing, List.foldl_append, next]

theorem said_of_mem_foldl_next {marks : List Mark} {records : List ChatRecord}
    {record : ChatRecord} (h : record ∈ marks.foldl next records) :
    record ∈ records ∨ ∃ time, said time record ∈ marks := by
  induction marks generalizing records with
  | nil => exact .inl h
  | cons mark marks ih =>
      rcases ih h with hmem | ⟨time, hmem⟩
      · cases mark with
        | said time last =>
            rcases List.mem_append.1 hmem with hmem | hmem
            · exact .inl hmem
            · rw [List.mem_singleton.1 hmem]
              exact .inr ⟨time, List.mem_cons_self⟩
        | purged => exact absurd hmem List.not_mem_nil
      · exact .inr ⟨time, List.mem_cons_of_mem _ hmem⟩

end Mark

namespace Hub

/-- The mark that an accepted write of an event leaves on a room's history: a message to it joined
the line, or it was deleted and had been there. -/
def queuedMark (h : Hub) (room : RoomId) (e : Event) : Option Mark :=
  if h.refuses e then none
  else
    match e with
    | .submit sender r text =>
      let record : ChatRecord := ⟨sender, r, text, h.wall⟩
      if r = room && (h.journal.push (.append (roomKey r) record.json h.tuning.ttl)).1.isOk then
        some (.said h.journal.now record)
      else none
    | .delete r => if r = room && (h.registry.count r).isSome then some .purged else none
    | _ => none

/-- The mark that a move leaves. -/
def queuedIn (h : Hub) (room : RoomId) (mv : Move) : Option Mark :=
  mv.moment?.bind fun m => (h.dated m.wall).queuedMark room m.event

/-- The marks that a series of moves leaves. -/
def queuedMarks (h : Hub) (room : RoomId) : List Move → List Mark
  | [] => []
  | mv :: mvs => (h.queuedIn room mv).toList ++ (h.go mv).queuedMarks room mvs

/-- The barrier that a move hands over. -/
def barrier? (h : Hub) (mv : Move) : Option Nat :=
  mv.moment?.bind fun m =>
    match m.event with
    | .flush => if h.refuses .flush then none else some h.journal.ticket
    | _ => none

/-- A move whose event takes no time and writes to the log only by way of the writer, at a civil
time that exists. -/
def Move.Timeless (mv : Move) : Prop :=
  ∀ m, mv.moment? = some m → m.event.isTimeless = true ∧ m.wall.IsValid

instance (mv : Move) : Decidable mv.Timeless :=
  match h : mv.moment? with
  | none => isTrue fun m hm => by simp [h] at hm
  | some m =>
    decidable_of_iff (m.event.isTimeless = true ∧ m.wall.IsValid)
      ⟨fun hm m' hm' => by rw [h] at hm'; exact Option.some.inj hm' ▸ hm, fun hm => hm m h⟩

/-- What is accepted of an event and concerns a room is what its mark says. -/
theorem accepted_filter {h : Hub} {ttl : Duration} {line : List LogWrite} (hl : h.Lined ttl line)
    (room : RoomId) (e : Event) :
    (h.accepted e).filter (LogWrite.concerns (roomKey room)) =
      (h.queuedMark room e).toList.map (Mark.write ttl room) := by
  have httl := hl.tuning
  subst httl
  unfold accepted queuedMark
  cases hr : h.refuses e with
  | true => rfl
  | false =>
      simp only [Bool.false_eq_true, if_false, List.filter_filter]
      cases e with
      | submit sender r text =>
          have hpush : ∀ x, (h.journal.push x).1 = (h.journal.writer.push x).1 := fun _ => rfl
          simp only [handed, hpush]
          by_cases hroom : r = room
          · subst hroom
            cases hok : (h.journal.writer.push (.append (roomKey r)
              (ChatRecord.json ⟨sender, r, text, h.wall⟩) h.tuning.ttl)).1.isOk with
            | true => simp [hok, LogWrite.concerns, Mark.write]
            | false => simp [hok]
          · have hkey : roomKey r ≠ roomKey room := fun hk => hroom (roomKey_inj.1 hk)
            simp [hroom, hkey, LogWrite.concerns]
      | delete r =>
          have hok := LogWriter.push_isOk_of_running (x := .purge (roomKey r))
            (hl.writer (managed_of_not_refuses hr rfl)).1 rfl
          simp only [handed, Registry.count, Option.isSome_map]
          cases (h.registry.rooms.get? r).isSome with
          | false => simp
          | true =>
              by_cases hroom : r = room
              · subst hroom
                simp [hok, LogWrite.concerns, Mark.write]
              · have hkey : roomKey r ≠ roomKey room := fun hk => hroom (roomKey_inj.1 hk)
                simp [hroom, hkey, LogWrite.concerns]
      | flush => simp [handed, LogWrite.concerns]
      | _ => rfl

theorem acceptedIn_filter {h : Hub} {ttl : Duration} {line : List LogWrite}
    (hl : h.Lined ttl line) (room : RoomId) (mv : Move) :
    (h.acceptedIn mv).filter (LogWrite.concerns (roomKey room)) =
      (h.queuedIn room mv).toList.map (Mark.write ttl room) := by
  unfold acceptedIn queuedIn
  cases mv.moment? with
  | none => rfl
  | some m => exact accepted_filter (lined_dated hl m.wall) room m.event

/-- The writes in line that concern a room are the room's marks. -/
theorem line_filter {h : Hub} {ttl : Duration} {line : List LogWrite} (hl : h.Lined ttl line)
    (room : RoomId) {mvs : List Move} (hmvs : ∀ mv ∈ mvs, mv.Timeless) :
    (h.line mvs).filter (LogWrite.concerns (roomKey room)) =
      (h.queuedMarks room mvs).map (Mark.write ttl room) := by
  induction mvs generalizing h line with
  | nil => rfl
  | cons mv mvs ih =>
      have hstep := lined_go hl fun m hm => (hmvs mv List.mem_cons_self m hm).1
      rw [Hub.line, List.filter_append, acceptedIn_filter hl, queuedMarks, List.map_append,
        ih hstep fun mv' hmv' => hmvs mv' (List.mem_cons_of_mem mv hmv')]

theorem line_append (h : Hub) (mvs mvs' : List Move) :
    h.line (mvs ++ mvs') = h.line mvs ++ (h.goes mvs).line mvs' := by
  induction mvs generalizing h with
  | nil => rfl
  | cons mv mvs ih => rw [List.cons_append, Hub.line, ih, Hub.line, List.append_assoc, goes_cons]

theorem queuedMarks_append (h : Hub) (room : RoomId) (mvs mvs' : List Move) :
    h.queuedMarks room (mvs ++ mvs') =
      h.queuedMarks room mvs ++ (h.goes mvs).queuedMarks room mvs' := by
  induction mvs generalizing h with
  | nil => rfl
  | cons mv mvs ih =>
      rw [List.cons_append, queuedMarks, ih, queuedMarks, List.append_assoc, goes_cons]

/-- A barrier that is handed over is accepted. -/
theorem acceptedIn_of_barrier {h : Hub} {ttl : Duration} {line : List LogWrite}
    (hl : h.Lined ttl line) {mv : Move} {ticket : Nat} (hb : h.barrier? mv = some ticket) :
    ticket = h.journal.ticket ∧ h.acceptedIn mv = [.flush ticket] := by
  unfold barrier? at hb
  unfold acceptedIn
  cases hmoment : mv.moment? with
  | none => simp [hmoment] at hb
  | some m =>
      obtain ⟨wall, e⟩ := m
      rw [hmoment, Option.bind_some] at hb
      cases e with
      | flush =>
          cases hr : h.refuses .flush with
          | true => simp [hr] at hb
          | false =>
              simp only [hr, Bool.false_eq_true, if_false, Option.some.injEq] at hb
              subst hb
              have hok := LogWriter.push_isOk_of_running (x := .flush h.journal.ticket)
                (hl.writer (managed_of_not_refuses hr rfl)).1 rfl
              have hr' : ¬ (h.dated wall).refuses .flush = true := by
                rw [Bool.not_eq_true]
                exact hr
              refine ⟨rfl, ?_⟩
              rw [Option.map_some, Option.getD_some, accepted, if_neg hr']
              simpa [handed, dated] using hok
      | _ => simp at hb

/-- Once a barrier is passed, every write before it has been made, and of those after it the
first few. -/
theorem made_of_passed {h : Hub} {ttl : Duration} {ticket : Nat} {before after : List LogWrite}
    (hl : h.Lined ttl (before ++ .flush ticket :: after)) (hfresh : .flush ticket ∉ before)
    (hpassed : ticket ∈ h.journal.writer.passed) :
    ∃ more, more <+: after ∧ ∀ key, h.journal.store.log.live? h.journal.now key =
      (before ++ .flush ticket :: more).foldl (LogWrite.alter h.journal.now key) none := by
  obtain ⟨made, hline, hlog, hflushes⟩ := hl.made
  have hmade := hflushes ticket hpassed
  rcases List.append_eq_append_iff.1 hline with ⟨rest, hmade', hrest⟩ | ⟨rest, hbefore, -⟩
  · cases rest with
    | nil =>
        rw [hmade', List.append_nil] at hmade
        exact absurd hmade hfresh
    | cons x more =>
        obtain ⟨rfl, hafter⟩ := List.cons.inj hrest
        refine ⟨more, ⟨_, hafter.symm⟩, fun key => ?_⟩
        rw [hlog key, hmade']
  · rw [hbefore] at hfresh
    exact absurd (List.mem_append_left _ hmade) hfresh

theorem queuedIn_eq_said {h : Hub} {room : RoomId} {mv : Move} (hmv : mv.Timeless) {time : Time}
    {record : ChatRecord} (hmark : h.queuedIn room mv = some (.said time record)) :
    record.sentAt.IsValid := by
  unfold queuedIn at hmark
  cases hmoment : mv.moment? with
  | none => simp [hmoment] at hmark
  | some m =>
      have hvalid := (hmv m hmoment).2
      rw [hmoment, Option.bind_some] at hmark
      unfold queuedMark at hmark
      split at hmark
      · simp at hmark
      · split at hmark
        · dsimp only at hmark
          split at hmark
          · cases hmark
            exact hvalid
          · simp at hmark
        · split at hmark <;> simp at hmark
        · simp at hmark

theorem sentAt_of_mem_queuedMarks {h : Hub} {room : RoomId} {mvs : List Move}
    (hmvs : ∀ mv ∈ mvs, mv.Timeless) {time : Time} {record : ChatRecord}
    (hmem : Mark.said time record ∈ h.queuedMarks room mvs) : record.sentAt.IsValid := by
  induction mvs generalizing h with
  | nil => simp [queuedMarks] at hmem
  | cons mv mvs ih =>
      rcases List.mem_append.1 hmem with hmem | hmem
      · exact queuedIn_eq_said (hmvs mv List.mem_cons_self) (Option.mem_toList.1 hmem)
      · exact ih (fun mv' hmv' => hmvs mv' (List.mem_cons_of_mem mv hmv')) hmem

theorem mem_passed_of_done {h : Hub} {ticket : Nat} (hdone : h.flushAnswer ticket = .done) :
    ticket ∈ h.journal.writer.passed := by
  by_cases hmem : ticket ∈ h.journal.writer.passed
  · exact hmem
  · by_cases hqueue : LogWrite.flush ticket ∈ h.journal.writer.queue
    · simp [flushAnswer, LogWriter.flushState, hmem, hqueue] at hdone
    · simp [flushAnswer, LogWriter.flushState, hmem, hqueue] at hdone

/-- The history of a room shows what the writes made so far have left standing. -/
theorem history_of_made {h : Hub} {ttl : Duration} {line made : List LogWrite} {room : RoomId}
    {marks : List Mark} (hl : h.Lined ttl line)
    (hlog : ∀ key, h.journal.store.log.live? h.journal.now key =
      made.foldl (LogWrite.alter h.journal.now key) none)
    (hmade : made.filter (LogWrite.concerns (roomKey room)) = marks.map (Mark.write ttl room))
    (hvalid : ∀ record ∈ Mark.standing marks, record.sentAt.IsValid) :
    (h.step (.history room)).1 = .history (Mark.standing marks) := by
  have hshown : h.journal.store.log.live? h.journal.now (roomKey room) =
      Mark.shownAs (h.journal.now + ttl) (Mark.standing marks) := by
    rw [hlog, ← LogWrite.foldl_alter_filter, hmade]
    exact Mark.foldl_alter_write _ _ _ _ []
  rw [step_history_of_healthy hl.handle hl.outages, hshown, Mark.values_shownAs,
    ChatRecord.readable_map_json hvalid]

/-- A purge keeps its place among the writes that were accepted. Once a barrier that was handed over
after a room's deletion is passed, the history of the room shows nothing from before the deletion,
and it shows, in order, every accepted message since the last deletion before the barrier; of what
was accepted after the barrier, the first few may have had their effect already. -/
theorem purge_keeps_place {tuning : Tuning} {gated : Bool} {wall : Instant}
    (httl : 0 < tuning.ttl) (hclock : Time.start + tuning.ttl < Time.limit)
    {before middle after : List Move} {deletion flush : Move}
    (hmoves : ∀ mv ∈ before ++ deletion :: middle ++ flush :: after, mv.Timeless)
    {room : RoomId} {ticket : Nat} :
    let start := new tuning Outages.none gated wall
    let deleting := start.goes before
    let flushing := start.goes (before ++ deletion :: middle)
    let last := start.goes (before ++ deletion :: middle ++ flush :: after)
    deleting.queuedIn room deletion = some .purged → flushing.barrier? flush = some ticket →
      last.flushAnswer ticket = .done →
      ∃ more, more <+: (flushing.go flush).queuedMarks room after ∧
        (last.step (.history room)).1 = .history
          (Mark.standing ((deleting.go deletion).queuedMarks room middle ++ more)) := by
  intro start deleting flushing last hdeletion hflush hdone
  have htimeless : ∀ mvs, mvs ⊆ before ++ deletion :: middle ++ flush :: after →
      ∀ mv ∈ mvs, ∀ m, mv.moment? = some m → m.event.isTimeless = true :=
    fun mvs hsub mv hmv m hm => (hmoves mv (hsub hmv) m hm).1
  have hstart := lined_new gated wall httl hclock
  have hflushing : flushing.Lined tuning.ttl (start.line (before ++ deletion :: middle)) :=
    lined_goes hstart (htimeless _ (List.subset_append_left _ _))
  have hlast : last.Lined tuning.ttl
      (start.line (before ++ deletion :: middle ++ flush :: after)) :=
    lined_goes hstart (htimeless _ (List.Subset.refl _))
  obtain ⟨hticket, haccepted⟩ := acceptedIn_of_barrier hflushing hflush
  have hline : start.line (before ++ deletion :: middle ++ flush :: after) =
      start.line (before ++ deletion :: middle) ++
        .flush ticket :: (flushing.go flush).line after := by
    rw [line_append, Hub.line, haccepted]
    rfl
  have hfresh : .flush ticket ∉ start.line (before ++ deletion :: middle) := by
    intro hmem
    have hlt := hflushing.fresh ticket hmem
    rw [hticket] at hlt
    exact Nat.lt_irrefl _ hlt
  rw [hline] at hlast
  obtain ⟨more, hmore, hlog⟩ := made_of_passed hlast hfresh (mem_passed_of_done hdone)
  -- the writes that have been made and concern the room, as marks
  have hsofar := line_filter hstart room fun mv hmv => hmoves mv (List.mem_append_left _ hmv)
  have hafter : ∀ mv ∈ after, mv.Timeless := fun mv hmv =>
    hmoves mv (List.mem_append_right _ (List.mem_cons_of_mem flush hmv))
  have hlater := line_filter (lined_go hflushing (htimeless [flush] (by simp) flush (by simp)))
    room hafter
  obtain ⟨marks, hmarks, hmoreMarks⟩ := exists_take_of_prefix hmore hlater
  refine ⟨marks, hmarks, ?_⟩
  have hconcerned : (start.line (before ++ deletion :: middle) ++ .flush ticket :: more).filter
      (LogWrite.concerns (roomKey room)) =
        (start.queuedMarks room (before ++ deletion :: middle) ++ marks).map
          (Mark.write tuning.ttl room) := by
    rw [List.filter_append, hsofar, List.map_append, ← hmoreMarks]
    rfl
  -- nothing from before the deletion is left standing
  have hstanding : Mark.standing (start.queuedMarks room (before ++ deletion :: middle) ++ marks) =
      Mark.standing ((deleting.go deletion).queuedMarks room middle ++ marks) := by
    rw [queuedMarks_append, queuedMarks, hdeletion, List.append_assoc]
    exact Mark.standing_append_purged _ _
  rw [← hstanding]
  refine history_of_made hlast hlog hconcerned fun record hmem => ?_
  rw [hstanding] at hmem
  rcases Mark.said_of_mem_foldl_next hmem with hmem | ⟨time, hmem⟩
  · exact absurd hmem List.not_mem_nil
  · rcases List.mem_append.1 hmem with hmem | hmem
    · refine sentAt_of_mem_queuedMarks (fun mv hmv => hmoves mv ?_) hmem
      exact List.mem_append_left _ (List.mem_append_right _ (List.mem_cons_of_mem deletion hmv))
    · refine sentAt_of_mem_queuedMarks (fun mv hmv => hmoves mv ?_) (hmarks.subset hmem)
      exact List.mem_append_right _ (List.mem_cons_of_mem flush hmv)

/-- A message that waits for leave to be pushed, a deletion, a message that takes the last of two
places in line, one that finds none, and a flush; then the leave is given. -/
theorem purge_keeps_place_held_up :
    (((new { Tuning.default with logQueue := 2 } Outages.none true default).goes
      [.step ⟨⟨2024, 2, 29, 0, 0, 0, 0⟩, .create ⟨"r"⟩⟩,
        .step ⟨⟨2024, 2, 29, 0, 0, 0, 0⟩, .submit ⟨"a"⟩ ⟨"r"⟩ "before"⟩,
        .command ⟨⟨2024, 2, 29, 0, 0, 1, 0⟩, .delete ⟨"r"⟩⟩,
        .command ⟨⟨2024, 2, 29, 0, 0, 2, 0⟩, .submit ⟨"b"⟩ ⟨"r"⟩ "after"⟩,
        .command ⟨⟨2024, 2, 29, 0, 0, 3, 0⟩, .submit ⟨"b"⟩ ⟨"r"⟩ "too many"⟩,
        .command ⟨⟨2024, 2, 29, 0, 0, 4, 0⟩, .flush⟩,
        .step ⟨⟨2024, 2, 29, 0, 0, 5, 0⟩, .permits 2⟩]).step (.history ⟨"r"⟩)).1 =
      .history [⟨⟨"b"⟩, ⟨"r"⟩, "after", ⟨2024, 2, 29, 0, 0, 2, 0⟩⟩] := by
  obtain ⟨more, hmore, hanswer⟩ := @purge_keeps_place { Tuning.default with logQueue := 2 } true
    default (by decide) (by decide)
    [.step ⟨⟨2024, 2, 29, 0, 0, 0, 0⟩, .create ⟨"r"⟩⟩,
      .step ⟨⟨2024, 2, 29, 0, 0, 0, 0⟩, .submit ⟨"a"⟩ ⟨"r"⟩ "before"⟩]
    [.command ⟨⟨2024, 2, 29, 0, 0, 2, 0⟩, .submit ⟨"b"⟩ ⟨"r"⟩ "after"⟩,
      .command ⟨⟨2024, 2, 29, 0, 0, 3, 0⟩, .submit ⟨"b"⟩ ⟨"r"⟩ "too many"⟩]
    [.step ⟨⟨2024, 2, 29, 0, 0, 5, 0⟩, .permits 2⟩]
    (.command ⟨⟨2024, 2, 29, 0, 0, 1, 0⟩, .delete ⟨"r"⟩⟩)
    (.command ⟨⟨2024, 2, 29, 0, 0, 4, 0⟩, .flush⟩) (by decide) ⟨"r"⟩ 0 rfl rfl rfl
  have hnone : more = [] := List.prefix_nil.1 hmore
  subst hnone
  exact hanswer

end Hub

end ChatServer
