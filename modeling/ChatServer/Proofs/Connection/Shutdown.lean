import ChatServer.Proofs.Connection.Closed
import ChatServer.Proofs.Connection.Holding
import ChatServer.Proofs.Connection.Standing

/-!
How a server comes to its end. When the last handle, pump and connection is gone commands are no
longer handled and all rooms are closed. The writer then has nothing to expect but what is in its
line: it makes that in order and ends, and if it waits for permits it does so when they come. The
holders of listeners read what has been left to them, and then find the end of the stream.
-/

namespace ChatServer.Hub

variable {h : Hub} {ms later : List Moment} {tuning : Tuning} {outages : Outages} {gated : Bool}
  {wall : Instant} {start : Hub}

/-- Whether the writer waits for leave to push. -/
def stalled (h : Hub) : Bool := h.journal.writer.waits h.journal.store .writer

/-- How a server winds up after a run that leaves nobody there to give commands, whatever comes
later. -/
structure WindsUp (start : Hub) (ms later : List Moment) : Prop where
  /-- Commands are no longer handled, and there are no rooms. -/
  managed : (start.through (ms ++ later)).managed = false
  rooms : ∀ room, (start.through (ms ++ later)).registry.count room = none
  /-- No more writes are accepted. -/
  line : start.journal.line .writer (start.moves (ms ++ later)) =
    start.journal.line .writer (start.moves ms)
  /-- As long as the clock can show the deadlines, all that has been accepted has been attempted in
  the order of its acceptance or is still in line. -/
  order : (start.through (ms ++ later)).journal.now + start.tuning.ttl < Time.limit →
    start.journal.line .writer (start.moves ms) =
      (start.journal.made .writer (start.moves (ms ++ later))).map Attempt.write ++
        (start.through (ms ++ later)).journal.writer.queue
  /-- Unless it waits for leave the writer has attempted all of it and ended, and all barriers have
  been passed. -/
  drained : (start.through (ms ++ later)).journal.now + start.tuning.ttl < Time.limit →
    (start.through (ms ++ later)).stalled = false →
    (start.journal.made .writer (start.moves (ms ++ later))).map Attempt.write =
        start.journal.line .writer (start.moves ms) ∧
      (start.through (ms ++ later)).journal.writer.phase = .finished ∧
      ∀ ticket, .flush ticket ∈ start.journal.line .writer (start.moves ms) →
        (start.through (ms ++ later)).flushAnswer ticket = .done
  /-- Without a gate it never waits for leave. -/
  ungated : start.Ungated → (start.through (ms ++ later)).stalled = false
  /-- With one it does not when there have come as many permits as there are appends in line. -/
  permitted : ∀ wall n,
    (∀ gate, (start.through (ms ++ later)).journal.store.gate = some gate →
      (start.through (ms ++ later)).journal.writer.queue.countP LogWrite.isAppend ≤
        gate.permits + n) →
    (start.through (ms ++ later ++ [⟨wall, .permits n⟩])).stalled = false
  /-- A listener that is left alone while the others go keeps what it has. -/
  kept : ∀ before after name l, ms = before ++ after →
    (start.through before).held.get? name = some l →
    (∀ m ∈ after, m.event.uses name = false) →
    (start.through ms).held.get? name = some l ∧
      (start.through before).registry.waiting l.id <+: (start.through ms).registry.waiting l.id
  /-- Until its holder gives it up, reading shows what has been left, one payload after the other,
  and then the end of the stream. -/
  listeners : ∀ name l, (start.through ms).held.get? name = some l →
    (∀ m ∈ later, m.event ≠ .drop name) → ∀ m : Moment, m.event.reads name = true →
    ((start.through (ms ++ later)).face m).1 = m.event.shows
      ((start.through ms).registry.waiting l.id)[later.countP fun m => m.event.reads name]?

/-- A server that has just been started. -/
structure Launched (start : Hub) : Prop where
  inOrder : start.InOrder
  vacant : start.Vacant
  atRest : start.AtRest
  tied : start.Tied
  queued : start.Queued
  started : start.journal.writer.Started
  sequenced : start.journal.writer.Sequenced start.journal.ticket [] []
  alive : start.journal.writer.phase ≠ .dead

theorem launched_new (tuning : Tuning) (outages : Outages) (gated : Bool) (wall : Instant) :
    (new tuning outages gated wall).Launched where
  inOrder := inOrder_new tuning outages gated wall
  vacant := vacant_new tuning outages gated wall
  atRest := atRest_new tuning outages gated wall
  tied := tied_new tuning outages gated wall
  queued := queued_new tuning outages gated wall
  started := .inl rfl
  sequenced := (LogWriter.sequenced_new tuning.logQueue).start
  alive := by simp [new, Journal.new, LogWriter.new, LogWriter.start]

namespace Launched

theorem emptied (hl : start.Launched) (ha : (start.through ms).attended = false) :
    (start.through ms).Emptied := by
  have hinOrder := hl.inOrder.pieces (start.scripts ms)
  have hvacant := hl.vacant.pieces (runs_scripts start ms)
  rw [pieces_scripts] at hinOrder hvacant
  exact ⟨(hl.atRest.through ms).deserted ha, hinOrder, hvacant⟩

/-! ### The writer -/

theorem started_through (hl : start.Launched) (ms : List Moment) :
    (start.through ms).journal.writer.Started := by
  rw [(goes_moves start ms).1]
  exact Journal.started_goes hl.started .writer _

theorem sequenced_through (hl : start.Launched) (ms : List Moment) :
    (start.through ms).journal.writer.Sequenced (start.through ms).journal.ticket
      (start.journal.line .writer (start.moves ms))
      (start.journal.made .writer (start.moves ms)) := by
  rw [(goes_moves start ms).1]
  exact Journal.sequenced_goes hl.sequenced .writer _

/-- A writer dies of nothing but a deadline beyond the clock. -/
theorem lives (hl : start.Launched)
    (hclock : (start.through ms).journal.now + start.tuning.ttl < Time.limit) :
    (start.through ms).journal.writer.phase ≠ .dead := by
  have horder := (hl.sequenced_through ms).order
  rw [(goes_moves start ms).1] at hclock ⊢
  rw [Ne, Journal.dead_goes_iff, or_iff_right hl.alive]
  rintro ⟨a, ha, hfatal⟩
  have hroutine : a.write.isRoutine start.tuning.ttl = true :=
    Journal.isRoutine_of_mem_line ttl_of_mem_logSides (horder.subset (List.mem_map_of_mem ha))
  have hnow : a.now ≤ _ := Journal.now_le_of_mem_made.2 a ha
  have htimely : a.write.Timely a.now := by
    cases hwrite : a.write with
    | append key value ttl =>
        rw [hwrite] at hroutine
        obtain rfl : ttl = start.tuning.ttl := of_decide_eq_true hroutine
        exact Nat.lt_of_le_of_lt (Nat.add_le_add_right hnow _) hclock
    | purge key => trivial
    | flush ticket => trivial
  rw [Attempt.isFatal_of_timely htimely] at hfatal
  exact absurd hfatal Bool.false_ne_true

theorem line_eq (hl : start.Launched)
    (hclock : (start.through ms).journal.now + start.tuning.ttl < Time.limit) :
    start.journal.line .writer (start.moves ms) =
      (start.journal.made .writer (start.moves ms)).map Attempt.write ++
        (start.through ms).journal.writer.queue :=
  (hl.sequenced_through ms).rest (hl.lives hclock) (hl.started_through ms).phase_ne.2

/-- Nothing but leave to push keeps the writer from its end when nobody is left. -/
theorem finished (hl : start.Launched)
    (hclock : (start.through ms).journal.now + start.tuning.ttl < Time.limit)
    (ha : (start.through ms).attended = false) (hstalled : (start.through ms).stalled = false) :
    (start.through ms).journal.writer.queue = [] ∧
      (start.through ms).journal.writer.phase = .finished := by
  have hfed : (start.through ms).journal.writer.fed = false := by
    have htied := hl.tied.pieces (start.scripts ms)
    rw [pieces_scripts] at htied
    rw [htied, (hl.emptied ha).deserted.managed]
  have hhalts := (hl.atRest.through ms).writer
  have hstarted := hl.started_through ms
  exact ⟨hhalts.queue_eq_nil hstarted hstalled,
    (hhalts.ended hstarted hfed hstalled).resolve_left (hl.lives hclock)⟩

/-- Nobody but the writer is left to stand in line for permits. -/
theorem provided (hl : start.Launched) (ha : (start.through ms).attended = false)
    {n : Nat} (hpermits : ∀ gate, (start.through ms).journal.store.gate = some gate →
      (start.through ms).journal.writer.queue.countP LogWrite.isAppend ≤ gate.permits + n) :
    (start.through ms).journal.writer.Provided ((start.through ms).journal.store.addPermits n)
      .writer := by
  intro g hg
  obtain ⟨gate, hgate, rfl⟩ := Option.map_eq_some_iff.1 hg
  refine ⟨fun who hwho => ?_, hpermits gate hgate⟩
  have hstands := ((hl.queued.through ms) gate hgate).all who hwho
  cases who with
  | writer => rfl
  | caller => exact absurd hstands id
  | connection name =>
      obtain ⟨c, hc, hpushing⟩ := hstands
      simp [Connection.pushing, (hl.emptied ha).deserted.dead hc] at hpushing

end Launched

/-- The writer takes the permits that come when nobody is left, and goes on with them. -/
theorem Emptied.permits (he : h.Emptied) (wall : Instant) {n : Nat}
    (hp : h.journal.writer.Provided (h.journal.store.addPermits n) .writer) :
    (h.face ⟨wall, .permits n⟩).2.stalled = false := by
  obtain ⟨vs, subs, hk⟩ := he.inOrder.kept
  have hrefuses : (h.dated wall).refuses (.permits n) = false := rfl
  rw [stalled, (he.deserted.face_snd hk hrefuses).1]
  exact (hp.run h.journal.now).waits_eq_false

/-- Nothing is lost when a server comes to its end. -/
theorem shutdown_loses_nothing (hstart : start? tuning outages gated wall = some start)
    (hgone : (start.through ms).attended = false) (later : List Moment) :
    start.WindsUp ms later := by
  have hl : start.Launched := eq_new hstart ▸ launched_new tuning outages gated wall
  have he := hl.emptied hgone
  have hafter : (start.through (ms ++ later)).Emptied := by
    rw [through_append]
    exact he.through later
  have hline : start.journal.line .writer (start.moves (ms ++ later)) =
      start.journal.line .writer (start.moves ms) := by
    rw [moves_append, Journal.line, Journal.along_append, ← (goes_moves start ms).1]
    exact (congrArg _ (he.deserted.line_moves later)).trans (List.append_nil _)
  refine ⟨hafter.deserted.managed, hafter.vacant hafter.deserted.managed, hline, ?_, ?_, ?_, ?_,
    ?_, ?_⟩
  · intro hclock
    rw [← hline]
    exact hl.line_eq hclock
  · intro hclock hstalled
    obtain ⟨hqueue, hfinished⟩ := hl.finished hclock hafter.deserted.attended hstalled
    have hmade := hl.line_eq hclock
    rw [hqueue, List.append_nil, hline] at hmade
    refine ⟨hmade.symm, hfinished, fun ticket hticket => ?_⟩
    rw [hmade] at hticket
    rw [flushAnswer_eq_done, LogWriter.flushState_eq_done]
    exact ((hl.sequenced_through (ms ++ later)).mem_passed ticket).2 hticket
  · intro hu
    have hungated := ungated_pieces hu (start.scripts (ms ++ later))
    rw [pieces_scripts] at hungated
    exact LogWriter.waits_of_ungated hungated _ _
  · intro wall n hpermits
    rw [through_append]
    exact hafter.permits wall (hl.provided hafter.deserted.attended hpermits)
  · rintro before after name l rfl hheld huses
    have hinOrder := hl.inOrder.pieces (start.scripts before)
    rw [pieces_scripts] at hinOrder
    rw [through_append, ← pieces_scripts (start.through before)]
    refine hinOrder.prefix_waiting_pieces hheld fun e he => ?_
    obtain ⟨m, hm, rfl⟩ := react_mem_scripts he
    exact huses m hm
  · intro name l hheld hdrop m hreads
    rw [through_append]
    exact he.face_fst hheld hdrop hreads

/-- A listener, two messages to its room, a room that comes and goes, a flush and the end. -/
def closing : List Moment :=
  [Event.listen "l" ⟨"r"⟩, .submit ⟨"a"⟩ ⟨"r"⟩ "x", .submit ⟨"a"⟩ ⟨"r"⟩ "y", .create ⟨"q"⟩,
    .delete ⟨"q"⟩, .flush, .shutdown].map (Moment.mk default)

/-- Two permits and a read after the end. -/
def afterwards : List Moment := [Event.permits 2, .tryReceive "l"].map (Moment.mk default)

theorem shutdown_loses_nothing_gated :
    let start := new Tuning.default Outages.none true default
    start? Tuning.default Outages.none true default = some start ∧
      (start.through closing).attended = false ∧ (start.through closing).stalled = true ∧
      (start.through (closing ++ afterwards)).journal.writer.phase = .finished ∧
      (start.through (closing ++ afterwards)).flushAnswer 0 = .done ∧
      (start.journal.made .writer (start.moves (closing ++ afterwards))).map Attempt.write =
        start.journal.line .writer (start.moves closing) ∧
      (start.journal.line .writer (start.moves closing)).length = 4 ∧
      ((start.through (closing ++ afterwards)).face ⟨default, .tryReceive "l"⟩).1 =
        .received (.item "a: y") := by
  intro start
  have hstart : start? Tuning.default Outages.none true default = some start := by rfl
  have hgone : (start.through closing).attended = false := by decide +kernel
  have hwinds := shutdown_loses_nothing hstart hgone afterwards
  obtain ⟨hmade, hfinished, hflushed⟩ := hwinds.drained (by decide +kernel) (by decide +kernel)
  have hanswer := hflushed 0 (by decide +kernel)
  have hheld : (start.through closing).held.get? "l" = some ⟨⟨0⟩, ⟨"r"⟩⟩ := by decide +kernel
  have hread := hwinds.listeners "l" _ hheld (by simp [afterwards]) ⟨default, .tryReceive "l"⟩ rfl
  have hnext : ((start.through closing).registry.waiting ⟨0⟩)[
      afterwards.countP fun m => m.event.reads "l"]? = some "a: y" := by decide +kernel
  rw [hnext] at hread
  exact ⟨hstart, hgone, by decide +kernel, hfinished, hanswer, hmade, by decide +kernel, hread⟩

end ChatServer.Hub
