import ChatServer.Proofs.Connection.Departure
import ChatServer.Proofs.Connection.Pumped
import ChatServer.Proofs.Connection.Scribe
import ChatServer.Proofs.Connection.Ties
import ChatServer.Proofs.History.Survival

/-!
What it means to be told that commands are no longer handled. Nobody is told so who can give
commands, save about a flush whose barrier the writer has not passed and never will, because a
deadline beyond the clock has ended it. Rooms, listeners, pumps and connections go on all the same.
-/

namespace ChatServer.Hub

variable {h : Hub} {vs : Visitors} {subs : List Subscription} {ms : List Moment}

/-! ### Answers -/

theorem ofLog_ne_closed {α : Type} (r : Except LogError α) {f : α → Answer}
    (hf : ∀ a, f a ≠ .error .managerClosed) : ofLog r f ≠ .error .managerClosed := by
  cases r with
  | ok a => exact hf a
  | error e => simp [ofLog]

/-- No event but a listener's opening is answered so at once, and that only where commands are not
handled. -/
theorem react_ne_closed (hcan : h.registry.canOpen = true) {e : Event}
    (hm : e.isCommand = true → h.managed = true) :
    (h.react e).1 ≠ .error .managerClosed := by
  cases e with
  | listen name room =>
      have hopen : h.openListener room = (some (h.registry.openListener room).1,
          { h with registry := (h.registry.openListener room).2 }) := by
        simp [openListener, hm rfl, hcan]
      simp [react, hopen]
  | history room | getDirect sender receiver | deleteDirect sender receiver =>
      exact ofLog_ne_closed _ (by simp)
  | direct sender receiver text =>
      simp only [react]
      split
      · simp
      · split <;> simp
  | receive name =>
      simp only [react]
      split
      · simp
      · dsimp only
        split <;> simp
  | listenAbandoned room | close name room | closeHeld name | tryReceive name | sinkReceive name
  | connect name connection | text name s | disconnect name =>
      simp only [react]
      split <;> simp
  | pump name capacity heading | cancel name =>
      simp only [react]
      split
      · simp
      · split <;> simp
  | drop name | ignored name =>
      simp only [react]
      split <;> simp
  | _ => simp [react]

theorem Staffed.dated (hs : h.Staffed) (wall : Instant) : (h.dated wall).Staffed :=
  ⟨hs.canOpen, hs.managed⟩

/-- Where commands are handled for as long as anybody can give them, nobody is told otherwise. -/
theorem Staffed.face_ne_closed (hs : h.Staffed) {m : Moment} (hm : m.event ≠ .flush) :
    (h.face m).1 ≠ .error .managerClosed := by
  obtain ⟨wall, e⟩ := m
  show ((h.dated wall).step e).1 ≠ _
  cases hr : (h.dated wall).refuses e with
  | false =>
      have hreact := react_ne_closed (hs.dated wall).canOpen (managed_of_not_refuses hr)
      rw [step_fst hr]
      generalize ((h.dated wall).react e).1 = a at hreact ⊢
      cases e with
      | flush => exact absurd rfl hm
      | disconnect name =>
          simp only [conclude, forget]
          split
          · simp
          · split
            · simp
            · split <;> simp
      | _ => exact hreact
  | true =>
      -- a command that is given is handled, since it takes a handle to give one
      simp only [refuses, Bool.or_eq_true] at hr
      unfold step
      cases hh : e.needsHandle && !(h.dated wall).handle with
      | true => simp
      | false =>
          have hcommand := hr.resolve_left (by simp [hh])
          have hneeds : e.needsHandle = true := by
            cases e <;> first | rfl | simp [Event.isCommand] at hcommand
          have hhandle : (h.dated wall).handle = true := by simpa [hneeds] using hh
          have hmanaged := (hs.dated wall).managed (attended_iff.2 (.inl hhandle))
          simp [hmanaged] at hcommand

/-! ### Barriers -/

theorem moves_append (h : Hub) (ms ms' : List Moment) :
    h.moves (ms ++ ms') = h.moves ms ++ (h.through ms).moves ms' := by
  rw [moves, scripts_append, logSides_append, pieces_scripts]
  rfl

theorem flushAnswer_eq_closed {ticket : Nat} : h.flushAnswer ticket = .error .managerClosed ↔
    h.journal.writer.flushState ticket = .dropped := by
  unfold flushAnswer
  cases h.journal.writer.flushState ticket <;> simp

theorem flushAnswer_eq_done {ticket : Nat} :
    h.flushAnswer ticket = .done ↔ h.journal.writer.flushState ticket = .done := by
  unfold flushAnswer
  cases h.journal.writer.flushState ticket <;> simp

theorem Staffed.not_refuses (hs : h.Staffed) (hh : h.handle = true) (e : Event) :
    h.refuses e = false := by
  simp [refuses, hh, hs.managed (attended_iff.2 (.inl hh))]

/-- A flush that is not turned away hands a barrier over and then shows what has become of it. -/
theorem face_flush {wall : Instant} (hr : (h.dated wall).refuses .flush = false) :
    (h.face ⟨wall, .flush⟩).1 = (h.face ⟨wall, .flush⟩).2.flushAnswer h.journal.ticket ∧
      ∃ mvs, h.moves [⟨wall, .flush⟩] = .flush :: mvs := by
  constructor
  · have hface : (h.face ⟨wall, .flush⟩).1 = ((h.dated wall).step .flush).1 := rfl
    have hconclude : ∀ (before after : Hub) (a : Answer),
        (conclude before after a .flush).1 = after.flushAnswer before.journal.ticket :=
      fun _ _ _ => rfl
    have hjournal : (h.face ⟨wall, .flush⟩).2.journal =
        ((h.dated wall).react .flush).2.settle.journal := journal_face hr
    have hticket : (h.dated wall).journal.ticket = h.journal.ticket := rfl
    rw [hface, step_fst hr, hconclude, flushAnswer, flushAnswer, hjournal, hticket]
  · obtain ⟨rest, hrest⟩ : ∃ rest,
        h.scripts [⟨wall, .flush⟩] = .date wall :: .react .flush :: rest := by
      rw [scripts, scripts, List.append_nil, script, hr, if_neg Bool.false_ne_true]
      exact ⟨_, rfl⟩
    refine ⟨((h.dated wall).react .flush).2.logSides rest, ?_⟩
    rw [moves, hrest]
    rfl

/-! ### A run -/

/-- How a server goes on whatever becomes of its writer, and what a flush shows of that. -/
structure Outlasts (start : Hub) (ms : List Moment) : Prop where
  /-- Whatever is asked, a flush apart, nobody is told that commands are no longer handled. -/
  answers : ∀ before m after, ms = before ++ m :: after → m.event ≠ .flush →
    ((start.through before).face m).1 ≠ .error .managerClosed
  /-- At every stage they are handled if there is anybody to give them. -/
  managed : ∀ ps qs, start.scripts ms = ps ++ qs →
    (start.pieces ps).attended = true → (start.pieces ps).managed = true
  /-- A connection that is there ends by its client's departure, or by a direct message whose
  deadline lies beyond the clock. -/
  departures : ∀ ps p qs, start.scripts ms = ps ++ p :: qs → ∀ name c,
    (start.pieces ps).connections.get? name = some c → c.alive = true →
    (∀ c', ((start.pieces ps).piece p).connections.get? name = some c' → c'.alive = false) →
    (start.pieces ps).Departs name c p
  /-- What is answered at once, and what becomes of rooms, listeners, pumps and connections, is the
  same with any other writer. -/
  front : ∀ ps p qs, start.scripts ms = ps ++ p :: qs → ∀ writer,
    SameFront ((start.pieces ps).piece p) (((start.pieces ps).withWriter writer).piece p) ∧
      ∀ e, p = .react e →
        (((start.pieces ps).withWriter writer).react e).1 = ((start.pieces ps).react e).1
  /-- What is said in a room reaches those who listen there and have room for it. -/
  delivery : ∀ ps qs, start.scripts ms = ps ++ qs → ∀ sender text l,
    let stage := start.pieces ps
    stage.Handles l → stage.registry.lists l.room l.id = true → stage.registry.holds l.id = true →
    (stage.piece (.react (.submit sender l.room text))).registry.waiting l.id =
      stage.registry.waiting l.id ++
        if (stage.registry.waiting l.id).length < stage.registry.capacity then
          [sender.text ++ ": " ++ text]
        else []
  /-- The writer is dead just if it has appended a value whose deadline lies beyond the clock. -/
  dead : (start.through ms).journal.writer.phase = .dead ↔
    ∃ a ∈ start.journal.made .writer (start.moves ms), a.isFatal = true
  /-- A flush that goes on waiting is done just if its barrier has been passed, and is told that
  commands are no longer handled just if the writer has died before that. What it shows at once is
  what has become of it by then. -/
  flush : ∀ before wall after, ms = before ++ ⟨wall, .flush⟩ :: after →
    (start.through before).handle = true →
    let ticket := (start.through before).journal.ticket
    let made := (start.journal.made .writer (start.moves ms)).map Attempt.write
    ((start.through ms).flushAnswer ticket = .done ↔ .flush ticket ∈ made) ∧
      ((start.through ms).flushAnswer ticket = .error .managerClosed ↔
        (start.through ms).journal.writer.phase = .dead ∧ .flush ticket ∉ made) ∧
      (after = [] → ((start.through before).face ⟨wall, .flush⟩).1 =
        (start.through ms).flushAnswer ticket)

/-- A server that has just been started and can open listeners. -/
structure Begun (start : Hub) : Prop where
  inOrder : start.InOrder
  staffed : start.Staffed
  tied : start.Tied
  started : start.journal.writer.Started
  sequenced : start.journal.writer.Sequenced start.journal.ticket [] []
  alive : start.journal.writer.phase ≠ .dead

theorem begun_new (tuning : Tuning) (outages : Outages) (gated : Bool) (wall : Instant)
    (hcan : Channel.isCapacity (max tuning.subscriberBuffer 1) = true) :
    (new tuning outages gated wall).Begun where
  inOrder := inOrder_new tuning outages gated wall
  staffed := staffed_new tuning outages gated wall hcan
  tied := tied_new tuning outages gated wall
  started := .inl rfl
  sequenced := (LogWriter.sequenced_new tuning.logQueue).start
  alive := by simp [new, Journal.new, LogWriter.new, LogWriter.start]

/-- A server that has been started is as all of its tuning are. -/
theorem eq_new {tuning : Tuning} {outages : Outages} {gated : Bool} {wall : Instant} {start : Hub}
    (hstart : start? tuning outages gated wall = some start) :
    start = new tuning outages gated wall := by
  unfold start? at hstart
  split at hstart
  · exact (Option.some.inj hstart).symm
  · simp at hstart

namespace Begun

variable {start : Hub}

theorem staffed_of_runs (hb : start.Begun) {ps qs : List Piece}
    (hps : start.scripts ms = ps ++ qs) : (start.pieces ps).Staffed := by
  obtain ⟨vs, subs, hk⟩ := hb.inOrder.kept
  have hruns := runs_scripts start ms
  rw [hps] at hruns
  exact hb.staffed.pieces hk (runs_append.1 hruns).1

theorem staffed_through (hb : start.Begun) (ms : List Moment) : (start.through ms).Staffed := by
  rw [← pieces_scripts]
  exact hb.staffed_of_runs (List.append_nil _).symm

/-- A flush by whoever holds a handle, and what has become of it some time later. -/
theorem flush (hb : start.Begun) (before : List Moment) (wall : Instant) (after : List Moment)
    (hh : (start.through before).handle = true) :
    let ms := before ++ ⟨wall, .flush⟩ :: after
    let ticket := (start.through before).journal.ticket
    let made := (start.journal.made .writer (start.moves ms)).map Attempt.write
    ((start.through ms).journal.writer.flushState ticket = .done ↔ .flush ticket ∈ made) ∧
      ((start.through ms).journal.writer.flushState ticket = .dropped ↔
        (start.through ms).journal.writer.phase = .dead ∧ .flush ticket ∉ made) := by
  intro ms ticket made
  have hstaffed := hb.staffed_through before
  have hrefuses : ((start.through before).dated wall).refuses .flush = false :=
    (hstaffed.dated wall).not_refuses hh .flush
  have hfed : (start.through before).journal.writer.fed = true := by
    have htied := hb.tied.pieces (start.scripts before)
    rw [pieces_scripts] at htied
    rw [htied, hstaffed.managed (attended_iff.2 (.inl hh))]
  have hbefore := (goes_moves start before).1
  have hstarted := Journal.started_goes hb.started .writer (start.moves before)
  have hsequenced := Journal.sequenced_goes hb.sequenced .writer (start.moves before)
  rw [← hbefore] at hstarted hsequenced
  -- the moves of what comes after the flush, with its barrier first
  obtain ⟨mvs, hmvs⟩ := (face_flush hrefuses).2
  obtain ⟨later, hlater⟩ : ∃ later,
      (start.through before).moves (⟨wall, .flush⟩ :: after) = .flush :: later := by
    refine ⟨mvs ++ ((start.through before).through [⟨wall, .flush⟩]).moves after, ?_⟩
    rw [← List.singleton_append, moves_append, hmvs, List.cons_append]
  have hjournal : (start.through ms).journal =
      (start.through before).journal.goes .writer (.flush :: later) := by
    rw [through_append, (goes_moves _ _).1, hlater]
  have hmade : start.journal.made .writer (start.moves ms) =
      start.journal.made .writer (start.moves before) ++
        (start.through before).journal.made .writer (.flush :: later) := by
    rw [moves_append, Journal.made, Journal.along_append, hlater, hbefore]
    rfl
  have hstate := Journal.flushState_iff .writer hstarted hsequenced hfed later
  rw [hjournal]
  show (_ ↔ _ ∈ (start.journal.made .writer (start.moves ms)).map _) ∧
    (_ ↔ _ ∧ _ ∉ (start.journal.made .writer (start.moves ms)).map _)
  rw [hmade]
  exact hstate

end Begun

/-- To be told that commands are no longer handled means that the writer is dead, and nothing else.
However a server that can open listeners is used, and however its store fails, whoever can give
commands has them handled, and only a flush is ever told otherwise: one whose barrier the writer has
not passed before it died. -/
theorem closed_means_dead_writer {tuning : Tuning} {outages : Outages} {gated : Bool}
    {wall : Instant} {start : Hub} (hstart : start? tuning outages gated wall = some start)
    (hcan : Channel.isCapacity (max tuning.subscriberBuffer 1) = true) (ms : List Moment) :
    start.Outlasts ms := by
  have hb : start.Begun := eq_new hstart ▸ begun_new tuning outages gated wall hcan
  refine ⟨?_, fun ps qs hps => (hb.staffed_of_runs hps).managed, ?_, ?_, ?_, ?_, ?_⟩
  · rintro before m after - hm
    exact (hb.staffed_through before).face_ne_closed hm
  · intro ps p qs hps name c hc ha hgone
    have hstaffed := hb.staffed_of_runs hps
    exact departs_of_piece (hstaffed.managed (attended_of_alive hc ha)) hstaffed.canOpen hc ha hgone
  · rintro ps p qs - writer
    exact ⟨sameFront_piece _ writer p, fun e _ => (react_withWriter _ writer e).1⟩
  · rintro ps qs - sender text l stage hhandles hlists hholds
    have hinOrder := hb.inOrder.pieces ps
    obtain ⟨vs, subs, hk⟩ := hinOrder.kept
    obtain ⟨c, hc⟩ := hinOrder.tidy.known l hhandles
    exact hc.waiting_publish hk.proper hlists (hc.holds_eq ▸ hholds) _
  · rw [(goes_moves start ms).1, Journal.dead_goes_iff, or_iff_right hb.alive]
  · rintro before wall after rfl hh ticket made
    obtain ⟨hdone, hdropped⟩ := hb.flush before wall after hh
    refine ⟨flushAnswer_eq_done.trans hdone, flushAnswer_eq_closed.trans hdropped, ?_⟩
    rintro rfl
    have hrefuses := ((hb.staffed_through before).dated wall).not_refuses hh .flush
    rw [through_append]
    exact (face_flush hrefuses).1

/-- A message to a room whose deadline lies beyond the clock, and a flush of it. -/
def beyondClock : List Moment :=
  [Event.listen "l" ⟨"r"⟩, .submit ⟨"a"⟩ ⟨"r"⟩ "x", .flush].map (Moment.mk default)

theorem closed_means_dead_writer_late :
    let tuning : Tuning := { Tuning.default with ttl := Duration.ofSeconds 18446744073709551615 }
    let start := new tuning Outages.none false default
    start? tuning Outages.none false default = some start ∧
      Channel.isCapacity (max tuning.subscriberBuffer 1) = true ∧
      (start.through beyondClock).flushAnswer 0 = .error .managerClosed ∧
      (start.through beyondClock).registry.waiting ⟨0⟩ = ["a: x"] ∧
      .flush 0 ∉ (start.journal.made .writer (start.moves beyondClock)).map Attempt.write := by
  intro tuning start
  have hstart : start? tuning Outages.none false default = some start := by rfl
  have hcan : Channel.isCapacity (max tuning.subscriberBuffer 1) = true := by decide
  have houtlasts := closed_means_dead_writer hstart hcan beyondClock
  have hhandle : (start.through (beyondClock.take 2)).handle = true := by decide +kernel
  have hticket : (start.through (beyondClock.take 2)).journal.ticket = 0 := by decide +kernel
  obtain ⟨-, hclosed, -⟩ := houtlasts.flush (beyondClock.take 2) default [] rfl hhandle
  rw [hticket] at hclosed
  have hanswer : (start.through beyondClock).flushAnswer 0 = .error .managerClosed :=
    flushAnswer_eq_closed.2 (by decide +kernel)
  exact ⟨hstart, hcan, hanswer, by decide +kernel, (hclosed.1 hanswer).2⟩

end ChatServer.Hub
