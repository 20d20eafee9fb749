import ChatServer.CommandLine.Parse
import ChatServer.Proofs.Connection.Desk
import ChatServer.Proofs.Connection.Heard
import ChatServer.Proofs.History.Lifetime
import ChatServer.Proofs.Log.Survival

/-!
How long a server over a working store keeps its log. Between two moments nothing is in line, and as
long as a handle is held the writer is there, unless it has ended; and it has ended just if it has
attempted an append whose deadline lies beyond the clock.
-/

namespace ChatServer.Hub

/-- Events that do not put the store out of order. -/
def Event.isHealthy : Event → Bool
  | .outages _ => false
  | _ => true

def Piece.isHealthy : Piece → Bool
  | .react e => e.isHealthy
  | _ => true

variable {h h' : Hub} {vs : Visitors} {subs : List Subscription} {p : Piece}
  {mv : Journal.Move Task}

theorem Piece.isHealthy_of_isBackground (hp : p.isBackground = true) : p.isHealthy = true := by
  cases p <;> first | rfl | simp [isBackground] at hp

theorem Piece.isHealthy_of_react (hp : ∀ {e}, p = .react e → e.isHealthy = true) :
    p.isHealthy = true := by
  cases p with
  | react e => exact hp rfl
  | _ => rfl

theorem Piece.isRaw_of_react (hp : ∀ {c}, p ≠ .react (.log c)) : p.isRaw = false := by
  cases p with
  | react e =>
      cases e with
      | log c => exact absurd rfl hp
      | _ => rfl
  | _ => rfl

theorem Works.isCalm (hw : h.Works p mv) (hp : p.isHealthy = true) : mv.isCalm = true := by
  cases hw with
  | outages o event =>
      rw [event] at hp
      simp [Piece.isHealthy, Event.isHealthy] at hp
  | _ => rfl

theorem Works.ne_release (hw : h.Works p mv) (hcan : h.registry.canOpen = true)
    (hp : p ≠ .retire) : mv ≠ .release := by
  rintro rfl
  cases hw with
  | release nobody =>
      rcases nobody with hcannot | ⟨hretire, -⟩
      · simp [hcan] at hcannot
      · exact hp hretire

theorem Works.isOffer_eq_false (hw : h.Works p mv) (hp : p.isAsked = false) :
    mv.isOffer = false := by
  cases hw with
  | append room value asked | purge room asked | flush asked => simp [hp] at asked
  | _ => rfl

theorem isCalm_logSides {ps : List Piece} (hps : ∀ p ∈ ps, p.isHealthy = true) :
    ∀ mv ∈ h.logSides ps, mv.isCalm = true := by
  intro mv hmv
  obtain ⟨g, p, hp, -, hworks⟩ := mem_logSides hmv
  exact hworks.isCalm (hps p hp)

/-! ### Within a moment -/

/-- A server over a working store on which listeners can be opened: as long as a handle is held
commands are handled, and as long as they are handled the writer can be handed writes. -/
structure Tended (h : Hub) : Prop where
  going : h.journal.Going
  canOpen : h.registry.canOpen = true
  fed : h.managed = true → h.journal.writer.fed = true
  managed : h.handle = true → h.managed = true

theorem tended_new (tuning : Tuning) (wall : Instant)
    (hcan : Channel.isCapacity (max tuning.subscriberBuffer 1) = true) :
    (new tuning Outages.none false wall).Tended :=
  ⟨⟨rfl, .inl rfl⟩, hcan, fun _ => rfl, fun _ => rfl⟩

/-- Every piece of work leaves a server tended. -/
theorem Tended.piece (ht : h.Tended) (hk : h.Kept vs subs) (hp : p.isHealthy = true) :
    (h.piece p).Tended := by
  have hjournal := (logs_piece h p).journal
  have hcalm : ∀ mv ∈ h.logSide p, mv.isCalm = true := fun mv hmv => (works_logSide hmv).isCalm hp
  have hgoing : (h.piece p).journal.Going := by
    rw [hjournal]
    exact Journal.going_goes ht.going .writer hcalm
  have hmanned : (h.piece p).Manned := Manned.piece ⟨ht.canOpen, ht.managed⟩ hk p
  refine ⟨hgoing, hmanned.canOpen, fun hm => ?_, hmanned.managed⟩
  by_cases hretire : p = .retire
  · subst hretire
    rcases retire_cases h with hsame | ⟨-, -, hmanaged⟩
    · rw [piece, hsame] at hm ⊢
      exact ht.fed hm
    · rw [piece, hmanaged] at hm
      simp at hm
  · have hkeep : ∀ mv ∈ h.logSide p, mv ≠ .release := fun mv hmv =>
      (works_logSide hmv).ne_release ht.canOpen hretire
    rw [hjournal, Journal.fed_goes hkeep]
    exact ht.fed ((charge_piece h hretire).managed ht.canOpen ▸ hm)

theorem Tended.pieces (ht : h.Tended) (hk : h.Kept vs subs) {ps : List Piece}
    (hps : ∀ p ∈ ps, p.isHealthy = true) : (h.pieces ps).Tended := by
  induction ps generalizing h vs subs with
  | nil => exact ht
  | cons p ps ih =>
      exact ih (ht.piece hk (hps p List.mem_cons_self)) (hk.after_piece p) fun p' hp' =>
        hps p' (List.mem_cons_of_mem p hp')

theorem ungated_piece (hu : h.Ungated) (p : Piece) : (h.piece p).Ungated := by
  cases p with
  | react e => exact ungated_react hu e
  | serve name =>
      rw [piece]
      cases hserve : h.serveNext name with
      | none => exact hu
      | some after => exact (unserved_serveNext hu hserve).1
  | _ => exact (unserved_piece hu (by simp) (by simp)).1

theorem ungated_pieces (hu : h.Ungated) (ps : List Piece) : (h.pieces ps).Ungated :=
  pieces_invariant (fun _ p _ hg => ungated_piece hg p) hu

theorem halts_runWriter (h : Hub) :
    h.runWriter.journal.writer.Halts h.runWriter.journal.store .writer :=
  LogWriter.halts_run _ _ _ _

theorem started_runWriter (hs : h.journal.writer.Started) :
    h.runWriter.journal.writer.Started := by
  have hlogs : h.runWriter.journal = _ := (logs_piece h .write).journal
  rw [hlogs]
  exact Journal.started_goes hs .writer _

/-- Where nobody has to wait a writer that has been started leaves nothing in line. -/
theorem queue_runWriter (hu : h.Ungated) (hs : h.journal.writer.Started) :
    h.runWriter.journal.writer.queue = [] :=
  (halts_runWriter h).queue_eq_nil (started_runWriter hs)
    (LogWriter.waits_of_ungated (ungated_runWriter hu) _ _)

/-- When the background work is done nothing is in line. -/
theorem queue_settle (ht : h.Tended) (hk : h.Kept vs subs) (hu : h.Ungated) :
    h.settle.journal.writer.queue = [] := by
  let before := h.inboxesScript h.connections.keys ++
    (h.pieces (h.inboxesScript h.connections.keys)).passScript
  have hsettle : h.settle = (h.pieces before).runWriter.retire := by
    rw [← pieces_settleScript, settleScript_of_ungated hu, ← List.append_assoc, pieces_append]
    rfl
  have hbackground : ∀ p ∈ before, p.isBackground = true := by
    intro p hp
    rcases List.mem_append.1 hp with hp | hp
    · exact background_inboxesScript h _ p hp
    · exact background_passScript _ p hp
  have htended := ht.pieces hk fun p hp => Piece.isHealthy_of_isBackground (hbackground p hp)
  have hungated := ungated_pieces hu before
  have hstarted := htended.going.started
  rw [hsettle, retire]
  split
  · -- the writer that is let go of has nothing left to attempt
    exact queue_runWriter (h := (h.pieces before).runWriter.dismiss) (ungated_runWriter hungated)
      (started_runWriter hstarted).release
  · exact queue_runWriter hungated hstarted

/-! ### Between moments -/

/-- A server between two moments: nothing waits to be served, and nothing is in line. -/
structure Rested (h : Hub) : Prop where
  idle : ∃ vs, h.Idle vs
  tended : h.Tended
  queue : h.journal.writer.queue = []

theorem rested_new (tuning : Tuning) (wall : Instant)
    (hcan : Channel.isCapacity (max tuning.subscriberBuffer 1) = true) :
    (new tuning Outages.none false wall).Rested :=
  ⟨⟨_, idle_new tuning Outages.none wall⟩, tended_new tuning wall hcan, rfl⟩

theorem Rested.dated (hr : h.Rested) (wall : Instant) : (h.dated wall).Rested := by
  obtain ⟨vs, hi⟩ := hr.idle
  exact ⟨⟨vs, hi.dated wall⟩, ⟨hr.tended.going, hr.tended.canOpen, hr.tended.fed,
    hr.tended.managed⟩, hr.queue⟩

/-- The only event in the work for an event is that one. -/
theorem react_mem_work {e e' : Event} (hp : .react e' ∈ h.work e) : e' = e := by
  rcases List.mem_cons.1 hp with heq | hp
  · exact Piece.react.inj heq
  · rcases List.mem_append.1 hp with hp | hp
    · have hbackground := background_settleScript _ _ hp
      simp [Piece.isBackground] at hbackground
    · rcases concludeScript_cases (h.react e).1 e with hscript | ⟨name, hscript⟩ <;>
        simp [hscript] at hp

theorem react_mem_script {m : Moment} {e : Event} (hp : .react e ∈ h.script m) : e = m.event := by
  unfold script at hp
  split at hp
  · simp at hp
  · rcases List.mem_cons.1 hp with heq | hp
    · simp at heq
    · rcases List.mem_append.1 hp with hp | hp
      · exact react_mem_work hp
      · simp at hp

theorem isHealthy_script {m : Moment} (hm : m.event.isHealthy = true) :
    ∀ p ∈ h.script m, p.isHealthy = true := by
  intro p hp
  refine Piece.isHealthy_of_react fun heq => ?_
  subst heq
  rw [react_mem_script hp]
  exact hm

/-- In the end clients are forgotten at most. -/
theorem concludeScript_eq (h : Hub) (a : Answer) (e : Event) :
    ∃ connections, h.pieces (concludeScript a e) = { h with connections } := by
  rcases concludeScript_cases a e with hscript | ⟨name, hscript⟩
  · rw [hscript]
    exact ⟨h.connections, rfl⟩
  · rw [hscript]
    rcases forget_cases h name with heq | ⟨c, -, -, heq⟩ <;> exact ⟨_, heq⟩

theorem journal_concludeScript (g : Hub) (a : Answer) (e : Event) :
    (g.pieces (concludeScript a e)).journal = g.journal := by
  obtain ⟨connections, heq⟩ := concludeScript_eq g a e
  rw [heq]

theorem journal_collect (g : Hub) : g.collect.2.journal = g.journal := rfl

/-- What a moment leaves in which an event is not turned away. -/
theorem face_snd {m : Moment} (hr : (h.dated m.wall).refuses m.event = false) :
    (h.face m).2 = (((h.dated m.wall).react m.event).2.settle.pieces
      (concludeScript ((h.dated m.wall).react m.event).1 m.event)).collect.2 := by
  have hface : (h.face m).2 =
      ((h.dated m.wall).pieces ((h.dated m.wall).work m.event)).collect.2 :=
    congrArg Prod.snd (step_eq_collect hr)
  rw [hface, work, pieces_cons, pieces_append, piece, pieces_settleScript]

/-- One in which it is turned away leaves everything as it was. -/
theorem face_snd_of_refuses {m : Moment} (hr : (h.dated m.wall).refuses m.event = true) :
    (h.face m).2 = h.dated m.wall := by
  simp only [face, (step_of_refuses hr).2]

/-- The log is as the background work has left it. -/
theorem journal_face {m : Moment} (hr : (h.dated m.wall).refuses m.event = false) :
    (h.face m).2.journal = ((h.dated m.wall).react m.event).2.settle.journal := by
  rw [face_snd hr, journal_collect, journal_concludeScript]

theorem Rested.face (hr : h.Rested) {m : Moment} (hm : m.event.isHealthy = true) :
    (h.face m).2.Rested := by
  obtain ⟨vs, hi⟩ := hr.idle
  obtain ⟨subs, hk⟩ := hi.kept
  have htended := hr.tended.pieces hk (isHealthy_script (h := h) hm)
  rw [pieces_script] at htended
  refine ⟨⟨_, (hi.moment m).1⟩, htended, ?_⟩
  have hdated := hr.dated m.wall
  cases hrefused : (h.dated m.wall).refuses m.event with
  | true =>
      rw [face_snd_of_refuses hrefused]
      exact hr.queue
  | false =>
      obtain ⟨vs', hi'⟩ := hdated.idle
      obtain ⟨subs', hk'⟩ := hi'.kept
      rw [journal_face hrefused]
      exact queue_settle (hdated.tended.piece hk' (p := .react m.event) hm)
        (hk'.after_piece (.react m.event)) (ungated_react hi'.ungated m.event)

theorem Rested.through (hr : h.Rested) {ms : List Moment}
    (hms : ∀ m ∈ ms, m.event.isHealthy = true) : (h.through ms).Rested := by
  induction ms generalizing h with
  | nil => exact hr
  | cons m ms ih =>
      exact ih (hr.face (hms m List.mem_cons_self)) fun m' hm' =>
        hms m' (List.mem_cons_of_mem m hm')

theorem Rested.ungated (hr : h.Rested) : h.Ungated := by
  obtain ⟨vs, hi⟩ := hr.idle
  exact hi.ungated

theorem react_mem_scripts {ms : List Moment} {e : Event} (hp : .react e ∈ h.scripts ms) :
    ∃ m ∈ ms, m.event = e := by
  induction ms generalizing h with
  | nil => simp [scripts] at hp
  | cons m ms ih =>
      rcases List.mem_append.1 hp with hp | hp
      · exact ⟨m, List.mem_cons_self, (react_mem_script hp).symm⟩
      · obtain ⟨m', hm', he⟩ := ih hp
        exact ⟨m', List.mem_cons_of_mem m hm', he⟩

theorem isHealthy_scripts {ms : List Moment} (hms : ∀ m ∈ ms, m.event.isHealthy = true) :
    ∀ p ∈ h.scripts ms, p.isHealthy = true := by
  intro p hp
  refine Piece.isHealthy_of_react fun heq => ?_
  subst heq
  obtain ⟨m, hm, rfl⟩ := react_mem_scripts hp
  exact hms m hm

/-! ### Flushing and storing -/

/-- The writer has been ended by a deadline. -/
def Ended (h : Hub) : Prop := h.journal.writer.phase = .dead

instance (h : Hub) : Decidable h.Ended := inferInstanceAs (Decidable (_ = _))

/-- Where nothing waits to be served nothing is handed to the writer in the background. -/
theorem isOffer_logSides {ds : List Deed} (hu : h.Underway vs ds none) {ps : List Piece}
    (hps : ∀ p ∈ ps, p.isBackground = true) : ∀ mv ∈ h.logSides ps, mv.isOffer = false := by
  induction ps generalizing h with
  | nil => simp [logSides]
  | cons p ps ih =>
      have hp := hps p List.mem_cons_self
      intro mv hmv
      rcases List.mem_append.1 hmv with hmv | hmv
      · rcases hu.background hp with ⟨-, hnext, -⟩
        cases hasked : p.isAsked with
        | false => exact (works_logSide hmv).isOffer_eq_false hasked
        | true =>
            cases p with
            | serve name =>
                have hserve : h.serveNext name = none := hu.serveNext_eq_none name
                simp [logSide, hserve] at hmv
            | react e => simp [Piece.isBackground] at hp
            | _ => simp [Piece.isAsked] at hasked
      · exact ih (hu.background hp).2.1 (fun p' hp' => hps p' (List.mem_cons_of_mem p hp')) mv hmv

variable {line : List LogWrite} {made : List Attempt}

/-- While a handle is held the writer is there, unless it has ended. -/
theorem Rested.running (hr : h.Rested) (hh : h.handle = true)
    (halive : ¬h.Ended) : h.journal.writer.phase = .running := by
  rcases hr.tended.going.writer with hphase | ⟨-, hdead | ⟨-, hfed⟩⟩
  · exact hphase
  · exact absurd hdead halive
  · rw [hr.tended.fed (hr.tended.managed hh)] at hfed
    simp at hfed

/-- Whoever holds a handle is not turned away. -/
theorem Rested.face_fst (hr : h.Rested) (hh : h.handle = true) (wall : Instant) (e : Event) :
    (h.face ⟨wall, e⟩).1 = (conclude (h.dated wall) ((h.dated wall).react e).2.settle
      ((h.dated wall).react e).1 e).1 := by
  have hrefused : (h.dated wall).refuses e = false := by
    show (e.needsHandle && !h.handle || e.isCommand && !h.managed) = false
    rw [hh, hr.tended.managed hh]
    simp
  have hface : (h.face ⟨wall, e⟩).1 = ((h.dated wall).step e).1 := rfl
  rw [hface, step_fst hrefused]

/-- When a barrier has been handed over the background work brings nothing else into the line. -/
theorem Rested.settle_flush (hr : h.Rested)
    (hs : h.journal.writer.Sequenced h.journal.ticket line made) (hh : h.handle = true) {g : Hub}
    {ds : List Deed} (hg : g.journal = h.journal.go .writer .flush) (htended : g.Tended)
    (hunderway : g.Underway vs ds none) : g.settle.flushAnswer h.journal.ticket =
      if h.Ended then .error .managerClosed else .done := by
  obtain ⟨subs, hk⟩ := hunderway.kept
  have hbackground := background_settleScript g
  have hjournal : g.settle.journal =
      h.journal.goes .writer (.flush :: g.logSides g.settleScript) := by
    rw [← pieces_settleScript, (logs_pieces g g.settleScript).journal, hg]
    rfl
  have hqueue := queue_settle htended hk hunderway.ungated
  have hcalm : ∀ mv ∈ g.logSides g.settleScript, mv.isCalm = true :=
    isCalm_logSides fun p hp => Piece.isHealthy_of_isBackground (hbackground p hp)
  have hstate := Journal.flushState_goes hr.tended.going hs hr.queue (hr.running hh) hcalm
    (isOffer_logSides hunderway hbackground) (hjournal ▸ hqueue)
  rw [flushAnswer, hjournal, hstate]
  by_cases hdead : h.Ended
  · have hphase : h.journal.writer.phase = .dead := hdead
    rw [if_pos hphase, if_pos hdead]
  · have hphase : ¬h.journal.writer.phase = .dead := hdead
    rw [if_neg hphase, if_neg hdead]

/-- A flush comes to its end unless the writer has come to its own. -/
theorem Rested.flush (hr : h.Rested)
    (hs : h.journal.writer.Sequenced h.journal.ticket line made) (hh : h.handle = true)
    (wall : Instant) : (h.face ⟨wall, .flush⟩).1 =
      if h.Ended then .error .managerClosed else .done := by
  have hconclude : ∀ (before after : Hub) (a : Answer),
      (conclude before after a .flush).1 = after.flushAnswer before.journal.ticket :=
    fun _ _ _ => rfl
  obtain ⟨vs, hi⟩ := (hr.dated wall).idle
  obtain ⟨subs, hk⟩ := hi.kept
  rw [hr.face_fst hh wall .flush, hconclude]
  exact hr.settle_flush hs hh rfl ((hr.dated wall).tended.piece hk (p := .react .flush) rfl)
    (hi.react .flush)

/-- While a handle is held and the writer is there it takes whatever it is handed, and afterwards
nothing. -/
theorem Rested.push (hr : h.Rested)
    (hs : h.journal.writer.Sequenced h.journal.ticket line made) (hh : h.handle = true)
    (hcapacity : 0 < h.journal.writer.capacity) (x : LogWrite) :
    (h.journal.push x).1.isOk = true ↔ ¬h.Ended := by
  show (h.journal.writer.push x).1.isOk = true ↔ _
  rw [LogWriter.push_isOk]
  refine ⟨fun hok => (LogWriter.phase_of_accepting hok.1).1, fun halive => ?_⟩
  have haccepting : h.journal.writer.accepting = true := by
    simp [LogWriter.accepting, hr.running hh halive]
  refine ⟨haccepting, fun _ => ?_⟩
  rw [(hs.countP_line haccepting).1, hr.queue]
  exact hcapacity

theorem acquire_of_ungated (hu : h.Ungated) (who : Task) : h.acquire who = (true, h) := by
  rw [acquire, Store.acquire_ungated hu]
  rfl

/-- A direct message is stored, or the clock cannot show its deadline. -/
theorem direct_of_going (hg : h.journal.Going) (sender receiver : UserId) (text : String) :
    (h.direct sender receiver text).1 =
      if Time.limit ≤ h.journal.now + h.tuning.ttl then .overflow else .answered .done := by
  rw [direct_eq]
  exact Store.write_healthy hg.outages _ _ _ _

theorem Rested.direct (hr : h.Rested) (hh : h.handle = true) (wall : Instant)
    (sender receiver : UserId) (text : String) :
    (h.face ⟨wall, .direct sender receiver text⟩).1 =
      if Time.limit ≤ h.journal.now + h.tuning.ttl then .result .overflow else .done := by
  have hconclude : ∀ (before after : Hub) (a : Answer),
      (conclude before after a (.direct sender receiver text)).1 = a := fun _ _ _ => rfl
  have hdirect : ((h.dated wall).direct sender receiver text).1 =
      if Time.limit ≤ h.journal.now + h.tuning.ttl then .overflow else .answered .done :=
    direct_of_going (h := h.dated wall) hr.tended.going sender receiver text
  rw [hr.face_fst hh wall, hconclude, react,
    acquire_of_ungated (hr.dated wall).ungated .caller]
  dsimp only
  rcases hstored : (h.dated wall).direct sender receiver text with ⟨r, after⟩
  rw [hstored] at hdirect
  dsimp only at hdirect
  subst hdirect
  by_cases hlate : Time.limit ≤ h.journal.now + h.tuning.ttl
  · simp only [if_pos hlate]
  · simp only [if_neg hlate]

/-- A connection that sends a direct message is answered, or ended by a deadline that the clock
cannot show. -/
theorem serve_direct (hg : h.journal.Going) {c : Connection} {user : UserId}
    (hc : c.session.user = some user) (receiver text : String) :
    h.serve c (.direct receiver text) =
      if Time.limit ≤ h.journal.now + h.tuning.ttl then
        .ended c (h.direct user ⟨receiver⟩ text).2
      else .reply (.directSent receiver) c (h.direct user ⟨receiver⟩ text).2 := by
  have hdirect := direct_of_going hg user ⟨receiver⟩ text
  rw [serve, hc]
  dsimp only
  rcases hstored : h.direct user ⟨receiver⟩ text with ⟨r, after⟩
  rw [hstored] at hdirect
  dsimp only at hdirect
  subst hdirect
  by_cases hlate : Time.limit ≤ h.journal.now + h.tuning.ttl
  · simp only [if_pos hlate]
  · simp only [if_neg hlate]

/-! ### A run -/

/-- The moves of the log in a run. -/
def moves (h : Hub) (ms : List Moment) : List (Journal.Move Task) := h.logSides (h.scripts ms)

/-- How it goes with the log of a server in a run of moments. -/
structure Course (start : Hub) (ms : List Moment) : Prop where
  /-- The writer has ended just if it has attempted an append whose deadline lies beyond the
  clock. -/
  ended : (start.through ms).Ended ↔ ∃ a ∈ start.journal.made .writer (start.moves ms),
    a.write.isAppend = true ∧ Time.limit ≤ a.now + start.tuning.ttl
  /-- It has not while the clock can show a deadline that is set now. -/
  lives : (start.through ms).journal.now + start.tuning.ttl < Time.limit →
    ¬(start.through ms).Ended
  /-- Until then all that was accepted has been attempted. -/
  line : ¬(start.through ms).Ended →
    (start.journal.made .writer (start.moves ms)).map Attempt.write =
      start.journal.line .writer (start.moves ms)
  /-- No attempt met anything out of order. -/
  healthy : ∀ a ∈ start.journal.attempted .writer (start.moves ms), a.outages = Outages.none
  /-- The log shows what the attempts have left, if nobody writes to it past the server. -/
  log : (∀ m ∈ ms, ∀ c, m.event ≠ .log c) → ∀ key,
    (start.through ms).journal.store.log.live? (start.through ms).journal.now key =
    (Attempt.left key none (start.journal.attempted .writer (start.moves ms))).filter
      fun e => !e.expired (start.through ms).journal.now
  /-- A flush comes to its end unless the writer has come to its own. -/
  flush : (start.through ms).handle = true → ∀ wall, ((start.through ms).face ⟨wall, .flush⟩).1 =
    if (start.through ms).Ended then .error .managerClosed else .done
  /-- Until then the writer takes whatever it is handed, and afterwards nothing. -/
  push : (start.through ms).handle = true → ∀ x,
    ((start.through ms).journal.push x).1.isOk = true ↔ ¬(start.through ms).Ended
  /-- Whoever stores a direct message is ended just if its deadline lies beyond the clock. -/
  direct : (start.through ms).handle = true → ∀ wall sender receiver text,
    ((start.through ms).face ⟨wall, .direct sender receiver text⟩).1 =
      if Time.limit ≤ (start.through ms).journal.now + start.tuning.ttl then .result .overflow
      else .done
  /-- So is a connection. -/
  serve : ∀ c user receiver text, c.session.user = some user →
    (start.through ms).serve c (.direct receiver text) =
      if Time.limit ≤ (start.through ms).journal.now + start.tuning.ttl then
        .ended c ((start.through ms).direct user ⟨receiver⟩ text).2
      else .reply (.directSent receiver) c ((start.through ms).direct user ⟨receiver⟩ text).2

/-- A server that has stored nothing and handed its writer nothing. -/
structure Fresh (h : Hub) : Prop where
  rested : h.Rested
  sequenced : h.journal.writer.Sequenced h.journal.ticket [] []
  alive : ¬h.Ended
  capacity : 0 < h.journal.writer.capacity
  log : ∀ key, h.journal.store.log.live? h.journal.now key = none

theorem fresh_new (tuning : Tuning) (wall : Instant)
    (hcan : Channel.isCapacity (max tuning.subscriberBuffer 1) = true) :
    (new tuning Outages.none false wall).Fresh where
  rested := rested_new tuning wall hcan
  sequenced := (LogWriter.sequenced_new tuning.logQueue).start
  alive hended := by simp [Ended, new, Journal.new, LogWriter.new, LogWriter.start] at hended
  capacity := Nat.lt_of_lt_of_le Nat.zero_lt_one (Nat.le_max_right _ _)
  log key := rfl

variable {start : Hub} {ms : List Moment}

theorem goes_moves (start : Hub) (ms : List Moment) :
    (start.through ms).journal = start.journal.goes .writer (start.moves ms) ∧
      (start.through ms).tuning = start.tuning := by
  have hlogs := logs_pieces start (start.scripts ms)
  rw [pieces_scripts] at hlogs
  exact ⟨hlogs.journal, hlogs.tuning⟩

/-- However a run goes, its log takes this course. -/
theorem Fresh.course (hf : start.Fresh) (hms : ∀ m ∈ ms, m.event.isHealthy = true) :
    start.Course ms := by
  obtain ⟨hjournal, htuning⟩ := goes_moves start ms
  have hrested := hf.rested.through hms
  have hhealthy := isHealthy_scripts (h := start) hms
  have hcalm : ∀ mv ∈ start.moves ms, mv.isCalm = true := isCalm_logSides hhealthy
  have hsequenced : (start.through ms).journal.writer.Sequenced (start.through ms).journal.ticket
      (start.journal.line .writer (start.moves ms))
      (start.journal.made .writer (start.moves ms)) := by
    rw [hjournal]
    exact Journal.sequenced_goes hf.sequenced .writer (start.moves ms)
  have hended : (start.through ms).Ended ↔ ∃ a ∈ start.journal.made .writer (start.moves ms),
      a.write.isAppend = true ∧ Time.limit ≤ a.now + start.tuning.ttl := by
    have hdead := Journal.dead_goes hf.rested.tended.going .writer hcalm
    have hwrite : ∀ a ∈ start.journal.made .writer (start.moves ms),
        (¬a.write.Timely a.now ↔ a.write.isAppend = true ∧ Time.limit ≤ a.now + start.tuning.ttl) :=
      fun a ha => LogWrite.not_timely_iff (Journal.isRoutine_of_mem_line ttl_of_mem_logSides
        (hsequenced.order.subset (List.mem_map_of_mem ha)))
    have halive : start.journal.writer.phase ≠ .dead := hf.alive
    rw [Ended, hjournal, hdead, or_iff_right halive]
    exact exists_congr fun a => and_congr_right (hwrite a)
  refine ⟨hended, fun hclock hdead => ?_, fun halive => ?_, fun a ha => ?_, fun hraw key => ?_,
    fun hh wall => hrested.flush hsequenced hh wall, fun hh x => ?_, fun hh wall => ?_,
    fun c user receiver text hc => ?_⟩
  · -- the late attempt was made at a time that has been
    obtain ⟨a, ha, -, hlate⟩ := hended.1 hdead
    have hpast := Journal.now_le_of_mem_made.2 a ha
    rw [← hjournal] at hpast
    exact absurd (Nat.le_trans hlate (Nat.add_le_add_right hpast _)) (Nat.not_le.2 hclock)
  · rw [hsequenced.rest halive hrested.tended.going.started.phase_ne.2, hrested.queue,
      List.append_nil]
  · exact Journal.outages_of_mem_attempted hf.rested.tended.going hcalm ha
  · have hroutine : ∀ mv ∈ start.moves ms, mv.isRoutine start.tuning.ttl = true := by
      refine fun mv hmv => isRoutine_logSides (fun p hp => Piece.isRaw_of_react ?_) hmv
      rintro c rfl
      obtain ⟨m, hm, he⟩ := react_mem_scripts hp
      exact hraw m hm c he
    have hnone : start.journal.store.log.live? start.journal.now key =
        (none : Option LogEntry).filter fun e => !e.expired start.journal.now := hf.log key
    have hlog := Journal.live?_goes .writer hroutine hnone
    rw [← hjournal] at hlog
    exact hlog
  · refine hrested.push hsequenced hh ?_ x
    rw [hjournal, Journal.capacity_goes]
    exact hf.capacity
  · rw [← htuning]
    exact hrested.direct hh wall
  · rw [← htuning]
    exact serve_direct hrested.tended.going hc receiver text

/-- With whatever settings a server is started, as long as its store works and its buffers can be
had, its log takes its course: the writer lives until it attempts an append whose deadline lies
beyond the clock, and neither flush nor append comes to anything afterwards. -/
theorem writer_ends_iff_late (s : Settings) (wall : Instant)
    (hcommands : Channel.isCapacity (max s.commandBuffer 1) = true)
    (hpayloads : Channel.isCapacity (max s.subscriberBuffer 1) = true)
    (hms : ∀ m ∈ ms, m.event.isHealthy = true) :
    ∃ start, start? s.tuning Outages.none false wall = some start ∧
      start.tuning.ttl = Duration.ofSeconds s.messageTtlSeconds ∧ start.Course ms := by
  have hmax : ∀ n : Nat, max (max n 1) 1 = max n 1 := by omega
  have hcan : Channel.isCapacity (max s.tuning.commandBuffer 1) = true := by
    rw [Settings.tuning, hmax]
    exact hcommands
  have hfresh := fresh_new s.tuning wall (by
    rw [Settings.tuning, hmax]
    exact hpayloads)
  exact ⟨_, by rw [start?, if_pos hcan], rfl, hfresh.course hms⟩

/-- A message to a room, one to a user, and another to the room when the first is due. -/
def hourApart : List Moment :=
  [Event.submit ⟨"a"⟩ ⟨"r"⟩ "x", .direct ⟨"a"⟩ ⟨"b"⟩ "y", .advance (Duration.ofSeconds 3600),
    .submit ⟨"a"⟩ ⟨"r"⟩ "z"].map (Moment.mk default)

theorem writer_lives_by_default :
    Channel.isCapacity (max Settings.default.commandBuffer 1) = true ∧
      Channel.isCapacity (max Settings.default.subscriberBuffer 1) = true ∧
      (∀ m ∈ hourApart, m.event.isHealthy = true) ∧
      ∃ start, start? Settings.default.tuning Outages.none false default = some start ∧
        ¬(start.through hourApart).Ended ∧
        ((start.through hourApart).face ⟨default, .flush⟩).1 = .done := by
  have hcommands : Channel.isCapacity (max Settings.default.commandBuffer 1) = true := by decide
  have hpayloads : Channel.isCapacity (max Settings.default.subscriberBuffer 1) = true := by decide
  have hms : ∀ m ∈ hourApart, m.event.isHealthy = true := by decide
  obtain ⟨start, hstart, -, hcourse⟩ :=
    writer_ends_iff_late Settings.default default hcommands hpayloads hms
  have hnew : new Settings.default.tuning Outages.none false default = start :=
    Option.some.inj hstart
  have hclock : (start.through hourApart).journal.now + start.tuning.ttl < Time.limit := by
    subst hnew
    decide +kernel
  have hhandle : (start.through hourApart).handle = true := by
    subst hnew
    rfl
  have halive := hcourse.lives hclock
  refine ⟨hcommands, hpayloads, hms, start, hstart, halive, ?_⟩
  rw [hcourse.flush hhandle, if_neg halive]

/-- A command line is taken with which the first message to a room ends the writer: after it no
flush comes to its end, and whoever stores a direct message is ended. -/
theorem writer_ended_by_settings :
    ∃ s, CommandLine.parse ["--message-ttl-secs", "18446744073709551615"] [] = .ok s ∧
      Channel.isCapacity (max s.commandBuffer 1) = true ∧
      Channel.isCapacity (max s.subscriberBuffer 1) = true ∧
      ∃ start, start? s.tuning Outages.none false default = some start ∧
        let later := start.through [⟨default, .submit ⟨"a"⟩ ⟨"r"⟩ "x"⟩]
        later.Ended ∧ (later.face ⟨default, .flush⟩).1 = .error .managerClosed ∧
          (start.face ⟨default, .direct ⟨"a"⟩ ⟨"b"⟩ "x"⟩).1 = .result .overflow := by
  refine ⟨{ Settings.default with messageTtlSeconds := 18446744073709551615 }, ?_, ?_, ?_, _, rfl,
    ?_⟩
  · decide +kernel
  · decide
  · decide
  · exact ⟨by decide, rfl, rfl⟩

end ChatServer.Hub
