import ChatServer.Proofs.History.Direct
import ChatServer.Proofs.History.Law
import ChatServer.Proofs.History.Letters
import ChatServer.Proofs.History.Survival

/-!
Direct messages on a server whose store works and has no gate, among everything else that goes on
there. What is asked of the store of direct messages, by whoever holds a handle or by a connection,
goes past the line, and what goes through the line is kept under the keys of rooms, which are never
those of pairs. So what is found under a pair's key is what the letters say, and neither of the two
sides sees or changes anything of the other.
-/

namespace ChatServer

namespace Journal

variable {α : Type} [DecidableEq α] {me : α} {j : Journal α} {mvs : List (Move α)} {key : String}

/-- The attempt that is made past the line in a move. -/
def asideIn (j : Journal α) : Move α → List Attempt
  | .aside x => [j.attempt x]
  | _ => []

/-- The attempts that are made past the line in a run. -/
def asides (me : α) (j : Journal α) (mvs : List (Move α)) : List Attempt := j.along me asideIn mvs

theorem asides_eq_nil (h : ∀ x, .aside x ∉ mvs) : j.asides me mvs = [] := by
  induction mvs generalizing j with
  | nil => rfl
  | cons mv mvs ih =>
      have hmv : j.asideIn mv = [] := by
        cases mv with
        | aside x => exact absurd List.mem_cons_self (h x)
        | _ => rfl
      have hmvs := ih (j := j.go me mv) fun x hx => h x (List.mem_cons_of_mem mv hx)
      rw [asides, along, hmv]
      exact hmvs

/-- Under a key that the writer makes no attempts under, all are made past the line. -/
theorem attempted_filter_under (h : ∀ a ∈ j.made me mvs, a.under key = false) :
    (j.attempted me mvs).filter (Attempt.under key) =
      (j.asides me mvs).filter (Attempt.under key) := by
  induction mvs generalizing j with
  | nil => rfl
  | cons mv mvs ih =>
      have hmvs := ih fun a ha => h a (List.mem_append_right _ ha)
      have hmade : (j.madeIn me mv).filter (Attempt.under key) = [] :=
        List.filter_eq_nil_iff.2 fun a ha => by simp [h a (List.mem_append_left _ ha)]
      have hmv : (j.attemptedIn me mv).filter (Attempt.under key) =
          (j.asideIn mv).filter (Attempt.under key) := by
        cases mv with
        | aside x => rfl
        | _ => exact hmade
      simp only [attempted, asides, along, List.filter_append] at hmvs ⊢
      rw [hmv, hmvs]

/-- Where the writer does not move all attempts are made past the line. -/
theorem attempted_eq_asides (h : .turn ∉ mvs) : j.attempted me mvs = j.asides me mvs := by
  induction mvs generalizing j with
  | nil => rfl
  | cons mv mvs ih =>
      have hmv : j.attemptedIn me mv = j.asideIn mv := by
        cases mv with
        | turn => exact absurd List.mem_cons_self h
        | _ => rfl
      have hmvs := ih (j := j.go me mv) fun hturn => h (List.mem_cons_of_mem mv hturn)
      simp only [attempted, asides, along] at hmvs ⊢
      rw [hmv, hmvs]

/-- Where nothing that is handed over is kept under a key, the writer makes no attempts under it. -/
theorem under_of_mem_made (store : Store α) (capacity : Nat)
    (happend : ∀ k value ttl, .append k value ttl ∈ mvs → k ≠ key)
    (hpurge : ∀ k, .purge k ∈ mvs → k ≠ key) {a : Attempt}
    (ha : a ∈ (Journal.new store capacity).made me mvs) : a.under key = false := by
  have horder := (sequenced_new store capacity me mvs).order
  obtain ⟨now, outages, x⟩ := a
  have hline : x ∈ (Journal.new store capacity).line me mvs :=
    horder.subset (List.mem_map_of_mem ha)
  rcases mem_line hline with ⟨k, value, ttl, rfl, hmv⟩ | ⟨k, rfl, hmv⟩ | ⟨ticket, rfl⟩
  · exact decide_eq_false (happend k value ttl hmv)
  · exact decide_eq_false (hpurge k hmv)
  · rfl

end Journal

namespace Hub

/-! ### The letters of a run -/

/-- What a request asks of the store of direct messages. -/
def requestLetters (h : Hub) (session : Session) : Request → List Letter
  | .direct receiver text =>
    session.user.toList.map fun user => .sent h.journal.now user ⟨receiver⟩ text
  | .deleteDirect sender receiver => [.torn h.journal.now ⟨sender⟩ ⟨receiver⟩]
  | _ => []

/-- What the first request in a connection's inbox asks of it, if there is one that can be read. -/
def inboxLetters (h : Hub) (name : Label) : List Letter :=
  match h.connections.get? name with
  | none => []
  | some c =>
    match c.inbox with
    | .text s :: _ =>
      match Request.parse s with
      | .error _ => []
      | .ok request => h.requestLetters c.session request
    | _ => []

/-- What is asked of it in a piece of work. -/
def lettersIn (h : Hub) : Piece → List Letter
  | .react (.direct sender receiver text) => [.sent h.journal.now sender receiver text]
  | .react (.deleteDirect sender receiver) => [.torn h.journal.now sender receiver]
  | .serve name => if (h.serveNext name).isSome then h.inboxLetters name else []
  | _ => []

/-- All that is asked of it in a series of pieces. -/
def letters (h : Hub) : List Piece → List Letter
  | [] => []
  | p :: ps => h.lettersIn p ++ (h.piece p).letters ps

variable {h : Hub} {p : Piece} {ps : List Piece}

theorem letters_append (h : Hub) (ps qs : List Piece) :
    h.letters (ps ++ qs) = h.letters ps ++ (h.pieces ps).letters qs := by
  induction ps generalizing h with
  | nil => rfl
  | cons p ps ih => rw [List.cons_append, letters, letters, pieces_cons, ih, List.append_assoc]

/-! ### Letters go past the line -/

theorem aside_not_mem_historyMoves (room : RoomId) (x : LogWrite) :
    .aside x ∉ h.historyMoves room := by simp [historyMoves]

theorem aside_not_mem_openMoves (x : LogWrite) : .aside x ∉ h.openMoves := by simp [openMoves]

theorem aside_not_mem_deleteMoves (room : RoomId) (x : LogWrite) :
    .aside x ∉ h.deleteMoves room := by simp [deleteMoves]

theorem aside_not_mem_settling (j : Journal Task) (fuel : Nat) (x : LogWrite) :
    .aside x ∉ j.settling .writer fuel := by
  induction fuel generalizing j with
  | zero => simp [Journal.settling]
  | succ fuel ih =>
      unfold Journal.settling
      split
      · simp
      · simp [ih]

/-- A request goes past the line just with its letters. -/
theorem asides_requestMoves (ho : h.journal.store.outages = Outages.none) (session : Session)
    (request : Request) :
    h.journal.asides .writer (h.requestMoves session request) =
      (h.requestLetters session request).map (Letter.attempt h.tuning.ttl) := by
  cases request with
  | direct receiver text =>
      cases huser : session.user with
      | none => simp [requestMoves, requestLetters, huser, Journal.asides, Journal.along]
      | some user =>
          simp [requestMoves, requestLetters, huser, Journal.asides, Journal.along,
            Journal.asideIn, Journal.attempt, ho, directMoves, Letter.attempt]
  | deleteDirect sender receiver =>
      simp [requestMoves, requestLetters, Journal.asides, Journal.along, Journal.asideIn,
        Journal.attempt, ho, Letter.attempt]
  | history room => exact Journal.asides_eq_nil (aside_not_mem_historyMoves _)
  | join room => exact Journal.asides_eq_nil aside_not_mem_openMoves
  | deleteRoom room =>
      refine Journal.asides_eq_nil fun x => ?_
      simp only [requestMoves]
      split
      · exact aside_not_mem_deleteMoves _ x
      · simp
  | chat text =>
      refine Journal.asides_eq_nil fun x => ?_
      simp only [requestMoves]
      split
      · split <;> simp [submitMoves]
      · simp
  | _ => rfl

theorem asides_reactMoves (hu : h.Ungated) (ho : h.journal.store.outages = Outages.none)
    (e : Event) :
    h.journal.asides .writer (h.reactMoves e) =
      (h.lettersIn (.react e)).map (Letter.attempt h.tuning.ttl) := by
  cases e with
  | direct sender receiver text =>
      simp [reactMoves, acquire_of_ungated hu, lettersIn, Journal.asides, Journal.along,
        Journal.asideIn, Journal.attempt, Journal.go, ho, directMoves, Letter.attempt]
  | deleteDirect sender receiver =>
      simp [reactMoves, lettersIn, Journal.asides, Journal.along, Journal.asideIn,
        Journal.attempt, ho, Letter.attempt]
  | delete room => exact Journal.asides_eq_nil (aside_not_mem_deleteMoves _)
  | history room => exact Journal.asides_eq_nil (aside_not_mem_historyMoves _)
  | listen name room | listenAbandoned room => exact Journal.asides_eq_nil aside_not_mem_openMoves
  | _ => rfl

theorem asides_serveMoves (hu : h.Ungated) (ho : h.journal.store.outages = Outages.none)
    (name : Label) :
    h.journal.asides .writer (h.serveMoves name) =
      (h.inboxLetters name).map (Letter.attempt h.tuning.ttl) := by
  unfold serveMoves inboxLetters
  cases h.connections.get? name with
  | none => rfl
  | some c =>
      rcases c with ⟨session, stream, inbox, outbox, alive⟩
      rcases inbox with - | ⟨s | -, rest⟩
      · rfl
      · dsimp only
        cases Request.parse s with
        | error r => rfl
        | ok request =>
            dsimp only
            rw [leaveFor_of_ungated hu]
            exact asides_requestMoves ho session request
      · rfl

/-- A piece of work goes past the line just with its letters. -/
theorem asides_logSide (hu : h.Ungated) (ho : h.journal.store.outages = Outages.none)
    (p : Piece) :
    h.journal.asides .writer (h.logSide p) =
      (h.lettersIn p).map (Letter.attempt h.tuning.ttl) := by
  cases p with
  | react e => exact asides_reactMoves hu ho e
  | serve name =>
      simp only [logSide, lettersIn]
      split
      · exact asides_serveMoves hu ho name
      · rfl
  | write => exact Journal.asides_eq_nil (aside_not_mem_settling _ _)
  | retire =>
      refine Journal.asides_eq_nil fun x => ?_
      simp only [logSide]
      split
      · simp only [List.mem_cons, reduceCtorEq, false_or]
        exact aside_not_mem_settling _ _ x
      · simp
  | _ => rfl

theorem going_piece (hg : h.journal.Going) (hp : p.isHealthy = true) :
    (h.piece p).journal.Going := by
  rw [(logs_piece h p).journal]
  exact Journal.going_goes hg .writer fun mv hmv => (works_logSide hmv).isCalm hp

/-- What is done past the line in a run is what its letters say. -/
theorem asides_logSides (hu : h.Ungated) (hg : h.journal.Going)
    (hps : ∀ p ∈ ps, p.isHealthy = true) :
    h.journal.asides .writer (h.logSides ps) =
      (h.letters ps).map (Letter.attempt h.tuning.ttl) := by
  induction ps generalizing h with
  | nil => rfl
  | cons p ps ih =>
      have hlogs := logs_piece h p
      have hgoing := going_piece hg (hps p List.mem_cons_self)
      have hps' := ih (ungated_piece hu p) hgoing fun q hq => hps q (List.mem_cons_of_mem p hq)
      rw [Journal.asides, hlogs.journal, hlogs.tuning] at hps'
      rw [logSides, letters, List.map_append, Journal.asides, Journal.along_append, hps']
      exact congrArg (· ++ _) (asides_logSide hu hg.outages p)

/-! ### Keys -/

/-- The writer makes no attempts under the key of a pair. -/
theorem under_directKey_of_mem_made (tuning : Tuning) (outages : Outages) (gated : Bool)
    (wall : Instant) (sender receiver : UserId) {a : Attempt}
    (ha : a ∈ (new tuning outages gated wall).journal.made .writer
      ((new tuning outages gated wall).logSides ps)) :
    a.under (directKey sender receiver) = false := by
  -- a server starts its writer before anything else
  let mvs := Journal.Move.start :: (new tuning outages gated wall).logSides ps
  have hmem : a ∈ (Journal.new (Store.new outages gated) tuning.logQueue).made .writer mvs := ha
  refine Journal.under_of_mem_made _ _ (fun k value ttl hmv => ?_) (fun k hmv => ?_) hmem
  · obtain ⟨g, p, -, -, hworks⟩ := mem_logSides (List.mem_of_ne_of_mem (by simp) hmv)
    cases hworks
    exact (directKey_ne_roomKey _ _ _).symm
  · obtain ⟨g, p, -, -, hworks⟩ := mem_logSides (List.mem_of_ne_of_mem (by simp) hmv)
    cases hworks
    exact (directKey_ne_roomKey _ _ _).symm

/-! ### What is found -/

theorem going_new (tuning : Tuning) (gated : Bool) (wall : Instant) :
    (new tuning Outages.none gated wall).journal.Going := ⟨rfl, .inl rfl⟩

theorem ungated_new (tuning : Tuning) (outages : Outages) (wall : Instant) :
    (new tuning outages false wall).Ungated := rfl

/-- The attempts under the key of a pair are its letters. -/
theorem attempts_filter_under (tuning : Tuning) (wall : Instant)
    (hps : ∀ p ∈ ps, p.isHealthy = true) (sender receiver : UserId) :
    ((new tuning Outages.none false wall).attempts ps).filter
        (Attempt.under (directKey sender receiver)) =
      (((new tuning Outages.none false wall).letters ps).filter
        fun l => l.key = directKey sender receiver).map (Letter.attempt tuning.ttl) := by
  have hkey : (Attempt.under (directKey sender receiver)) ∘ Letter.attempt tuning.ttl =
      fun l : Letter => decide (l.key = directKey sender receiver) := by
    funext l
    cases l <;> rfl
  rw [attempts, Journal.attempted_filter_under fun a ha =>
      under_directKey_of_mem_made tuning Outages.none false wall sender receiver ha,
    asides_logSides (ungated_new tuning _ wall) (going_new tuning false wall) hps, List.filter_map]
  exact congrArg (fun f => List.map (Letter.attempt tuning.ttl) (List.filter f _)) hkey

theorem going_pieces (tuning : Tuning) (gated : Bool) (wall : Instant)
    (hps : ∀ p ∈ ps, p.isHealthy = true) :
    ((new tuning Outages.none gated wall).pieces ps).journal.Going := by
  rw [(logs_pieces _ ps).journal]
  exact Journal.going_goes (going_new tuning gated wall) .writer (isCalm_logSides hps)

/-- Between two users is found what ought to stand of the letters under their key. -/
theorem getDirect_eq_standing (tuning : Tuning) (wall : Instant)
    (hraw : ∀ p ∈ ps, p.isRaw = false) (hps : ∀ p ∈ ps, p.isHealthy = true) :
    let start := new tuning Outages.none false wall
    let h := start.pieces ps
    h.journal.now + tuning.ttl < Time.limit → ∀ sender receiver,
      (h.getDirect sender receiver).1 = .ok (Letter.standing tuning.ttl h.journal.now
        ((start.letters ps).filter fun l => l.key = directKey sender receiver)) := by
  intro start h hclock sender receiver
  let ls := (start.letters ps).filter fun l => l.key = directKey sender receiver
  have hlogs := logs_pieces start ps
  have hroutine : ∀ mv ∈ start.logSides ps, mv.isRoutine tuning.ttl = true :=
    fun mv hmv => isRoutine_logSides hraw hmv
  have hempty : start.journal.store.log.live? start.journal.now (directKey sender receiver) =
      Option.filter (fun e => !e.expired start.journal.now) none := rfl
  have hlive := Journal.live?_goes .writer hroutine hempty
  have hpast := start.journal.le_now_of_mem_attempted .writer (start.logSides ps)
  have horder := Journal.pairwise_attempted .writer start.journal (start.logSides ps)
  have hletters : (start.journal.attempted .writer (start.logSides ps)).filter
      (Attempt.under (directKey sender receiver)) = ls.map (Letter.attempt tuning.ttl) :=
    attempts_filter_under tuning wall hps sender receiver
  have hkey : ∀ l ∈ ls, l.key = directKey sender receiver := fun l hl =>
    of_decide_eq_true (List.mem_filter.1 hl).2
  have htime : ∀ l : Letter, (l.attempt tuning.ttl).now = l.time := by rintro ⟨⟩ <;> rfl
  have hls : ls.Pairwise fun l l' => l.time ≤ l'.time := by
    have hmap := hletters ▸ horder.filter (Attempt.under (directKey sender receiver))
    simpa only [List.pairwise_map, htime] using hmap
  rw [← hlogs.journal] at hlive hpast
  have hnow : ∀ l ∈ ls, l.time ≤ h.journal.now := by
    intro l hl
    have hmem : l.attempt tuning.ttl ∈ start.journal.attempted .writer (start.logSides ps) :=
      (List.mem_filter.1 (hletters ▸ List.mem_map_of_mem hl)).1
    exact htime l ▸ hpast.2 _ hmem
  rw [Attempt.left_filter_under horder none hpast.2, hletters] at hlive
  rw [getDirect_of_healthy (going_pieces tuning false wall hps).outages, filed, hlive,
    Attempt.values_left_letters hkey hls hnow hclock]
  exact congrArg _ (readable_map fun d _ => d.parse_json)

/-! ### The two sides apart -/

/-- Who writes letters does nothing else. -/
theorem asked_of_lettersIn (hp : h.lettersIn p ≠ []) :
    p.isAsked = true ∧ p.isRaw = false ∧ p.isHealthy = true ∧ ∀ d, p ≠ .react (.advance d) := by
  cases p with
  | react e =>
      cases e with
      | direct sender receiver text | deleteDirect sender receiver => simp [Piece.isAsked,
          Piece.isRaw, Piece.isHealthy, Event.isHealthy]
      | _ => exact absurd rfl hp
  | serve name => simp [Piece.isAsked, Piece.isRaw, Piece.isHealthy]
  | _ => exact absurd rfl hp

/-- Letters leave what is kept of a room as it is. -/
theorem live?_roomKey_piece (hu : h.Ungated) (ho : h.journal.store.outages = Outages.none)
    (hp : h.lettersIn p ≠ []) (room : RoomId) :
    (h.piece p).journal.store.log.live? (h.piece p).journal.now (roomKey room) =
      h.journal.store.log.live? h.journal.now (roomKey room) := by
  obtain ⟨hasked, hraw, -, hnow⟩ := asked_of_lettersIn hp
  have hroutine : ∀ mv ∈ h.logSide p, mv.isRoutine h.tuning.ttl = true := fun mv hmv =>
    (works_logSide hmv).isRoutine hraw
  have hturn : .turn ∉ h.logSide p := by
    intro hmv
    cases works_logSide hmv with
    | turn unasked => simp [hasked] at unasked
  have hattempts : (h.journal.attempted .writer (h.logSide p)).filter
      (Attempt.under (roomKey room)) = [] := by
    rw [Journal.attempted_eq_asides hturn, asides_logSide hu ho, List.filter_eq_nil_iff]
    intro a ha
    obtain ⟨l, -, rfl⟩ := List.mem_map.1 ha
    cases l <;> simp [Letter.attempt, Attempt.under, directKey_ne_roomKey]
  have hkept := h.journal.store.log.live?_later (Nat.le_refl h.journal.now) (roomKey room)
  have hlive := Journal.live?_goes .writer hroutine hkept
  have hpast := h.journal.le_now_of_mem_attempted .writer (h.logSide p)
  rw [Attempt.left_filter_under (Journal.pairwise_attempted _ _ _) _ hpast.2, hattempts,
    ← (logs_piece h p).journal, now_piece hnow] at hlive
  rw [now_piece hnow, hlive]
  exact hkept.symm

/-- Whatever else goes on at a server whose store works and has no gate, between two users are found
the messages that were sent under the key of the pair and that neither a deletion under it nor a
silence as long as the time to live has followed, in order and as they were sent. Nothing that goes
on under other keys or in rooms, whatever these are called, changes what is found; and no room's
history shows anything of messages between users. -/
theorem correspondence_law (tuning : Tuning) (wall : Instant) {ps : List Piece}
    (hraw : ∀ p ∈ ps, p.isRaw = false) (hps : ∀ p ∈ ps, p.isHealthy = true) :
    let start := new tuning Outages.none false wall
    let h := start.pieces ps
    h.journal.now + tuning.ttl < Time.limit →
      (∀ sender receiver, (h.getDirect sender receiver).1 = .ok (Letter.standing tuning.ttl
        h.journal.now ((start.letters ps).filter fun l => l.key = directKey sender receiver))) ∧
      (∀ sender receiver p, p.isRaw = false → p.isHealthy = true →
        (∀ d, p ≠ .react (.advance d)) →
        (∀ l ∈ h.lettersIn p, l.key ≠ directKey sender receiver) →
        ((h.piece p).getDirect sender receiver).1 = (h.getDirect sender receiver).1) ∧
      ∀ room p, h.lettersIn p ≠ [] → ((h.piece p).history room).1 = (h.history room).1 := by
  intro start h hclock
  have hgoing : h.journal.Going := going_pieces tuning false wall hps
  have hfound : ∀ qs, (∀ q ∈ qs, q.isRaw = false) → (∀ q ∈ qs, q.isHealthy = true) →
      (start.pieces qs).journal.now + tuning.ttl < Time.limit → ∀ sender receiver,
      ((start.pieces qs).getDirect sender receiver).1 = .ok (Letter.standing tuning.ttl
        (start.pieces qs).journal.now
        ((start.letters qs).filter fun l => l.key = directKey sender receiver)) :=
    fun qs hraw hps => getDirect_eq_standing tuning wall hraw hps
  refine ⟨hfound ps hraw hps hclock, ?_, ?_⟩
  · intro sender receiver p hpraw hphealthy hnow hkey
    have hafter := hfound (ps ++ [p])
      (by simpa only [List.forall_mem_append, List.forall_mem_singleton] using ⟨hraw, hpraw⟩)
      (by simpa only [List.forall_mem_append, List.forall_mem_singleton] using ⟨hps, hphealthy⟩)
    have hnone : (h.lettersIn p).filter (fun l => l.key = directKey sender receiver) = [] :=
      List.filter_eq_nil_iff.2 fun l hl => by simpa using hkey l hl
    rw [pieces_append, pieces_cons, pieces_nil, now_piece hnow, letters_append, letters, letters,
      List.append_nil] at hafter
    rw [hafter hclock, hfound ps hraw hps hclock, List.filter_append, hnone, List.append_nil]
  · intro room p hp
    obtain ⟨-, -, hphealthy, -⟩ := asked_of_lettersIn hp
    rw [history_of_healthy (going_piece hgoing hphealthy).outages,
      history_of_healthy hgoing.outages,
      live?_roomKey_piece (ungated_pieces (ungated_new tuning _ wall) ps) hgoing.outages hp]

/-- Two pairs that share a key: what was sent before a silence as long as the time to live is gone,
and what is sent and deleted elsewhere, in a room with a like name or between others, is of no
account. -/
def sharedKey : List Piece :=
  [.react (.direct ⟨"a"⟩ ⟨"b:c"⟩ "lost"), .react (.advance Tuning.default.ttl),
    .react (.direct ⟨"a:b"⟩ ⟨"c"⟩ "one"), .react (.submit ⟨"a"⟩ ⟨"a:b:c"⟩ "aloud"),
    .react (.direct ⟨"a"⟩ ⟨"b"⟩ "other"), .react (.advance (Tuning.default.ttl - 1)), .write,
    .react (.direct ⟨"a"⟩ ⟨"b:c"⟩ "two"), .react (.deleteDirect ⟨"a"⟩ ⟨"b"⟩),
    .react (.delete ⟨"a:b:c"⟩)]

theorem correspondence_law_shared_key :
    (∀ p ∈ sharedKey, p.isRaw = false) ∧ (∀ p ∈ sharedKey, p.isHealthy = true) ∧
      let h := (new Tuning.default Outages.none false default).pieces sharedKey
      h.journal.now + Tuning.default.ttl < Time.limit ∧
        (h.getDirect ⟨"a"⟩ ⟨"b:c"⟩).1 =
          .ok [⟨⟨"a:b"⟩, ⟨"c"⟩, "one", true⟩, ⟨⟨"a"⟩, ⟨"b:c"⟩, "two", true⟩] := by
  have hraw : ∀ p ∈ sharedKey, p.isRaw = false := by
    intro p hp
    simp only [sharedKey, List.mem_cons, List.not_mem_nil, or_false] at hp
    rcases hp with rfl | rfl | rfl | rfl | rfl | rfl | rfl | rfl | rfl | rfl <;> rfl
  have hps : ∀ p ∈ sharedKey, p.isHealthy = true := by
    intro p hp
    simp only [sharedKey, List.mem_cons, List.not_mem_nil, or_false] at hp
    rcases hp with rfl | rfl | rfl | rfl | rfl | rfl | rfl | rfl | rfl | rfl <;> rfl
  refine ⟨hraw, hps, ?_⟩
  intro h
  have hclock : h.journal.now + Tuning.default.ttl < Time.limit := by decide +kernel
  have hfound := (correspondence_law Tuning.default default hraw hps hclock).1 ⟨"a"⟩ ⟨"b:c"⟩
  refine ⟨hclock, hfound.trans (congrArg _ ?_)⟩
  decide +kernel

end Hub

end ChatServer
