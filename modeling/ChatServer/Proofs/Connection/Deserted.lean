import ChatServer.Proofs.Connection.Pumped
import ChatServer.Proofs.Connection.Ties
import ChatServer.Proofs.Connection.Attendance
import ChatServer.Proofs.History.Survival
import ChatServer.Proofs.Log.Halt

/-!
A server that nobody is left to give commands to. Between two moments such a server handles none,
and it stays as it is: of all background work only the writer's is done, nothing more is handed to
the writer, and those who hold listeners go on alone.
-/

namespace ChatServer

theorem Journal.settle_of_halts {α : Type} [DecidableEq α] {j : Journal α} {me : α}
    (h : j.writer.Halts j.store me) : j.settle me = j := by
  rw [settle, h.run_eq]

namespace Hub

variable {h : Hub} {vs : Visitors} {subs : List Subscription} {p : Piece}

/-! ### Between moments -/

/-- A server between two moments: it handles commands only where somebody can give them, and its
writer can only wait. -/
structure AtRest (h : Hub) : Prop where
  managed : h.managed = true → h.attended = true
  writer : h.journal.writer.Halts h.journal.store .writer

theorem atRest_new (tuning : Tuning) (outages : Outages) (gated : Bool) (wall : Instant) :
    (new tuning outages gated wall).AtRest where
  managed _ := attended_iff.2 (.inl rfl)
  writer := ⟨fun _ => LogWriter.turn_eq_none_of_idle rfl rfl, LogWriter.wait_of_idle rfl _ _⟩

/-- The last thing in a round is the writer's work. -/
theorem halts_rounds (h : Hub) (n : Nat) :
    (h.rounds (n + 1)).journal.writer.Halts (h.rounds (n + 1)).journal.store .writer := by
  induction n generalizing h with
  | zero =>
      rw [rounds]
      split <;> exact halts_runWriter _
  | succ n ih =>
      rw [rounds]
      split
      · exact halts_runWriter _
      · exact ih h.round

/-- Background work leads to rest. -/
theorem atRest_settle (h : Hub) : h.settle.AtRest := by
  rw [settle, retire]
  split
  case isTrue => exact ⟨fun hm => absurd hm (by simp [runWriter, dismiss]), halts_runWriter _⟩
  case isFalse hstays =>
    refine ⟨fun hm => ?_, halts_rounds h h.permits⟩
    simpa [hm] using hstays

theorem AtRest.dated (hr : h.AtRest) (wall : Instant) : (h.dated wall).AtRest :=
  ⟨hr.managed, hr.writer⟩

/-- A client that is forgotten was no longer served. -/
theorem AtRest.forget (hr : h.AtRest) (name : Label) : (h.forget name).2.AtRest := by
  rcases forget_cases h name with heq | ⟨c, hc, hdead, heq⟩
  · rw [heq]
    exact hr
  · rw [heq]
    refine ⟨fun hm => ?_, hr.writer⟩
    rcases attended_iff.1 (hr.managed hm) with hh | hpump | ⟨n, c', hc', ha⟩
    · exact attended_iff.2 (.inl hh)
    · exact attended_iff.2 (.inr (.inl hpump))
    · refine attended_iff.2 (.inr (.inr ⟨n, c', ?_, ha⟩))
      have hn : n ≠ name := by
        rintro rfl
        obtain rfl := Option.some.inj (hc.symm.trans hc')
        simp [hdead] at ha
      dsimp only
      rw [Table.get?_erase, if_neg hn]
      exact hc'

theorem AtRest.collect (hr : h.AtRest) : h.collect.2.AtRest := by
  refine ⟨fun hm => ?_, hr.writer⟩
  rcases attended_iff.1 (hr.managed hm) with hh | hpump | ⟨name, c, hc, ha⟩
  · exact attended_iff.2 (.inl hh)
  · exact attended_iff.2 (.inr (.inl hpump))
  · exact attended_iff.2 (.inr (.inr ⟨name, c.emptied, by rw [get?_collect, hc]; rfl,
      ha⟩))

theorem AtRest.conclude (hr : h.AtRest) (a : Answer) (e : Event) :
    (h.pieces (concludeScript a e)).AtRest := by
  rcases concludeScript_cases a e with hscript | ⟨name, hscript⟩ <;> rw [hscript]
  · exact hr
  · exact hr.forget name

theorem AtRest.face (hr : h.AtRest) (m : Moment) : (h.face m).2.AtRest := by
  cases hrefused : (h.dated m.wall).refuses m.event with
  | true =>
      rw [face_snd_of_refuses hrefused]
      exact hr.dated m.wall
  | false =>
      rw [face_snd hrefused]
      exact ((atRest_settle _).conclude _ _).collect

theorem AtRest.through (hr : h.AtRest) (ms : List Moment) : (h.through ms).AtRest := by
  induction ms generalizing h with
  | nil => exact hr
  | cons m ms ih => exact ih (hr.face m)

/-! ### Nobody is left -/

/-- Nobody can give commands, and none are handled. -/
structure Deserted (h : Hub) : Prop where
  attended : h.attended = false
  managed : h.managed = false

theorem AtRest.deserted (hr : h.AtRest) (ha : h.attended = false) : h.Deserted := by
  refine ⟨ha, Bool.eq_false_iff.2 fun hm => ?_⟩
  rw [hr.managed hm] at ha
  simp at ha

namespace Deserted

theorem handle (hd : h.Deserted) : h.handle = false :=
  Bool.eq_false_iff.2 fun hh => Bool.eq_false_iff.1 hd.attended (attended_iff.2 (.inl hh))

theorem ended (hd : h.Deserted) {name : Label} {q : Pump} (hq : h.pumps.get? name = some q) :
    q.running = false :=
  Bool.eq_false_iff.2 fun hrunning =>
    Bool.eq_false_iff.1 hd.attended (attended_iff.2 (.inr (.inl ⟨name, q, hq, hrunning⟩)))

theorem dead (hd : h.Deserted) {name : Label} {c : Connection}
    (hc : h.connections.get? name = some c) : c.alive = false :=
  Bool.eq_false_iff.2 fun ha =>
    Bool.eq_false_iff.1 hd.attended (attended_iff.2 (.inr (.inr ⟨name, c, hc, ha⟩)))

/-- Nobody comes back. -/
theorem piece (hd : h.Deserted) (hp : h.admits p = true) : (h.piece p).Deserted := by
  refine ⟨Bool.eq_false_iff.2 fun ha => ?_, (ties_piece h p).managed_eq_false hd.managed⟩
  exact Bool.eq_false_iff.1 hd.attended (attended_of_piece hp ha)

/-! ### The writer works alone -/

theorem serveNext_eq_none (hd : h.Deserted) (name : Label) : h.serveNext name = none := by
  cases hserve : h.serveNext name with
  | none => rfl
  | some after =>
      obtain ⟨c, hc, ha, -⟩ := serving_of_serveNext hserve
      simp [hd.dead hc] at ha

theorem serveAll_eq (hd : h.Deserted) (name : Label) : h.serveAll name = h := by
  rw [serveAll, serveFor, hd.serveNext_eq_none]
  dsimp only
  unfold waitInLine
  cases hc : h.connections.get? name with
  | none => rfl
  | some c => simp [hd.dead hc]

theorem resting (hd : h.Deserted) : h.Resting :=
  fun _ _ hq => Pump.turn_eq_none_iff.2 (.inl (hd.ended hq))

/-- A connection that has ended has no listener. -/
theorem forward_eq (hd : h.Deserted) (hk : h.Kept vs subs) (name : Label) : h.forward name = h := by
  have hstream : ∀ {c : Connection}, h.connections.get? name = some c → c.stream = none :=
    fun {c} found => hk.live name c.presence (by simp [presence?, found]) (hd.dead found)
  cases passing_forward h name with
  | nothing eq idle => exact eq
  | passed found stream channel sending eq => simp [hstream found] at stream
  | closed found stream channel ended eq => simp [hstream found] at stream

theorem round_eq (hd : h.Deserted) (hk : h.Kept vs subs) : h.round = h.runWriter := by
  have hserved : h.connections.keys.foldl serveAll h = h := List.foldl_fixed' hd.serveAll_eq _
  have hpumped : h.pumps.keys.foldl runPump h = h := runPumps_of_resting hd.resting
  have hforwarded : h.connections.keys.foldl Hub.forward h = h :=
    List.foldl_fixed' (hd.forward_eq hk) _
  rw [round, hserved, hpumped, hforwarded]

theorem runWriter_runWriter (h : Hub) : h.runWriter.runWriter = h.runWriter := by
  have hjournal := Journal.settle_of_halts (halts_runWriter h)
  rw [runWriter, hjournal]

/-- After one round nothing is left to do. -/
theorem rounds_eq (hd : h.Deserted) (hk : h.Kept vs subs) (n : Nat) :
    h.rounds (n + 1) = h.runWriter := by
  have hround := hd.round_eq hk
  have hagain : h.runWriter.round = h.runWriter := by
    have hd' : h.runWriter.Deserted := ⟨hd.attended, hd.managed⟩
    rw [hd'.round_eq (hk.after_piece .write), runWriter_runWriter]
  have hrest : ∀ n, h.runWriter.rounds n = h.runWriter := by
    intro n
    cases n with
    | zero => rfl
    | succ n =>
        rw [rounds, hagain]
        exact if_pos rfl
  rw [rounds, hround]
  split
  · rfl
  · exact hrest n

theorem settle_eq (hd : h.Deserted) (hk : h.Kept vs subs) : h.settle = h.runWriter := by
  have hmanaged : h.runWriter.managed = false := hd.managed
  rw [settle, hd.rounds_eq hk, retire, hmanaged]
  rfl

/-- What is not turned away is done, and the writer makes of it what it can. -/
theorem face_snd (hd : h.Deserted) (hk : h.Kept vs subs) {m : Moment}
    (hr : (h.dated m.wall).refuses m.event = false) :
    (h.face m).2.journal = ((h.dated m.wall).react m.event).2.journal.settle .writer ∧
      (h.face m).2.registry = ((h.dated m.wall).react m.event).2.registry ∧
      (h.face m).2.held = ((h.dated m.wall).react m.event).2.held := by
  have hdated : (h.dated m.wall).Deserted := ⟨hd.attended, hd.managed⟩
  have hreact : ((h.dated m.wall).react m.event).2.Deserted :=
    hdated.piece (p := .react m.event) (by simp [admits, hr])
  have hsettle := hreact.settle_eq ((hk.after_piece (.date m.wall)).after_piece (.react m.event))
  rw [Hub.face_snd hr, hsettle]
  obtain ⟨connections, hconclude⟩ := concludeScript_eq ((h.dated m.wall).react m.event).2.runWriter
    ((h.dated m.wall).react m.event).1 m.event
  rw [hconclude]
  exact ⟨rfl, rfl, rfl⟩

/-! ### Nothing more is handed to the writer -/

theorem isOffer_logSide (hd : h.Deserted) (hp : h.admits p = true) {mv : Journal.Move Task}
    (hmv : mv ∈ h.logSide p) : mv.isOffer = false := by
  cases hasked : p.isAsked with
  | false => exact (works_logSide hmv).isOffer_eq_false hasked
  | true =>
      cases p with
      | react e =>
          have hneeds := needsHandle_of_admits hd.handle hp
          cases e with
          | log c | logSize | advance d | permits n | outages o =>
              rw [List.mem_singleton.1 hmv]
              rfl
          | drop name | receive name | tryReceive name | sinkReceive name | sinkDrop name
          | cancel name | pumpEnd name | shutdown | text name s | ignored name
          | disconnect name => exact absurd hmv List.not_mem_nil
          | _ => simp [Event.needsHandle] at hneeds
      | serve name => simp [logSide, hd.serveNext_eq_none] at hmv
      | _ => simp [Piece.isAsked] at hasked

theorem isOffer_logSides (hd : h.Deserted) {ps : List Piece} (hps : h.Runs ps) :
    ∀ mv ∈ h.logSides ps, mv.isOffer = false := by
  induction ps generalizing h with
  | nil => simp [logSides]
  | cons p ps ih =>
      intro mv hmv
      rcases List.mem_append.1 hmv with hmv | hmv
      · exact hd.isOffer_logSide hps.1 hmv
      · exact ih (hd.piece hps.1) hps.2 mv hmv

/-- So the line of accepted writes is complete. -/
theorem line_moves (hd : h.Deserted) (ms : List Moment) :
    h.journal.line .writer (h.moves ms) = [] :=
  Journal.line_eq_nil (hd.isOffer_logSides (runs_scripts h ms))

end Deserted

end Hub

end ChatServer
