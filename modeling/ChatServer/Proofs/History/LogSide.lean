import ChatServer.Proofs.Connection.Charge
import ChatServer.Proofs.Log.Move

/-!
What a server does to its log. Every piece of work is a series of moves of the journal: submissions
and deletions fill the line, direct messages go past it, looks change nothing, and the writer makes
its moves when it is given time. So whatever holds of all runs of a journal holds of its log.
-/

namespace ChatServer.Hub

/-! ### The moves of a piece of work -/

def submitMoves (h : Hub) (sender : UserId) (room : RoomId) (text : String) :
    List (Journal.Move Task) :=
  [.append (roomKey room) (ChatRecord.json ⟨sender, room, text, h.wall⟩) h.tuning.ttl]

def deleteMoves (h : Hub) (room : RoomId) : List (Journal.Move Task) :=
  if (h.registry.rooms.get? room).isSome then [.purge (roomKey room)] else []

/-- A history is read only if there is one. -/
def historyMoves (h : Hub) (room : RoomId) : List (Journal.Move Task) :=
  .call (.contains (roomKey room)) ::
    if (h.call (.contains (roomKey room))).1 = .answered (.found true) then
      [.call (.range (roomKey room) 0 (-1))]
    else []

def directMoves (h : Hub) (sender receiver : UserId) (text : String) : List (Journal.Move Task) :=
  [.aside (.append (directKey sender receiver) (DirectRecord.new sender receiver text).json
    h.tuning.ttl)]

/-- A listener that cannot be opened ends the handling of commands. -/
def openMoves (h : Hub) : List (Journal.Move Task) :=
  if h.managed && !h.registry.canOpen then [.release] else []

def reactMoves (h : Hub) : Event → List (Journal.Move Task)
  | .delete room => h.deleteMoves room
  | .submit sender room text => h.submitMoves sender room text
  | .flush => [.flush]
  | .history room => h.historyMoves room
  | .direct sender receiver text =>
    if (h.acquire .caller).1 then
      .gate (h.acquire .caller).2.journal.store.gate :: h.directMoves sender receiver text
    else []
  | .getDirect sender receiver => [.call (.range (directKey sender receiver) 0 (-1))]
  | .deleteDirect sender receiver => [.aside (.purge (directKey sender receiver))]
  | .keyExists key => [.call (.contains key)]
  | .listen .. | .listenAbandoned _ => h.openMoves
  | .log c => [.callDirect c]
  | .logSize => [.sweep]
  | .advance d => [.advance d]
  | .permits n => [.gate (h.journal.store.addPermits n).gate]
  | .outages o => [.outages o]
  | _ => []

def requestMoves (h : Hub) (session : Session) : Request → List (Journal.Move Task)
  | .join _ => h.openMoves
  | .chat text =>
    match session.user, session.joined with
    | some user, some room => if h.managed then h.submitMoves user room text else []
    | _, _ => []
  | .deleteRoom room => if h.managed then h.deleteMoves ⟨room⟩ else []
  | .history room => h.historyMoves ⟨room⟩
  | .direct receiver text =>
    match session.user with
    | none => []
    | some user => h.directMoves user ⟨receiver⟩ text
  | .fetchDirect sender receiver => [.call (.range (directKey ⟨sender⟩ ⟨receiver⟩) 0 (-1))]
  | .deleteDirect sender receiver => [.aside (.purge (directKey ⟨sender⟩ ⟨receiver⟩))]
  | _ => []

/-- The moves of the first request in a connection's inbox, if there is one that can be read. -/
def serveMoves (h : Hub) (name : Label) : List (Journal.Move Task) :=
  match h.connections.get? name with
  | none => []
  | some c =>
    match c.inbox with
    | .text s :: _ =>
      match Request.parse s with
      | .error _ => []
      | .ok request =>
        let journal := h.leaveFor name c request
        .gate journal.store.gate :: { h with journal }.requestMoves c.session request
    | _ => []

def logSide (h : Hub) : Piece → List (Journal.Move Task)
  | .react e => h.reactMoves e
  | .serve name => if (h.serveNext name).isSome then h.serveMoves name else []
  | .wait name => [.gate (h.waitInLine name).journal.store.gate]
  | .write => h.journal.settleScript .writer
  | .retire =>
    if h.managed && !h.attended then
      .release :: (h.journal.go .writer .release).settleScript .writer
    else []
  | _ => []

/-- The moves of a series of pieces. -/
def logSides (h : Hub) : List Piece → List (Journal.Move Task)
  | [] => []
  | p :: ps => h.logSide p ++ (h.piece p).logSides ps

/-! ### A piece of work comes to its moves -/

/-- A server whose journal has made some moves. -/
structure Logs (h : Hub) (mvs : List (Journal.Move Task)) (h' : Hub) : Prop where
  journal : h'.journal = h.journal.goes .writer mvs
  tuning : h'.tuning = h.tuning

variable {h h' g : Hub} {mvs mvs' : List (Journal.Move Task)}

theorem Logs.refl (h : Hub) : Logs h [] h := ⟨rfl, rfl⟩

theorem Logs.trans (hg : Logs h mvs g) (hh : Logs g mvs' h') : Logs h (mvs ++ mvs') h' :=
  ⟨by rw [hh.journal, hg.journal, Journal.goes_append], hh.tuning.trans hg.tuning⟩

theorem Logs.of_eq (hh : Logs h mvs h') (hj : g.journal = h'.journal) (ht : g.tuning = h'.tuning) :
    Logs h mvs g := ⟨hj.trans hh.journal, ht.trans hh.tuning⟩

theorem logs_acquire (h : Hub) (who : Task) :
    Logs h [.gate (h.acquire who).2.journal.store.gate] (h.acquire who).2 := by
  refine ⟨?_, rfl⟩
  simp only [acquire, journal_withStore, Journal.goes_cons, Journal.goes_nil, Journal.go]
  rw [Store.acquire_eq]

theorem logs_delete (h : Hub) (room : RoomId) : Logs h (h.deleteMoves room) (h.delete room) := by
  rw [deleteMoves, ← delete_fst]
  unfold delete
  dsimp only
  split <;> exact ⟨rfl, rfl⟩

theorem logs_call (h : Hub) (c : LogCall) : Logs h [.call c] (h.call c).2 := ⟨rfl, rfl⟩

theorem logs_history (h : Hub) (room : RoomId) :
    Logs h (h.historyMoves room) (h.history room).2 := by
  have hcontains := logs_call h (.contains (roomKey room))
  unfold historyMoves history
  rcases hfound : h.call (.contains (roomKey room)) with ⟨r, g⟩
  rw [hfound] at hcontains
  have hrange := hcontains.trans (logs_call g (.range (roomKey room) 0 (-1)))
  match r with
  | .answered (.found true) =>
      rw [if_pos rfl]
      dsimp only
      rcases hread : g.call (.range (roomKey room) 0 (-1)) with ⟨r', g'⟩
      rw [hread] at hrange
      rcases r' with (_ | vs | b) | reason | _ <;> exact hrange
  | .answered (.found false) | .answered .done | .answered (.values vs) | .unavailable reason
  | .overflow => exact hcontains

theorem logs_getDirect (h : Hub) (sender receiver : UserId) :
    Logs h [.call (.range (directKey sender receiver) 0 (-1))] (h.getDirect sender receiver).2 := by
  have hrange := logs_call h (.range (directKey sender receiver) 0 (-1))
  unfold getDirect
  rcases hread : h.call (.range (directKey sender receiver) 0 (-1)) with ⟨r, g⟩
  rw [hread] at hrange
  rcases r with (_ | vs | b) | reason | _ <;> exact hrange

theorem logs_deleteDirect (h : Hub) (sender receiver : UserId) :
    Logs h [.aside (.purge (directKey sender receiver))] (h.deleteDirect sender receiver).2 := by
  have heq : (h.deleteDirect sender receiver).2 = h.withStore
      (h.journal.store.apply h.journal.now (.purge (directKey sender receiver))) :=
    react_deleteDirect h sender receiver
  rw [heq]
  exact ⟨rfl, rfl⟩

theorem logs_direct (h : Hub) (sender receiver : UserId) (text : String) :
    Logs h (h.directMoves sender receiver text) (h.direct sender receiver text).2 := ⟨rfl, rfl⟩

theorem logs_openListener (h : Hub) (room : RoomId) :
    Logs h h.openMoves (h.openListener room).2 := by
  unfold openMoves openListener
  cases h.managed with
  | false => exact ⟨rfl, rfl⟩
  | true => cases h.registry.canOpen <;> exact ⟨rfl, rfl⟩

theorem logs_react (h : Hub) (e : Event) : Logs h (h.reactMoves e) (h.react e).2 := by
  cases e with
  | delete room => exact logs_delete h room
  | history room => exact logs_history h room
  | getDirect sender receiver => exact logs_getDirect h sender receiver
  | deleteDirect sender receiver => exact logs_deleteDirect h sender receiver
  | direct sender receiver text =>
      have hleave := logs_acquire h .caller
      simp only [reactMoves, react]
      rcases hacquire : h.acquire .caller with ⟨_ | _, g⟩
      · exact ⟨rfl, rfl⟩
      · rw [hacquire] at hleave
        have hstored := hleave.trans (logs_direct g sender receiver text)
        have hmoves : g.directMoves sender receiver text = h.directMoves sender receiver text := by
          rw [directMoves, hleave.tuning]
          rfl
        rw [hmoves] at hstored
        dsimp only
        rcases hdirect : g.direct sender receiver text with ⟨r, g'⟩
        rw [hdirect] at hstored
        cases r <;> exact hstored
  | listen name room =>
      have hmoves := logs_openListener h room
      simp only [react]
      rcases hopen : h.openListener room with ⟨_ | l, g⟩ <;> rw [hopen] at hmoves
      · exact hmoves
      · obtain ⟨registry, held, hdrop, -⟩ := dropHeld_eq g name
        dsimp only
        rw [hdrop]
        exact hmoves.of_eq rfl rfl
  | listenAbandoned room =>
      simp only [reactMoves, openMoves, react, openAbandoned]
      cases h.managed with
      | false => exact ⟨rfl, rfl⟩
      | true => cases h.registry.canOpen <;> exact ⟨rfl, rfl⟩
  | connect name connection =>
      simp only [reactMoves, react]
      split <;> exact ⟨rfl, rfl⟩
  | pump name capacity heading =>
      obtain ⟨registry, pumps, hdrop, -⟩ := dropPump_eq h name
      simp only [reactMoves, react, hdrop]
      split
      · exact ⟨rfl, rfl⟩
      · split <;> exact ⟨rfl, rfl⟩
  | drop name =>
      obtain ⟨registry, held, hdrop, -⟩ := dropHeld_eq h name
      simp only [reactMoves, react, hdrop]
      exact ⟨rfl, rfl⟩
  | cancel name =>
      simp only [reactMoves, react]
      split
      · exact ⟨rfl, rfl⟩
      · split <;> exact ⟨rfl, rfl⟩
  | close name room | closeHeld name | receive name | tryReceive name | sinkReceive name
  | text name s | disconnect name =>
      simp only [reactMoves, react]
      split <;> exact ⟨rfl, rfl⟩
  | create room | submit sender room text | count room | roomExists room | flush | keyExists key
  | sinkDrop name | pumpEnd name | log c | logSize | advance d | permits n | outages o | shutdown
  | ignored name => exact ⟨rfl, rfl⟩

theorem logs_command (c : Connection) (f : Frame) {after : Hub} (hafter : Logs h mvs after) :
    Logs h (if h.managed then mvs else []) (h.command c f after).hub := by
  unfold command
  cases h.managed with
  | false => exact ⟨rfl, rfl⟩
  | true => exact hafter

theorem logs_serve (h : Hub) (c : Connection) (request : Request) :
    Logs h (h.requestMoves c.session request) (h.serve c request).hub := by
  cases request with
  | identify user => exact ⟨rfl, rfl⟩
  | createRoom room =>
      have hcreate : Logs h [] (h.create ⟨room⟩) := ⟨rfl, rfl⟩
      have hcommand := logs_command c (.roomCreated room) hcreate
      rw [ite_self] at hcommand
      exact hcommand
  | join room =>
      have hopen := logs_openListener { h with registry := h.registry.release c.stream } ⟨room⟩
      rw [openMoves, canOpen_release] at hopen
      rw [hub_serve_join]
      exact ⟨hopen.journal, hopen.tuning⟩
  | leave =>
      simp only [serve, endStream_eq]
      split <;> exact ⟨rfl, rfl⟩
  | chat text =>
      simp only [serve, requestMoves]
      rcases c.session.user with _ | user
      · exact ⟨rfl, rfl⟩
      · rcases c.session.joined with _ | room
        · exact ⟨rfl, rfl⟩
        · exact logs_command c _ ⟨rfl, rfl⟩
  | deleteRoom room => exact logs_command c _ (logs_delete h ⟨room⟩)
  | history room => exact logs_history h ⟨room⟩
  | direct receiver text =>
      rw [requestMoves]
      cases huser : c.session.user with
      | none =>
          simp only [serve, huser]
          exact ⟨rfl, rfl⟩
      | some user =>
          rw [hub_serve_direct_of_user huser]
          exact logs_direct h user ⟨receiver⟩ text
  | fetchDirect sender receiver => exact logs_getDirect h ⟨sender⟩ ⟨receiver⟩
  | deleteDirect sender receiver => exact logs_deleteDirect h ⟨sender⟩ ⟨receiver⟩

theorem logs_leaveFor (h : Hub) (name : Label) (c : Connection) (request : Request) :
    Logs h [.gate (h.leaveFor name c request).store.gate]
      { h with journal := h.leaveFor name c request } := by
  unfold leaveFor
  split
  · exact (logs_acquire h (.connection name)).of_eq rfl rfl
  · exact ⟨rfl, rfl⟩

theorem logs_serveNext {name : Label} (hserve : h.serveNext name = some h') :
    Logs h (h.serveMoves name) h' := by
  obtain ⟨c, first, rest, hc, -, hinbox, ⟨rfl, heq⟩ | ⟨s, rfl, ⟨r, hparse, heq⟩ |
    ⟨request, hparse, heq⟩⟩⟩ := serveNext_cases hserve
  · simp only [serveMoves, hc, hinbox]
    rw [heq, endConnection_eq]
    exact ⟨rfl, rfl⟩
  · simp only [serveMoves, hc, hinbox, hparse]
    rw [heq]
    exact ⟨rfl, rfl⟩
  · simp only [serveMoves, hc, hinbox, hparse]
    have hserved := (logs_leaveFor h name c request).trans
      (logs_serve _ { c with inbox := rest } request)
    rw [heq]
    rcases hserve : ({ h with journal := h.leaveFor name c request } : Hub).serve
      { c with inbox := rest } request with ⟨f, c', g⟩ | ⟨c', g⟩
    · rw [hserve] at hserved
      exact hserved.of_eq rfl rfl
    · rw [hserve] at hserved
      rw [Served.close, endConnection_eq]
      exact hserved.of_eq rfl rfl

theorem tuning_forward (h : Hub) (name : Label) : (h.forward name).tuning = h.tuning := by
  rcases forward_cases h name with heq | ⟨c, registry, outbox, stream, -, heq⟩ <;> rw [heq]
  rfl

/-- Whatever is done to the log in a piece of work, its moves do. -/
theorem logs_piece (h : Hub) (p : Piece) : Logs h (h.logSide p) (h.piece p) := by
  cases p with
  | react e => exact logs_react h e
  | serve name =>
      rw [logSide, piece]
      cases hserve : h.serveNext name with
      | none => exact Logs.refl h
      | some after => exact logs_serveNext hserve
  | wait name =>
      obtain ⟨gate, heq⟩ := waitInLine_eq h name
      rw [logSide, piece, heq]
      exact ⟨rfl, rfl⟩
  | pump name =>
      obtain ⟨registry, pumps, heq⟩ := runPump_eq h name
      rw [piece, heq]
      exact ⟨rfl, rfl⟩
  | forward name => exact ⟨(unserved_forward h name name).2, tuning_forward h name⟩
  | write =>
      refine ⟨?_, rfl⟩
      rw [logSide, Journal.goes_settleScript]
      rfl
  | retire =>
      rw [logSide, piece, retire]
      split
      · refine ⟨?_, rfl⟩
        rw [Journal.goes_cons, Journal.goes_settleScript]
        rfl
      · exact ⟨rfl, rfl⟩
  | forget name =>
      rcases forget_cases h name with heq | ⟨c, -, -, heq⟩ <;> rw [piece, heq] <;> exact ⟨rfl, rfl⟩
  | date wall | collect => exact ⟨rfl, rfl⟩

theorem logSides_append (h : Hub) (ps qs : List Piece) :
    h.logSides (ps ++ qs) = h.logSides ps ++ (h.pieces ps).logSides qs := by
  induction ps generalizing h with
  | nil => rfl
  | cons p ps ih => rw [List.cons_append, logSides, ih, logSides, List.append_assoc, pieces_cons]

theorem logs_pieces (h : Hub) (ps : List Piece) : Logs h (h.logSides ps) (h.pieces ps) := by
  induction ps generalizing h with
  | nil => exact Logs.refl h
  | cons p ps ih => exact (logs_piece h p).trans (ih (h.piece p))

/-! ### All that a piece of work can be to the log -/

/-- Whether a piece of work writes to the log other than the server does. -/
def Piece.isRaw : Piece → Bool
  | .react (.log _) => true
  | _ => false

/-- Pieces by which something is asked of a server. -/
def Piece.isAsked : Piece → Bool
  | .react _ | .serve _ => true
  | _ => false

/-- The moves of which a piece of work can consist. What goes through the line concerns rooms, what
goes past it pairs of users. Whatever is appended is given the server's time to live, and the writer
is let go of only when nobody can give commands or listen any more. -/
inductive Works (h : Hub) (p : Piece) : Journal.Move Task → Prop
  | append (room : RoomId) (value : String) (asked : p.isAsked = true) :
      Works h p (.append (roomKey room) value h.tuning.ttl)
  | purge (room : RoomId) (asked : p.isAsked = true) : Works h p (.purge (roomKey room))
  | flush (asked : p.isAsked = true) : Works h p .flush
  | release (nobody : h.registry.canOpen = false ∨
      p = .retire ∧ (h.managed && !h.attended) = true) : Works h p .release
  | turn (unasked : p.isAsked = false) : Works h p .turn
  | wait : Works h p .wait
  | gate (g : Option (Gate Task)) : Works h p (.gate g)
  | outages (o : Outages) (event : p = .react (.outages o)) : Works h p (.outages o)
  | advance (d : Duration) (event : p = .react (.advance d)) : Works h p (.advance d)
  | direct (sender receiver : UserId) (value : String) :
      Works h p (.aside (.append (directKey sender receiver) value h.tuning.ttl))
  | deleteDirect (sender receiver : UserId) :
      Works h p (.aside (.purge (directKey sender receiver)))
  | look (c : LogCall) (isLook : c.isLook = true) : Works h p (.call c)
  | raw (c : LogCall) (event : p = .react (.log c)) : Works h p (.callDirect c)
  | sweep : Works h p .sweep

variable {p : Piece} {mv : Journal.Move Task}

theorem works_settling (hp : p.isAsked = false) {j : Journal Task} {fuel : Nat}
    (hmv : mv ∈ j.settling .writer fuel) : h.Works p mv := by
  induction fuel generalizing j with
  | zero => simp [Journal.settling] at hmv
  | succ fuel ih =>
      unfold Journal.settling at hmv
      split at hmv
      · rw [List.mem_singleton.1 hmv]
        exact .wait
      · rcases List.mem_cons.1 hmv with rfl | hmv
        · exact .turn hp
        · exact ih hmv

theorem works_historyMoves {room : RoomId} (hmv : mv ∈ h.historyMoves room) : h.Works p mv := by
  unfold historyMoves at hmv
  rcases List.mem_cons.1 hmv with rfl | hmv
  · exact .look _ rfl
  · split at hmv
    · rw [List.mem_singleton.1 hmv]
      exact .look _ rfl
    · simp at hmv

theorem works_openMoves (hmv : mv ∈ h.openMoves) : h.Works p mv := by
  unfold openMoves at hmv
  split at hmv
  case isTrue hcannot =>
    rw [Bool.and_eq_true, Bool.not_eq_true'] at hcannot
    rw [List.mem_singleton.1 hmv]
    exact .release (.inl hcannot.2)
  case isFalse => simp at hmv

theorem works_deleteMoves (hp : p.isAsked = true) {room : RoomId} (hmv : mv ∈ h.deleteMoves room) :
    h.Works p mv := by
  unfold deleteMoves at hmv
  split at hmv
  · rw [List.mem_singleton.1 hmv]
    exact .purge _ hp
  · simp at hmv

theorem works_requestMoves (hp : p.isAsked = true) {session : Session} {request : Request}
    (hmv : mv ∈ h.requestMoves session request) : h.Works p mv := by
  cases request with
  | join room => exact works_openMoves hmv
  | history room => exact works_historyMoves hmv
  | deleteRoom room =>
      simp only [requestMoves] at hmv
      split at hmv
      · exact works_deleteMoves hp hmv
      · simp at hmv
  | chat text =>
      simp only [requestMoves] at hmv
      split at hmv
      · split at hmv
        · rw [List.mem_singleton.1 hmv]
          exact .append _ _ hp
        · simp at hmv
      · simp at hmv
  | direct receiver text =>
      simp only [requestMoves] at hmv
      split at hmv
      · simp at hmv
      · rw [List.mem_singleton.1 hmv]
        exact .direct _ _ _
  | fetchDirect sender receiver =>
      rw [List.mem_singleton.1 hmv]
      exact .look _ rfl
  | deleteDirect sender receiver =>
      rw [List.mem_singleton.1 hmv]
      exact .deleteDirect _ _
  | identify user | createRoom room | leave => simp [requestMoves] at hmv

theorem works_reactMoves {e : Event} (hmv : mv ∈ h.reactMoves e) : h.Works (.react e) mv := by
  cases e with
  | delete room => exact works_deleteMoves rfl hmv
  | history room => exact works_historyMoves hmv
  | listen name room | listenAbandoned room => exact works_openMoves hmv
  | direct sender receiver text =>
      simp only [reactMoves] at hmv
      split at hmv
      · rcases List.mem_cons.1 hmv with rfl | hmv
        · exact .gate _
        · rw [List.mem_singleton.1 hmv]
          exact .direct _ _ _
      · simp at hmv
  | submit sender room text =>
      rw [List.mem_singleton.1 hmv]
      exact .append _ _ rfl
  | flush =>
      rw [List.mem_singleton.1 hmv]
      exact .flush rfl
  | getDirect sender receiver | keyExists key =>
      rw [List.mem_singleton.1 hmv]
      exact .look _ rfl
  | deleteDirect sender receiver =>
      rw [List.mem_singleton.1 hmv]
      exact .deleteDirect _ _
  | log c =>
      rw [List.mem_singleton.1 hmv]
      exact .raw _ rfl
  | logSize =>
      rw [List.mem_singleton.1 hmv]
      exact .sweep
  | advance d =>
      rw [List.mem_singleton.1 hmv]
      exact .advance _ rfl
  | permits n =>
      rw [List.mem_singleton.1 hmv]
      exact .gate _
  | outages o =>
      rw [List.mem_singleton.1 hmv]
      exact .outages _ rfl
  | _ => simp [reactMoves] at hmv

/-- Leave to push is asked for with the log's side alone. -/
theorem Works.of_journal {journal : Journal Task} {name : Label}
    (hw : ({ h with journal } : Hub).Works (.serve name) mv) : h.Works (.serve name) mv := by
  cases hw with
  | release nobody =>
      refine .release (.inl ?_)
      rcases nobody with hcannot | ⟨hne, -⟩
      · exact hcannot
      · simp at hne
  | append room value asked => exact .append room value asked
  | purge room asked => exact .purge room asked
  | flush asked => exact .flush asked
  | turn unasked => simp [Piece.isAsked] at unasked
  | wait => exact .wait
  | gate g => exact .gate g
  | outages o event => simp at event
  | advance d event => simp at event
  | direct sender receiver value => exact .direct sender receiver value
  | deleteDirect sender receiver => exact .deleteDirect sender receiver
  | look c isLook => exact .look c isLook
  | raw c event => simp at event
  | sweep => exact .sweep

/-- A piece of work does nothing else to the log. -/
theorem works_logSide (hmv : mv ∈ h.logSide p) : h.Works p mv := by
  cases p with
  | react e => exact works_reactMoves hmv
  | serve name =>
      simp only [logSide] at hmv
      split at hmv
      · unfold serveMoves at hmv
        split at hmv
        · simp at hmv
        · split at hmv
          · split at hmv
            · simp at hmv
            · rcases List.mem_cons.1 hmv with rfl | hmv
              · exact .gate _
              · exact (works_requestMoves rfl hmv).of_journal
          · simp at hmv
      · simp at hmv
  | wait name =>
      rw [List.mem_singleton.1 hmv]
      exact .gate _
  | write => exact works_settling rfl hmv
  | retire =>
      simp only [logSide] at hmv
      split at hmv
      case isTrue hnobody =>
        rcases List.mem_cons.1 hmv with rfl | hmv
        · exact .release (.inr ⟨rfl, hnobody⟩)
        · exact works_settling rfl hmv
      case isFalse => simp at hmv
  | _ => simp [logSide] at hmv

/-- Time passes in no piece of work but the event that says so. -/
theorem now_piece (hp : ∀ d, p ≠ .react (.advance d)) :
    (h.piece p).journal.now = h.journal.now := by
  rw [(logs_piece h p).journal]
  refine Journal.now_goes_of_forall fun d hmv => ?_
  cases works_logSide hmv with
  | advance _ event => exact hp d event

/-- All that a server stores lives equally long. -/
theorem Works.isRoutine (hw : h.Works p mv) (hp : p.isRaw = false) :
    mv.isRoutine h.tuning.ttl = true := by
  cases hw with
  | append room value asked => exact decide_eq_true rfl
  | direct sender receiver value => exact decide_eq_true rfl
  | look c isLook => exact isLook
  | raw c event =>
      rw [event] at hp
      simp [Piece.isRaw] at hp
  | _ => rfl

/-- Whatever befalls the log in a series of pieces is of one of them. -/
theorem mem_logSides {h : Hub} {ps : List Piece} (hmv : mv ∈ h.logSides ps) :
    ∃ g : Hub, ∃ p ∈ ps, g.tuning = h.tuning ∧ g.Works p mv := by
  induction ps generalizing h with
  | nil => simp [logSides] at hmv
  | cons p ps ih =>
      rcases List.mem_append.1 hmv with hmv | hmv
      · exact ⟨h, p, List.mem_cons_self, rfl, works_logSide hmv⟩
      · obtain ⟨g, p', hp', htuning, hworks⟩ := ih hmv
        exact ⟨g, p', List.mem_cons_of_mem p hp', htuning.trans (logs_piece h p).tuning, hworks⟩

theorem isRoutine_logSides {h : Hub} {ps : List Piece} (hps : ∀ p ∈ ps, p.isRaw = false)
    (hmv : mv ∈ h.logSides ps) : mv.isRoutine h.tuning.ttl = true := by
  obtain ⟨g, p, hp, htuning, hworks⟩ := mem_logSides hmv
  rw [← htuning]
  exact hworks.isRoutine (hps p hp)

theorem ttl_of_mem_logSides {h : Hub} {ps : List Piece} {key value : String} {ttl : Duration}
    (hmv : .append key value ttl ∈ h.logSides ps) : ttl = h.tuning.ttl := by
  obtain ⟨g, p, -, htuning, hworks⟩ := mem_logSides hmv
  rw [← htuning]
  cases hworks
  rfl

end ChatServer.Hub
