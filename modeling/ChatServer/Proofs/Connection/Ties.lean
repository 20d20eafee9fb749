import ChatServer.Proofs.Connection.Orders
import ChatServer.Proofs.History.LogSide
import ChatServer.Proofs.Log.Refusal

/-!
The handling of commands and the line of the writer end together. Whoever handles commands is the
one who hands writes to the writer; so in every piece of work either both go on or neither does, and
what has ended does not begin again.
-/

namespace ChatServer.Hub

variable {h h' g : Hub}

/-- Writes can be handed to the writer just if commands are handled. -/
def Tied (h : Hub) : Prop := h.journal.writer.fed = h.managed

theorem tied_new (tuning : Tuning) (outages : Outages) (gated : Bool) (wall : Instant) :
    (new tuning outages gated wall).Tied := rfl

/-- What happens to the handling of commands and to the line of the writer: nothing, or both come to
their end. -/
inductive Ties (h h' : Hub) : Prop
  | kept (fed : h'.journal.writer.fed = h.journal.writer.fed) (managed : h'.managed = h.managed)
  | ended (fed : h'.journal.writer.fed = false) (managed : h'.managed = false)

theorem Ties.tied (ht : Ties h h') (h₀ : h.Tied) : h'.Tied := by
  cases ht with
  | kept fed managed => exact fed.trans (h₀.trans managed.symm)
  | ended fed managed => exact fed.trans managed.symm

theorem Ties.managed_eq_false (ht : Ties h h') (hm : h.managed = false) : h'.managed = false := by
  cases ht with
  | kept fed managed => exact managed.trans hm
  | ended fed managed => exact managed

theorem Ties.refl (h : Hub) : Ties h h := .kept rfl rfl

theorem Ties.trans (ht : Ties h g) (ht' : Ties g h') : Ties h h' := by
  cases ht' with
  | kept fed managed =>
      cases ht with
      | kept fed' managed' => exact .kept (fed.trans fed') (managed.trans managed')
      | ended fed' managed' => exact .ended (fed.trans fed') (managed.trans managed')
  | ended fed managed => exact .ended fed managed

/-- Only these two things matter. -/
theorem Ties.of_eq (ht : Ties h g) (hfed : h'.journal.writer.fed = g.journal.writer.fed)
    (hmanaged : h'.managed = g.managed) : Ties h h' := by
  cases ht with
  | kept fed managed => exact .kept (hfed.trans fed) (hmanaged.trans managed)
  | ended fed managed => exact .ended (hfed.trans fed) (hmanaged.trans managed)

/-- Of all moves of the log one lets go of the writer. -/
theorem ties_of_moves {mvs : List (Journal.Move Task)} (hl : Logs h mvs h')
    (hmvs : .release ∉ mvs) (hm : h'.managed = h.managed) : Ties h h' :=
  .kept (by rw [hl.journal, Journal.fed_goes fun mv hmv hrelease => hmvs (hrelease ▸ hmv)]) hm

/-- A writer that runs does not let go of itself. -/
theorem fed_runWriter (h : Hub) : h.runWriter.journal.writer.fed = h.journal.writer.fed := by
  have hsettling : ∀ (j : Journal Task) (fuel : Nat), .release ∉ j.settling .writer fuel := by
    intro j fuel
    induction fuel generalizing j with
    | zero => simp [Journal.settling]
    | succ fuel ih =>
        unfold Journal.settling
        split <;> simp [ih]
  have hjournal : h.runWriter.journal =
      h.journal.goes .writer (h.journal.settleScript .writer) :=
    (Journal.goes_settleScript Task.writer h.journal).symm
  rw [hjournal, Journal.fed_goes fun mv hmv hrelease => hsettling _ _ (hrelease ▸ hmv)]

theorem ties_openListener (h : Hub) (room : RoomId) : Ties h (h.openListener room).2 := by
  rcases openListener_cases h room with ⟨-, heq⟩ | heq | ⟨-, heq⟩
  · rw [heq]
    exact .refl h
  · rw [heq]
    exact .kept rfl rfl
  · rw [heq]
    exact .ended rfl rfl

theorem release_not_mem_historyMoves (h : Hub) (room : RoomId) :
    .release ∉ h.historyMoves room := by
  unfold historyMoves
  split <;> simp

theorem release_not_mem_deleteMoves (h : Hub) (room : RoomId) : .release ∉ h.deleteMoves room := by
  unfold deleteMoves
  split <;> simp

theorem ties_react (h : Hub) (e : Event) : Ties h (h.react e).2 := by
  by_cases hlisten : ∃ name room, e = .listen name room
  · obtain ⟨name, room, rfl⟩ := hlisten
    have hopen := ties_openListener h room
    rcases hl : h.openListener room with ⟨_ | l, after⟩
    · rw [hl] at hopen
      simp only [react, hl]
      exact hopen
    · rw [hl] at hopen
      obtain ⟨registry, held, hdrop, -⟩ := dropHeld_eq after name
      simp only [react, hl, hdrop]
      exact hopen.of_eq rfl rfl
  · by_cases habandon : ∃ room, e = .listenAbandoned room
    · obtain ⟨room, rfl⟩ := habandon
      simp only [react, openAbandoned]
      split
      · split
        · exact .kept rfl rfl
        · exact .ended rfl rfl
      · exact .refl h
    · refine ties_of_moves (logs_react h e) ?_ ?_
      · cases e with
        | listen name room => exact absurd ⟨name, room, rfl⟩ hlisten
        | listenAbandoned room => exact absurd ⟨room, rfl⟩ habandon
        | history room => exact h.release_not_mem_historyMoves room
        | delete room => exact h.release_not_mem_deleteMoves room
        | direct sender receiver text =>
            simp only [reactMoves]
            split <;> simp [directMoves]
        | _ => simp [reactMoves, submitMoves]
      · cases hfront : e.isFront with
        | true =>
            exact (registry_asked hfront (fun name room heq => hlisten ⟨name, room, heq⟩)
              fun room heq => habandon ⟨room, heq⟩).2
        | false => exact (aside_react hfront).2

theorem ties_command {g : Hub} (c : Connection) (f : Frame) (hg : Ties h g) :
    Ties h (h.command c f g).hub := by
  unfold command
  split
  · exact hg
  · exact .refl h

theorem ties_serve (h : Hub) (c : Connection) (request : Request) :
    Ties h (h.serve c request).hub := by
  cases request with
  | identify user => exact .refl h
  | createRoom room => exact ties_command c _ (.kept rfl rfl)
  | join room =>
      have hopen := ties_openListener { h with registry := h.registry.release c.stream } ⟨room⟩
      rw [hub_serve_join]
      cases hopen with
      | kept fed managed => exact .kept fed managed
      | ended fed managed => exact .ended fed managed
  | leave =>
      simp only [serve, endStream_eq]
      split <;> exact .kept rfl rfl
  | chat text =>
      simp only [serve]
      split
      case h_1 => exact .refl h
      case h_2 => exact .refl h
      case h_3 user room _ _ =>
        have hsubmit : Logs h (h.submitMoves user room text) (h.submit user room text) :=
          ⟨rfl, rfl⟩
        exact ties_command c _ (ties_of_moves hsubmit (by simp [submitMoves]) rfl)
  | deleteRoom room =>
      refine ties_command c _ (ties_of_moves (logs_delete h ⟨room⟩) ?_ ?_)
      · exact h.release_not_mem_deleteMoves ⟨room⟩
      · unfold delete
        dsimp only
        split <;> rfl
  | history room =>
      obtain ⟨journal, heq⟩ := history_eq h ⟨room⟩
      have hm : (h.history ⟨room⟩).2.managed = h.managed := by rw [heq]
      exact ties_of_moves (logs_history h ⟨room⟩) (h.release_not_mem_historyMoves ⟨room⟩) hm
  | direct receiver text =>
      refine ties_of_moves (logs_serve h c (.direct receiver text)) ?_ ?_
      · simp only [requestMoves]
        split <;> simp [directMoves]
      · cases huser : c.session.user with
        | none =>
            simp only [serve, huser]
            rfl
        | some user =>
            rw [hub_serve_direct_of_user huser]
            rfl
  | fetchDirect sender receiver =>
      obtain ⟨journal, heq⟩ := getDirect_eq h ⟨sender⟩ ⟨receiver⟩
      have hm : (h.getDirect ⟨sender⟩ ⟨receiver⟩).2.managed = h.managed := by rw [heq]
      exact ties_of_moves (logs_getDirect h ⟨sender⟩ ⟨receiver⟩) (by simp) hm
  | deleteDirect sender receiver =>
      obtain ⟨journal, heq⟩ := deleteDirect_eq h ⟨sender⟩ ⟨receiver⟩
      have hm : (h.deleteDirect ⟨sender⟩ ⟨receiver⟩).2.managed = h.managed := by rw [heq]
      exact ties_of_moves (logs_deleteDirect h ⟨sender⟩ ⟨receiver⟩) (by simp) hm

theorem ties_serveNext {name : Label} (hserve : h.serveNext name = some h') : Ties h h' := by
  obtain ⟨c, first, rest, -, -, -, ⟨-, heq⟩ | ⟨s, -, ⟨r, -, heq⟩ | ⟨request, -, heq⟩⟩⟩ :=
    serveNext_cases hserve
  · rw [heq, endConnection_eq]
    exact .kept rfl rfl
  · rw [heq]
    exact .kept rfl rfl
  · have hleave : Ties h { h with journal := h.leaveFor name c request } :=
      ties_of_moves (logs_leaveFor h name c request) (by simp) rfl
    have hserved := ties_serve { h with journal := h.leaveFor name c request }
      { c with inbox := rest } request
    have hclose : ∀ served : Served, (served.close name).managed = served.hub.managed ∧
        (served.close name).journal = served.hub.journal := by
      intro served
      cases served with
      | reply f c' g => exact ⟨rfl, rfl⟩
      | ended c' g =>
          rw [Served.close, endConnection_eq]
          exact ⟨rfl, rfl⟩
    rw [heq]
    obtain ⟨hmanaged, hjournal⟩ := hclose
      (({ h with journal := h.leaveFor name c request } : Hub).serve { c with inbox := rest }
        request)
    refine Ties.of_eq (hleave.trans hserved) (by rw [hjournal]) hmanaged

/-- A piece of work ends the handling of commands and the writer's line together or neither. -/
theorem ties_piece (h : Hub) (p : Piece) : Ties h (h.piece p) := by
  cases p with
  | react e => exact ties_react h e
  | serve name =>
      rw [piece]
      cases hserve : h.serveNext name with
      | none => exact .refl h
      | some after => exact ties_serveNext hserve
  | retire =>
      rw [piece, retire]
      split
      · exact .ended (fed_runWriter h.dismiss) rfl
      · exact .refl h
  | wait name =>
      obtain ⟨gate, heq⟩ := waitInLine_eq h name
      rw [piece, heq]
      exact .kept rfl rfl
  | pump name =>
      obtain ⟨registry, pumps, heq⟩ := runPump_eq h name
      rw [piece, heq]
      exact .kept rfl rfl
  | forward name =>
      refine ties_of_moves (logs_piece h (.forward name)) (by simp [logSide]) ?_
      rw [piece]
      rcases forward_cases h name with heq | ⟨c, registry, outbox, stream, -, heq⟩ <;> rw [heq]
      rfl
  | forget name =>
      rcases forget_cases h name with heq | ⟨c, -, -, heq⟩ <;> rw [piece, heq] <;>
        exact .kept rfl rfl
  | write => exact .kept (fed_runWriter h) rfl
  | date wall | collect => exact .kept rfl rfl

theorem Tied.pieces (ht : h.Tied) (ps : List Piece) : (h.pieces ps).Tied :=
  pieces_invariant (fun g p _ hg => (ties_piece g p).tied hg) ht

end ChatServer.Hub
