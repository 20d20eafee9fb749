import ChatServer.Proofs.Connection.Attendance
import ChatServer.Proofs.Log.Ending

/-!
Why connections end. Where commands are handled and listeners can have channels a connection ends in
two ways only: its client goes away, or it asks for a direct message to be stored whose deadline the
clock cannot show.
-/

namespace ChatServer.Hub

variable {h : Hub} {name : Label} {c : Connection} {p : Piece}

/-- A direct message that cannot be stored because the clock cannot show its deadline. -/
def directAttempt (h : Hub) (sender receiver : UserId) (text : String) : Attempt :=
  ⟨h.journal.now, h.journal.store.outages,
    .append (directKey sender receiver) (DirectRecord.new sender receiver text).json h.tuning.ttl⟩

theorem direct_eq_overflow {sender receiver : UserId} {text : String} :
    (h.direct sender receiver text).1 = .overflow ↔
      (h.directAttempt sender receiver text).isFatal = true := by
  rw [direct_eq, Store.write_eq_overflow]
  simp only [directAttempt, Attempt.isFatal, Bool.and_eq_true, Option.isNone_iff_eq_none,
    and_assoc]
  exact and_congr_right fun _ => and_congr_right fun _ => decide_eq_true_iff.symm

/-- Leave to push does not change when a message is due or what is out of order. -/
theorem directAttempt_leaveFor (h : Hub) (name : Label) (c : Connection) (request : Request)
    (sender receiver : UserId) (text : String) :
    ({ h with journal := h.leaveFor name c request } : Hub).directAttempt sender receiver text =
      h.directAttempt sender receiver text := by
  simp only [directAttempt, leaveFor, acquire]
  split
  · rw [Store.acquire_eq]
    rfl
  · rfl

/-- The one request at which a connection ends of which commands are handled. -/
theorem direct_of_ended (hm : h.managed = true) (hcan : h.registry.canOpen = true)
    {request : Request} {c' : Connection} {g : Hub} (hserved : h.serve c request = .ended c' g) :
    ∃ receiver text user, request = .direct receiver text ∧ c.session.user = some user ∧
      (h.directAttempt user ⟨receiver⟩ text).isFatal = true := by
  cases request with
  | createRoom room | deleteRoom room => simp [serve, command, hm] at hserved
  | chat text =>
      simp only [serve, command, hm, if_true] at hserved
      split at hserved <;> simp at hserved
  | join room =>
      have hcan' := (canOpen_release h.registry c.stream).trans hcan
      simp [serve, endStream_eq, openListener, hm, hcan'] at hserved
  | leave =>
      simp only [serve] at hserved
      split at hserved <;> simp at hserved
  | direct receiver text =>
      simp only [serve] at hserved
      cases huser : c.session.user with
      | none => simp only [huser, reduceCtorEq] at hserved
      | some user =>
          simp only [huser] at hserved
          refine ⟨receiver, text, user, rfl, rfl, direct_eq_overflow.1 ?_⟩
          rcases hdirect : h.direct user ⟨receiver⟩ text with ⟨_ | reason | _, g'⟩ <;>
            simp only [hdirect, reduceCtorEq] at hserved
          rfl
  | identify user | history room | fetchDirect sender receiver | deleteDirect sender receiver =>
      simp [serve] at hserved

/-- How a connection can end: it serves its client's departure, or a direct message that ends it. -/
inductive Departs (h : Hub) (name : Label) (c : Connection) (p : Piece) : Prop
  | left {rest : List Inbound} (serve : p = .serve name) (inbox : c.inbox = .gone :: rest)
  | late {s receiver text : String} {rest : List Inbound} {user : UserId} (serve : p = .serve name)
      (inbox : c.inbox = .text s :: rest) (parsed : Request.parse s = .ok (.direct receiver text))
      (session : c.session.user = some user)
      (fatal : (h.directAttempt user ⟨receiver⟩ text).isFatal = true)

theorem departs_of_serveNext (hm : h.managed = true) (hcan : h.registry.canOpen = true)
    (hc : h.connections.get? name = some c) {h' : Hub} (hserve : h.serveNext name = some h')
    (hgone : ∀ c', h'.connections.get? name = some c' → c'.alive = false) :
    Departs h name c (.serve name) := by
  obtain ⟨d, first, rest, hd, ha, hinbox, hcases⟩ := serveNext_cases hserve
  obtain rfl : c = d := Option.some.inj (hc.symm.trans hd)
  have hstays : ∀ (g : Hub) (c' : Connection), h' = g.putConnection name c' → c'.alive = false := by
    rintro g c' rfl
    exact hgone c' (by simp [putConnection])
  rcases hcases with ⟨rfl, -⟩ | ⟨s, rfl, ⟨r, -, heq⟩ | ⟨request, hparse, heq⟩⟩
  · exact .left rfl hinbox
  · exact absurd (hstays _ _ heq) (by simp [ha])
  · rcases hserved : ({ h with journal := h.leaveFor name c request } : Hub).serve
      { c with inbox := rest } request with ⟨f, c', g⟩ | ⟨c', g⟩
    · rw [hserved] at heq
      obtain ⟨-, -, -, halive, -⟩ := aside_of_reply hserved
      exact absurd (hstays _ _ heq) (by simp [halive, ha])
    · obtain ⟨receiver, text, user, rfl, huser, hfatal⟩ :=
        direct_of_ended (h := { h with journal := h.leaveFor name c request }) hm hcan hserved
      rw [directAttempt_leaveFor] at hfatal
      exact .late rfl hinbox hparse huser hfatal

/-- A connection that is not there any more after a piece of work has departed. -/
theorem departs_of_piece (hm : h.managed = true) (hcan : h.registry.canOpen = true)
    (hc : h.connections.get? name = some c) (ha : c.alive = true)
    (hgone : ∀ c', (h.piece p).connections.get? name = some c' → c'.alive = false) :
    Departs h name c p := by
  have hthere : ∀ c', (h.piece p).connections.get? name = some c' → c'.alive ≠ true :=
    fun c' hc' halive => by simp [hgone c' hc'] at halive
  cases hown : p.isOwn name with
  | false =>
      obtain ⟨c', hc', stream, fs, -, rfl⟩ := streams_piece hown hc ha
      exact absurd ha (hthere { c with stream, outbox := c.outbox ++ fs } hc')
  | true =>
      cases p with
      | serve n =>
          obtain rfl : n = name := of_decide_eq_true hown
          rw [piece] at hgone hthere
          cases hserve : h.serveNext n with
          | none =>
              rw [hserve] at hthere
              exact absurd ha (hthere c hc)
          | some after =>
              rw [hserve] at hgone
              exact departs_of_serveNext hm hcan hc hserve hgone
      | react e =>
          cases reception_react h e with
          | unmoved connections => exact absurd ha (hthere c (connections ▸ hc))
          | @opened n id event free eq =>
              subst event
              obtain rfl : n = name := of_decide_eq_true hown
              refine absurd rfl (hthere (Connection.new id) ?_)
              rw [piece, eq]
              simp [putConnection]
          | @arrival n d x client found eq =>
              by_cases hn : n = name
              · subst hn
                obtain rfl : c = d := Option.some.inj (hc.symm.trans found)
                refine absurd ha (hthere { c with inbox := c.inbox ++ [x] } ?_)
                rw [piece, eq]
                simp [putConnection]
              · refine absurd ha (hthere c ?_)
                rw [piece, eq, get?_putConnection_of_ne hn, hc]
      | collect =>
          refine absurd ha (hthere c.emptied ?_)
          rw [piece, get?_collect, hc]
          rfl
      | _ => simp [Piece.isOwn] at hown

end ChatServer.Hub
