import ChatServer.Proofs.Connection.Charge
import ChatServer.Proofs.History.Direct
import ChatServer.Proofs.Log.Attempt

/-!
How a client is answered that sends one text after the other, said without a server's rooms and
connections: what is known of it are the user that it has named last and the room that it has joined
last and not left since, and the answer to a text follows from that and from what the log does at
the moment. A connection of which commands are handled gives just this answer.
-/

namespace ChatServer

namespace Session

/-- Of a client that has just come nothing is known. -/
def stranger : Session := ⟨none, none⟩

/-- What is known of a client after a request. -/
def next (s : Session) : Request → Session
  | .identify user => { s with user := some ⟨user⟩ }
  | .join room => { s with joined := some ⟨room⟩ }
  | .leave => { s with joined := none }
  | _ => s

/-- What is known of a client after a text, which may be none that can be read. -/
def hear (s : Session) (text : String) : Session :=
  match Request.parse text with
  | .error _ => s
  | .ok request => s.next request

end Session

/-- Why a write fails: its value cannot be appended, or else its deadline cannot be set. -/
def Outages.ofWrite (o : Outages) : Option String := o.push.or o.expire

namespace Hub

/-- The answer to a request of a client. -/
def answerTo (h : Hub) (s : Session) : Request → Frame
  | .identify user => .identified user
  | .createRoom room => .roomCreated room
  | .join room => .joined room
  | .deleteRoom room => .roomDeleted room
  | .leave =>
    match s.joined with
    | none => Frame.ofError .notInRoom
    | some room => .left room.text
  | .chat _ =>
    match s.user, s.joined with
    | none, _ => Frame.ofError .notIdentified
    | some _, none => Frame.ofError .notInRoom
    | some _, some room => .sent room.text
  | .direct receiver _ =>
    match s.user, h.journal.store.outages.ofWrite with
    | none, _ => Frame.ofError .notIdentified
    | some _, some reason => Frame.ofError (.log (.unavailable reason))
    | some _, none => .directSent receiver
  | .history room => logReply (h.history ⟨room⟩).1 (.history room)
  | .fetchDirect sender receiver =>
    logReply (h.getDirect ⟨sender⟩ ⟨receiver⟩).1 (.directMessages sender receiver)
  | .deleteDirect sender receiver =>
    logReply (h.deleteDirect ⟨sender⟩ ⟨receiver⟩).1 fun _ => .directDeleted sender receiver

/-- The answer to a text of a client. -/
def answerToText (h : Hub) (s : Session) (text : String) : Frame :=
  match Request.parse text with
  | .error r => Frame.ofError (.json r)
  | .ok request => h.answerTo s request

/-- The server after a chat: the message goes under the client's name to the room that it has
joined, if it has done both. -/
def afterChat (h : Hub) (s : Session) (text : String) : Hub :=
  match s.user, s.joined with
  | some user, some room => h.submit user room text
  | _, _ => h

/-- The server after a direct message, which goes under the client's name if it has one. -/
def afterDirect (h : Hub) (s : Session) (receiver text : String) : Hub :=
  match s.user with
  | some user => (h.direct user ⟨receiver⟩ text).2
  | none => h

/-! ### Requests -/

/-- A write fails just where something is out of order. -/
theorem write_fst {α : Type} (s : Store α) {now : Time} {ttl : Duration}
    (hclock : now + ttl < Time.limit) (key value : String) :
    (s.write now key value ttl).1 =
      match s.outages.ofWrite with
      | some reason => .unavailable reason
      | none => .answered .done := by
  rw [Store.write_eq]
  cases hpush : s.outages.push with
  | some reason => simp [Store.call, Outages.reason, Outages.ofWrite, hpush]
  | none =>
      have hdone : (s.call now (.push key value)).1 = .answered .done := by
        simp [Store.call, Outages.reason, hpush, ExpiringLog.call]
      have houtages := s.outages_call now (.push key value)
      rw [if_pos hdone]
      generalize (s.call now (.push key value)).2 = pushed at houtages ⊢
      cases hexpire : s.outages.expire with
      | some reason =>
          simp [Store.call, Outages.reason, Outages.ofWrite, houtages, hpush, hexpire]
      | none =>
          obtain ⟨log, hlog, -⟩ := pushed.log.live?_expire? key hclock
          simp [Store.call, Outages.reason, Outages.ofWrite, houtages, hpush, hexpire,
            ExpiringLog.call, hlog]

variable {h : Hub} {c : Connection}

/-- Where commands are handled and listeners can be opened, every request is answered, and the
connection keeps what is known of its client. -/
theorem serve_answered (hm : h.managed = true) (hcan : h.registry.canOpen = true)
    (hclock : h.journal.now + h.tuning.ttl < Time.limit) (c : Connection) (request : Request) :
    ∃ c' g, h.serve c request = .reply (h.answerTo c.session request) c' g ∧
      c'.session = c.session.next request := by
  cases request with
  | identify user => exact ⟨_, _, rfl, rfl⟩
  | createRoom room | deleteRoom room => exact ⟨_, _, by rw [serve, command, if_pos hm]; rfl, rfl⟩
  | history room => exact ⟨_, _, rfl, rfl⟩
  | fetchDirect sender receiver | deleteDirect sender receiver => exact ⟨_, _, rfl, rfl⟩
  | join room =>
      have hopen := (canOpen_release h.registry c.stream).trans hcan
      simp only [serve, endStream_eq, openListener, hm, hopen, Bool.not_true, Bool.false_eq_true,
        if_false, if_true]
      exact ⟨_, _, rfl, rfl⟩
  | leave =>
      cases hroom : c.session.joined with
      | none =>
          refine ⟨c, h, by simp [serve, answerTo, hroom], ?_⟩
          simp [Session.next, ← hroom]
      | some room =>
          simp only [serve, endStream_eq, answerTo, hroom]
          exact ⟨_, _, rfl, rfl⟩
  | chat text =>
      cases huser : c.session.user with
      | none => exact ⟨c, h, by simp [serve, answerTo, huser], rfl⟩
      | some user =>
          cases hroom : c.session.joined with
          | none => exact ⟨c, h, by simp [serve, answerTo, huser, hroom], rfl⟩
          | some room =>
              exact ⟨c, h.submit user room text,
                by simp [serve, command, answerTo, huser, hroom, hm], rfl⟩
  | direct receiver text =>
      cases huser : c.session.user with
      | none => exact ⟨c, h, by simp [serve, answerTo, huser], rfl⟩
      | some user =>
          have hwrite := write_fst h.journal.store hclock (directKey user ⟨receiver⟩)
            (DirectRecord.new user ⟨receiver⟩ text).json
          refine ⟨c, (h.direct user ⟨receiver⟩ text).2, ?_, rfl⟩
          simp only [serve, answerTo, huser, direct_eq, hwrite]
          cases h.journal.store.outages.ofWrite <;> rfl

/-! ### What comes of them -/

theorem hub_serve_chat (hm : h.managed = true) (c : Connection) (text : String) :
    (h.serve c (.chat text)).hub = h.afterChat c.session text := by
  cases huser : c.session.user with
  | none => simp [serve, afterChat, huser, Served.hub]
  | some user =>
      cases hroom : c.session.joined <;>
        simp [serve, command, afterChat, huser, hroom, hm, Served.hub]

theorem hub_serve_direct (h : Hub) (c : Connection) (receiver text : String) :
    (h.serve c (.direct receiver text)).hub = h.afterDirect c.session receiver text := by
  cases huser : c.session.user with
  | none => simp [serve, afterDirect, huser, Served.hub]
  | some user =>
      rw [hub_serve_direct_of_user huser, afterDirect, huser]

/-- What is said to have been sent has been written. -/
theorem ofWrite_of_directSent {s : Session} {user : UserId} (huser : s.user = some user)
    {receiver text : String} (hsent : h.answerTo s (.direct receiver text) = .directSent receiver) :
    h.journal.store.outages.ofWrite = none := by
  cases hwrite : h.journal.store.outages.ofWrite with
  | none => rfl
  | some reason => simp [answerTo, huser, hwrite, Frame.ofError] at hsent

/-- A direct message that is written is found behind those that were there. -/
theorem filed_afterDirect (hclock : h.journal.now + h.tuning.ttl < Time.limit)
    (httl : 0 < h.tuning.ttl) {s : Session} {user : UserId} (huser : s.user = some user)
    (hwrite : h.journal.store.outages.ofWrite = none) (receiver text : String) :
    (h.afterDirect s receiver text).filed (directKey user ⟨receiver⟩) =
      h.filed (directKey user ⟨receiver⟩) ++ [DirectRecord.new user ⟨receiver⟩ text] := by
  obtain ⟨hpush, hexpire⟩ := Option.or_eq_none_iff.1 hwrite
  have hlive := Attempt.live?_perform h.journal.store.log ⟨h.journal.now, h.journal.store.outages,
    .append (directKey user ⟨receiver⟩) (DirectRecord.new user ⟨receiver⟩ text).json h.tuning.ttl⟩
    (directKey user ⟨receiver⟩)
  have hbefore := readable_append (DirectRecord.new user ⟨receiver⟩ text)
    (((h.journal.store.log.live? h.journal.now (directKey user ⟨receiver⟩)).map
      LogEntry.values).getD [])
  have hlater : h.journal.now < h.journal.now + h.tuning.ttl := Nat.lt_add_of_pos_right httl
  simp only [afterDirect, huser, direct_eq, filed, withStore, Store.log_apply, hlive, ← hbefore]
  simp only [Attempt.alter, Attempt.clears, Attempt.stored?, Attempt.dated?, hpush, hexpire,
    Time.after?, hclock, hlater, and_self, if_true, Bool.false_eq_true, if_false, Option.map_some,
    Option.getD_some]
  cases h.journal.store.log.live? h.journal.now (directKey user ⟨receiver⟩) <;> rfl

end Hub

end ChatServer
