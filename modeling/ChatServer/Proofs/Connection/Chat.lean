import ChatServer.Proofs.Connection.Registered

/-!
How a connection's chats and its leaving are answered. Both go by the room that it has joined last
and not left since, whether or not that room has been deleted in the meantime: a chat is then
acknowledged and written to the room's history although the connection is registered nowhere.
-/

namespace ChatServer

namespace Visitor

/-- The answer to a chat. -/
def chatReply (v : Visitor) : Frame :=
  match v.user, v.room with
  | none, _ => Frame.ofError .notIdentified
  | some _, none => Frame.ofError .notInRoom
  | some _, some room => .sent room.text

/-- The answer to a connection that wants to leave. -/
def leaveReply (v : Visitor) : Frame :=
  match v.room with
  | none => Frame.ofError .notInRoom
  | some room => .left room.text

/-- What is heard is the room last joined, or nothing. -/
def Consistent (v : Visitor) : Prop := v.hears = v.room ∨ v.hears = none

theorem Consistent.told {v : Visitor} (h : v.Consistent) (f : Frame) : (v.told f).Consistent := by
  cases f <;> first | exact h | exact .inl rfl

theorem Consistent.without {v : Visitor} (h : v.Consistent) (room : RoomId) :
    (v.without room).Consistent := by
  unfold Visitor.without
  split
  · exact .inr rfl
  · exact h

end Visitor

theorem Visitors.consistent_after {vs : Visitors} (h : ∀ name, (vs name).Consistent) (d : Deed)
    (name : Label) : (vs.after d name).Consistent := by
  have hmeet : (vs.meet d name).Consistent := by
    unfold Visitors.meet
    split
    · split
      · exact .inl rfl
      · exact h name
    · split
      · exact .inl rfl
      · exact h name
    · split
      · exact (h name).told _
      · exact h name
    · exact h name
  unfold Visitors.after
  split
  · exact hmeet
  · exact hmeet.without _

theorem Visitors.consistent_afterAll (ds : List Deed) {vs : Visitors}
    (h : ∀ name, (vs name).Consistent) (name : Label) : (vs.afterAll ds name).Consistent := by
  induction ds generalizing vs with
  | nil => exact h name
  | cons d ds ih => exact ih (consistent_after h d)

namespace Hub

/-- The log's side after a chat: what is said goes to the history of the room last joined. -/
def journalAfterChat (h : Hub) (v : Visitor) (text : String) : Journal Task :=
  match v.user, v.room with
  | some user, some room =>
    (h.journal.push
      (.append (roomKey room) (ChatRecord.json ⟨user, room, text, h.wall⟩) h.tuning.ttl)).2
  | _, _ => h.journal

variable {h : Hub} {vs : Visitors} {subs : List Subscription}

/-- An answer is given by a connection that goes by what its client has been told. -/
theorem Kept.answer_of_deeds (hk : h.Kept vs subs) {name : Label} {request : Request} {f : Frame}
    (hdeeds : h.deeds (.serve name) = [.answered name request f]) :
    ∃ c rest c' g, c.session = (vs name).session ∧
      ({ h with journal := h.leaveFor name c request } : Hub).serve { c with inbox := rest }
        request = .reply f c' g ∧ (h.piece (.serve name)).journal = g.journal := by
  cases hserve : h.serveNext name with
  | none => simp [deeds, hserve] at hdeeds
  | some after =>
      obtain ⟨c, hc, ha, hserving⟩ := serving_of_serveNext hserve
      cases hserving with
      | gone inbox eq deeds => simp [hdeeds] at deeds
      | unreadable inbox eq deeds => simp [hdeeds] at deeds
      | ended inbox served eq deeds => simp [hdeeds] at deeds
      | answered inbox served eq deeds =>
          rw [hdeeds, List.cons.injEq, Deed.answered.injEq] at deeds
          obtain ⟨⟨-, rfl, rfl⟩, -⟩ := deeds
          refine ⟨c, _, _, _, hk.faithful name c.presence (by simp [presence?, hc]) ha, served, ?_⟩
          rw [piece, hserve, Option.getD_some, eq]
          rfl

theorem Kept.chat_answered (hk : h.Kept vs subs) {name : Label} {text : String} {f : Frame}
    (hdeeds : h.deeds (.serve name) = [.answered name (.chat text) f]) :
    f = (vs name).chatReply ∧
      (h.piece (.serve name)).journal = h.journalAfterChat (vs name) text := by
  obtain ⟨c, rest, c', g, hsession, hserved, hjournal⟩ := hk.answer_of_deeds hdeeds
  have hleave : h.leaveFor name c (.chat text) = h.journal := rfl
  rw [hleave] at hserved
  rw [hjournal]
  have huser : c.session.user = (vs name).user := congrArg Session.user hsession
  have hjoined : c.session.joined = (vs name).room := congrArg Session.joined hsession
  simp only [serve, command, huser, hjoined] at hserved
  unfold Visitor.chatReply journalAfterChat
  cases hu : (vs name).user with
  | none =>
      simp only [hu, Served.reply.injEq] at hserved
      obtain ⟨rfl, -, rfl⟩ := hserved
      exact ⟨rfl, rfl⟩
  | some user =>
      cases hr : (vs name).room with
      | none =>
          simp only [hu, hr, Served.reply.injEq] at hserved
          obtain ⟨rfl, -, rfl⟩ := hserved
          exact ⟨rfl, rfl⟩
      | some room =>
          simp only [hu, hr] at hserved
          split at hserved
          · simp only [Served.reply.injEq] at hserved
            obtain ⟨rfl, -, rfl⟩ := hserved
            exact ⟨rfl, rfl⟩
          · simp at hserved

theorem Kept.leave_answered (hk : h.Kept vs subs) {name : Label} {f : Frame}
    (hdeeds : h.deeds (.serve name) = [.answered name .leave f]) : f = (vs name).leaveReply := by
  obtain ⟨c, rest, c', g, hsession, hserved, -⟩ := hk.answer_of_deeds hdeeds
  have hjoined : c.session.joined = (vs name).room := congrArg Session.joined hsession
  simp only [serve, hjoined] at hserved
  unfold Visitor.leaveReply
  cases hr : (vs name).room with
  | none =>
      simp only [hr, Served.reply.injEq] at hserved
      exact hserved.1.symm
  | some room =>
      simp only [hr, Served.reply.injEq] at hserved
      exact hserved.1.symm

/-- A connection that has joined a room is registered there just if it hears it. -/
theorem Kept.registered_iff_hears (hk : h.Kept vs subs) {name : Label} {room : RoomId} :
    (∃ l, h.Registered subs (some name) room l) ↔ (vs name).hears = some room := by
  rw [hk.hears_eq_some]
  constructor
  · rintro ⟨l, hl⟩
    exact ⟨l, hk.registered_iff.1 hl⟩
  · rintro ⟨l, hl⟩
    exact ⟨l, hk.registered_iff.2 hl⟩

/-- After any pieces of work, in particular at every stage of every run, a chat is answered by the
room that the connection has joined last and not left since, under whose key it is handed to the
writer, and so is a wish to leave; but the connection is registered there just if the room has not
been deleted since. -/
theorem chat_by_last_join (tuning : Tuning) (outages : Outages) (gated : Bool) (wall : Instant)
    (ps : List Piece) (name : Label) :
    let start := new tuning outages gated wall
    let h := start.pieces ps
    let v := Visitors.nobody.afterAll (start.log ps) name
    (∀ text f, h.deeds (.serve name) = [.answered name (.chat text) f] →
      f = v.chatReply ∧ (h.piece (.serve name)).journal = h.journalAfterChat v text) ∧
    (∀ f, h.deeds (.serve name) = [.answered name .leave f] → f = v.leaveReply) ∧
    (v.hears = v.room ∨ v.hears = none) ∧
    ∀ room, (∃ l, h.Registered (start.ledger ps) (some name) room l) ↔ v.hears = some room := by
  intro start h v
  have hk : h.Kept (Visitors.nobody.afterAll (start.log ps)) (start.ledger ps) := by
    have hkept := (kept_new tuning outages gated wall).pieces ps
    rwa [List.nil_append] at hkept
  refine ⟨fun text f => hk.chat_answered, fun f => hk.leave_answered, ?_, fun room =>
    hk.registered_iff_hears⟩
  exact Visitors.consistent_afterAll _ (fun _ => .inl rfl) name

/-- A client names itself and joins a room. -/
def joinedRoom : List Moment :=
  [Event.connect "a" "c", .text "a" "\x7b\"type\":\"identify\",\"user_id\":\"u\"\x7d",
    .text "a" "\x7b\"type\":\"join\",\"room_id\":\"r\"\x7d"].map (Moment.mk default)

/-- The client deletes the room that it has joined. -/
def deletion : Moment :=
  ⟨default, .text "a" "\x7b\"type\":\"delete_room\",\"room_id\":\"r\"\x7d"⟩

/-- The client says something. -/
def chat : Moment := ⟨default, .text "a" "\x7b\"type\":\"chat\",\"text\":\"hi\"\x7d"⟩

/-- The stage at which the client's chat is served, the room being deleted. -/
def chatStage (start : Hub) : List Piece :=
  start.scripts (joinedRoom ++ [deletion]) ++ [.date chat.wall, .react chat.event]

theorem chat_by_last_join_deleted :
    let start := new Tuning.default Outages.none false default
    let h := start.pieces (chatStage start)
    let v := Visitors.nobody.afterAll (start.log (chatStage start)) "a"
    h.deeds (.serve "a") = [.answered "a" (.chat "hi") (.sent "r")] ∧
      v = ⟨some ⟨"u"⟩, some ⟨"r"⟩, none⟩ ∧ Frame.sent "r" = v.chatReply ∧
        ¬ ∃ l, h.Registered (start.ledger (chatStage start)) (some "a") ⟨"r"⟩ l := by
  intro start h v
  have hdeeds : h.deeds (.serve "a") = [.answered "a" (.chat "hi") (.sent "r")] := by decide +kernel
  have hv : v = ⟨some ⟨"u"⟩, some ⟨"r"⟩, none⟩ := by decide +kernel
  obtain ⟨hchat, -, -, hregistered⟩ :=
    chat_by_last_join Tuning.default Outages.none false default (chatStage start) "a"
  refine ⟨hdeeds, hv, (hchat "hi" (.sent "r") hdeeds).1, fun hex => ?_⟩
  have hhears : v.hears = some ⟨"r"⟩ := (hregistered ⟨"r"⟩).1 hex
  rw [hv] at hhears
  simp at hhears

/-- A client that has been told that its room is closed says something there: there is no such room,
but it is answered that this was sent, and the log has it under the room's key. -/
theorem sent_to_closed_room :
    let h := (new Tuning.default Outages.none false default).through joinedRoom
    (h.step deletion.event).2.1 = [("a", ⟨[.roomDeleted "r", .roomClosed "r"], false⟩)] ∧
      let h := (h.face deletion).2
      h.registry.count ⟨"r"⟩ = none ∧
        (h.step chat.event).2.1 = [("a", ⟨[.sent "r"], false⟩)] ∧
        ((h.face chat).2.callLog (.range (roomKey ⟨"r"⟩) 0 (-1))).1 =
          .answered (.values [ChatRecord.json ⟨⟨"u"⟩, ⟨"r"⟩, "hi", default⟩]) ∧
        (h.step (.text "a" "\x7b\"type\":\"leave\"\x7d")).2.1 = [("a", ⟨[.left "r"], false⟩)] := by
  decide +kernel

end Hub

end ChatServer
