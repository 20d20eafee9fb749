import ChatServer.Proofs.Connection.Event

/-!
What a connection does that serves the first thing in its inbox. Every request is answered or ends
the connection, and either way what happens is one of the changes.
-/

namespace ChatServer

/-- Answers that tell a client nothing about itself and nobody anything about rooms. -/
def Frame.isPlain : Frame → Bool
  | .connected _ | .roomCreated _ | .history .. | .directSent _ | .directMessages ..
  | .directDeleted .. | .error .. => true
  | _ => false

namespace Hub

variable {h h' : Hub} {vs : Visitors} {subs : List Subscription}

/-- The log's side when leave to push has been asked for a request that needs it. -/
def leaveFor (h : Hub) (name : Label) (c : Connection) (request : Request) : Journal Task :=
  if pushes c (.ok request) then (h.acquire (.connection name)).2.journal else h.journal

/-- What a connection that serves the first thing in its inbox can come to. -/
inductive Serving (h : Hub) (name : Label) (c : Connection) (h' : Hub) : Prop
  | gone {rest : List Inbound} (inbox : c.inbox = .gone :: rest)
      (eq : h' = h.endConnection name c) (deeds : h.deeds (.serve name) = [.departed name])
  | unreadable {s : String} {rest : List Inbound} {r : Json.Refusal}
      (inbox : c.inbox = .text s :: rest)
      (eq : h' = h.putConnection name
        { c with inbox := rest, outbox := c.outbox ++ [Frame.ofError (.json r)] })
      (deeds : h.deeds (.serve name) = [])
  | answered {s : String} {rest : List Inbound} {request : Request} {f : Frame} {c' : Connection}
      {g : Hub} (inbox : c.inbox = .text s :: rest)
      (served : ({ h with journal := h.leaveFor name c request } : Hub).serve
        { c with inbox := rest } request = .reply f c' g)
      (eq : h' = g.putConnection name { c' with outbox := c'.outbox ++ [f] })
      (deeds : h.deeds (.serve name) = [.answered name request f])
  | ended {s : String} {rest : List Inbound} {request : Request} {c' : Connection} {g : Hub}
      (inbox : c.inbox = .text s :: rest)
      (served : ({ h with journal := h.leaveFor name c request } : Hub).serve
        { c with inbox := rest } request = .ended c' g)
      (eq : h' = g.endConnection name { c' with closed := true })
      (deeds : h.deeds (.serve name) = [.departed name])

/-- Asking for leave to push changes the log's side at most. -/
theorem acquire_leaveFor (h : Hub) (name : Label) (c : Connection) (request : Request) :
    (if pushes c (.ok request) then h.acquire (.connection name) else (true, h)).2 =
      { h with journal := h.leaveFor name c request } := by
  unfold leaveFor
  split <;> rfl

/-- What is left to do once a request is served: the answer is sent, or the connection ends. -/
def Served.close (name : Label) : Served → Hub
  | .reply f c h => h.putConnection name { c with outbox := c.outbox ++ [f] }
  | .ended c h => h.endConnection name { c with closed := true }

/-- What has been done when a request has been served. -/
def Served.deed (name : Label) (request : Request) : Served → Deed
  | .reply f _ _ => .answered name request f
  | .ended .. => .departed name

/-- All that can come of serving the first thing in an inbox: it is the client's departure, or it
cannot be read, or it is a request. -/
theorem serveNext_cases {name : Label} (hserve : h.serveNext name = some h') :
    ∃ c first rest, h.connections.get? name = some c ∧ c.alive = true ∧ c.inbox = first :: rest ∧
      ((first = .gone ∧ h' = h.endConnection name c) ∨
        ∃ s, first = .text s ∧
          ((∃ r, Request.parse s = .error r ∧ h' = h.putConnection name
              { c with inbox := rest, outbox := c.outbox ++ [Frame.ofError (.json r)] }) ∨
            ∃ request, Request.parse s = .ok request ∧
              h' = (({ h with journal := h.leaveFor name c request } : Hub).serve
                { c with inbox := rest } request).close name)) := by
  unfold serveNext at hserve
  cases hc : h.connections.get? name with
  | none => simp [hc] at hserve
  | some c =>
      cases ha : c.alive with
      | false => simp [hc, ha] at hserve
      | true =>
          rw [hc] at hserve
          dsimp only at hserve
          rw [if_neg (by simp [ha])] at hserve
          cases hinbox : c.inbox with
          | nil => simp [hinbox] at hserve
          | cons first rest =>
              refine ⟨c, first, rest, rfl, ha, hinbox, ?_⟩
              rw [hinbox] at hserve
              cases first with
              | gone => exact .inl ⟨rfl, (Option.some.inj hserve).symm⟩
              | text s =>
                  refine .inr ⟨s, rfl, ?_⟩
                  cases hparse : Request.parse s with
                  | error r =>
                      simp only [hparse, pushes, Bool.false_eq_true, if_false, Bool.not_true,
                        Option.some.injEq] at hserve
                      exact .inl ⟨r, rfl, hserve.symm⟩
                  | ok request =>
                      refine .inr ⟨request, rfl, ?_⟩
                      simp only [hparse] at hserve
                      have hleave := acquire_leaveFor h name c request
                      generalize (if pushes c (.ok request) then h.acquire (.connection name)
                        else (true, h)) = leave at hserve hleave
                      rw [hleave] at hserve
                      cases hgranted : leave.1 with
                      | false => simp [hgranted] at hserve
                      | true =>
                          rw [if_neg (by simp [hgranted])] at hserve
                          cases hserved : ({ h with journal := h.leaveFor name c request } :
                              Hub).serve { c with inbox := rest } request
                          all_goals
                            rw [hserved] at hserve
                            exact (Option.some.inj hserve).symm

/-- What is done when a request is served. -/
theorem served?_of_text {name : Label} {c : Connection} {s : String} {rest : List Inbound}
    {request : Request} (hc : h.connections.get? name = some c) (hinbox : c.inbox = .text s :: rest)
    (hparse : Request.parse s = .ok request) :
    h.served? name = some ((({ h with journal := h.leaveFor name c request } : Hub).serve
      { c with inbox := rest } request).deed name request) := by
  have hleave : (if pushes c (.ok request) then (h.acquire (.connection name)).2 else h) =
      { h with journal := h.leaveFor name c request } := by
    unfold leaveFor
    split <;> rfl
  simp only [served?, hc, hinbox, hparse, hleave]
  cases ({ h with journal := h.leaveFor name c request } : Hub).serve { c with inbox := rest }
    request <;> rfl

theorem serving_of_serveNext {name : Label} (hserve : h.serveNext name = some h') :
    ∃ c, h.connections.get? name = some c ∧ c.alive = true ∧ Serving h name c h' := by
  have hdeeds : h.deeds (.serve name) = (h.served? name).toList := by
    simp [deeds, hserve]
  obtain ⟨c, first, rest, hc, ha, hinbox, ⟨rfl, heq⟩ | ⟨s, rfl, ⟨r, hparse, heq⟩ |
    ⟨request, hparse, heq⟩⟩⟩ := serveNext_cases hserve
  · exact ⟨c, hc, ha, .gone hinbox heq (by simp [hdeeds, served?, hc, hinbox])⟩
  · exact ⟨c, hc, ha, .unreadable hinbox heq (by simp [hdeeds, served?, hc, hinbox, hparse])⟩
  · refine ⟨c, hc, ha, ?_⟩
    rw [served?_of_text hc hinbox hparse] at hdeeds
    rcases hserved : ({ h with journal := h.leaveFor name c request } : Hub).serve
      { c with inbox := rest } request with ⟨f, c', g⟩ | ⟨c', g⟩
    · rw [hserved] at heq hdeeds
      exact .answered hinbox hserved heq hdeeds
    · rw [hserved] at heq hdeeds
      exact .ended hinbox hserved heq hdeeds

theorem untold_of_plain {f : Frame} (hf : f.isPlain = true) (name : Label) (request : Request)
    (vs : Visitors) : vs.after (.answered name request f) = vs ∧
      ∀ n, (Deed.answered name request f).heardBy vs n = [] := by
  have hline : (Deed.answered name request f).line? vs = none := by
    cases f <;> first | (cases request <;> rfl) | simp [Frame.isPlain] at hf
  have hgone : (Deed.answered name request f).deleted? = none := by
    cases f <;> first | rfl | simp [Frame.isPlain] at hf
  have htold : ∀ v : Visitor, v.told f = v := by
    intro v
    cases f <;> first | rfl | simp [Frame.isPlain] at hf
  refine ⟨funext fun n => ?_, heardBy_of_silent hline hgone⟩
  rw [after_answered hgone, htold, ite_self]

/-- The subscription that an answer tells of. -/
def openedBy (h : Hub) (name : Label) : Frame → List Subscription
  | .joined _ => (h.stream? name).toList.map (⟨some name, ·⟩)
  | _ => []

/-- A connection is sent an answer. -/
def answer (h : Hub) (name : Label) (c : Connection) (f : Frame) : Hub :=
  h.putConnection name { c with outbox := c.outbox ++ [f] }

theorem presence?_answer (h : Hub) (name : Label) (c : Connection) (f : Frame) (n : Label) :
    (h.answer name c f).presence? n = if n = name then some c.presence else h.presence? n :=
  presence?_put h name _ n

theorem shown_answer {g : Hub} {name : Label} {c c' : Connection} {f : Frame}
    (hc : h.connections.get? name = some c) (hg : ∀ n, g.shown n = h.shown n)
    (hout : c'.outbox = c.outbox) (hf : f.isStream = false) (n : Label) :
    (g.answer name c' f).shown n = h.shown n := by
  rw [answer, shown_put]
  split
  case isTrue hn =>
    simp [hn, shown, hc, hout, hf]
  case isFalse => exact hg n

/-- A connection that is answered and otherwise remains as it was. -/
theorem undisturbed_answer {g : Hub} {name : Label} {c c' : Connection} {f : Frame}
    (hc : h.connections.get? name = some c) (hg : Undisturbed h g)
    (hp : c'.presence = c.presence) (hout : c'.outbox = c.outbox) (hf : f.isStream = false) :
    Undisturbed h (g.answer name c' f) := by
  refine ⟨fun n => ?_, shown_answer hc hg.shown hout hf, hg.handles⟩
  rw [presence?_answer]
  split
  case isTrue hn =>
    rw [hn, hp, presence?, hc]
    rfl
  case isFalse => exact hg.presence n

theorem change_plain {g : Hub} {name : Label} {c c' : Connection} {f : Frame} {request : Request}
    (hc : h.connections.get? name = some c) (hr : h.registry.Spared h.Handled g.registry)
    (hg : Undisturbed h g) (hp : c'.presence = c.presence) (hout : c'.outbox = c.outbox)
    (hf : f.isPlain = true) :
    Change h vs [.answered name request f] ((g.answer name c' f).openedBy name f)
      (g.answer name c' f) := by
  have hstream : f.isStream = false := by
    cases f <;> first | rfl | simp [Frame.isPlain] at hf
  have hopened : (g.answer name c' f).openedBy name f = [] := by
    cases f <;> first | rfl | simp [Frame.isPlain] at hf
  obtain ⟨hsame, hsilent⟩ := untold_of_plain hf name request vs
  rw [hopened]
  exact .still hr (undisturbed_answer hc hg hp hout hstream) hsame fun n => by
    simp [Visitors.heard, hsilent n]

/-- A connection is answered that looked something up or wrote something down. -/
theorem change_journal {name : Label} {c : Connection} {rest : List Inbound} {f : Frame}
    {request : Request} {g : Hub} (hk : h.Kept vs subs) (hc : h.connections.get? name = some c)
    (hg : ∃ journal, g = { h with journal }) (hf : f.isPlain = true) :
    Change h vs [.answered name request f]
      ((g.answer name { c with inbox := rest } f).openedBy name f)
      (g.answer name { c with inbox := rest } f) := by
  obtain ⟨journal, rfl⟩ := hg
  exact change_plain hc (Registry.Spared.refl hk.proper) (undisturbed_of_eq rfl rfl rfl rfl) rfl rfl
    hf

/-- Whatever comes of reading the log. -/
theorem logReply_satisfies {α : Type} {p : Frame → Bool} (r : Except LogError α) {f : α → Frame}
    (hf : ∀ a, p (f a) = true) (he : ∀ e, p (Frame.ofError (.log e)) = true) :
    p (logReply r f) = true := by
  cases r with
  | ok a => exact hf a
  | error e => exact he e

/-- Reading the log changes the log at most. -/
theorem history_eq (h : Hub) (room : RoomId) :
    ∃ journal, (h.history room).2 = { h with journal } := by
  obtain ⟨store, heq, -⟩ := history_look h room
  exact ⟨_, heq⟩

theorem getDirect_eq (h : Hub) (sender receiver : UserId) :
    ∃ journal, (h.getDirect sender receiver).2 = { h with journal } :=
  react_logSide (e := .getDirect sender receiver) rfl

theorem deleteDirect_eq (h : Hub) (sender receiver : UserId) :
    ∃ journal, (h.deleteDirect sender receiver).2 = { h with journal } :=
  react_logSide (e := .deleteDirect sender receiver) rfl

theorem direct_journal {sender receiver : UserId} {text : String} {r : CallResult}
    {g : Hub} (hdirect : h.direct sender receiver text = (r, g)) :
    ∃ journal, g = { h with journal } :=
  ⟨_, (congrArg Prod.snd hdirect).symm⟩

/-- What a connection does that gives up its listener. -/
theorem endStream_eq (h : Hub) (c : Connection) :
    h.endStream c =
      ({ c with stream := none }, { h with registry := h.registry.release c.stream }) := by
  obtain ⟨session, stream, inbox, outbox, alive⟩ := c
  cases stream <;> rfl

/-- A connection that leaves its room. -/
theorem change_leave (hk : h.Kept vs subs) {name : Label} {c : Connection} {rest : List Inbound}
    (hc : h.connections.get? name = some c) (ha : c.alive = true) (journal : Journal Task)
    (room : String) :
    Change h vs [.answered name .leave (.left room)] []
      (({ h with registry := h.registry.release c.stream, journal } : Hub).answer name
        { c with session := { c.session with joined := none }, stream := none, inbox := rest }
        (.left room)) := by
  have hstream : h.stream? name = c.stream := by simp [stream?, hc]
  have hsession : c.session = (vs name).session :=
    hk.faithful name c.presence (by simp [presence?, hc]) ha
  refine .quit (quits_put (v := { vs name with room := none, hears := none })
    (fun _ _ => rfl) (fun _ _ => rfl) (fun _ hl => hl) rfl
    (.inl (by simp [shown, hc, Frame.isStream])) (fun n => ?_) rfl (fun _ => ?_) rfl rfl)
    (by rw [hstream]; rfl)
  · rw [after_answered rfl]
    split
    case isTrue hn =>
      rw [hn]
      rfl
    case isFalse => rfl
  · simp only [hsession]
    rfl

/-- A connection that says something in the room that it has joined. -/
theorem change_chat (hk : h.Kept vs subs) {name : Label} {c : Connection} {rest : List Inbound}
    (hc : h.connections.get? name = some c) (ha : c.alive = true) {user : UserId} {room : RoomId}
    (huser : c.session.user = some user) (journal : Journal Task) (text : String) :
    Change h vs [.answered name (.chat text) (.sent room.text)] []
      ((({ h with journal } : Hub).submit user room text).answer name { c with inbox := rest }
        (.sent room.text)) := by
  have hsession : c.session = (vs name).session :=
    hk.faithful name c.presence (by simp [presence?, hc]) ha
  have hknown : (vs name).user = some user := by
    rw [hsession] at huser
    exact huser
  refine .said rfl (undisturbed_answer hc (undisturbed_of_eq rfl rfl rfl rfl) rfl rfl rfl) ?_ ?_ rfl
  · funext n
    rw [after_answered rfl]
    exact ite_self _
  · simp only [Deed.line?, hknown, Option.map_some]
    rfl

/-- A connection that deletes a room. -/
theorem change_delete {name : Label} {c : Connection} {rest : List Inbound}
    (hc : h.connections.get? name = some c) (journal : Journal Task) (room : String) :
    Change h vs [.answered name (.deleteRoom room) (.roomDeleted room)] []
      ((({ h with journal } : Hub).delete ⟨room⟩).answer name { c with inbox := rest }
        (.roomDeleted room)) := by
  have hdelete : ∃ j : Journal Task, ({ h with journal } : Hub).delete ⟨room⟩ =
      { h with registry := (h.registry.delete ⟨room⟩).2, journal := j } := by
    simp only [delete]
    split
    · exact ⟨_, rfl⟩
    · exact ⟨journal, rfl⟩
  obtain ⟨j, heq⟩ := hdelete
  rw [heq]
  refine .deleted rfl (undisturbed_answer hc (undisturbed_of_eq rfl rfl rfl rfl) rfl rfl rfl) ?_ rfl
    rfl
  funext n
  exact ite_self _

/-- A connection that joins a room, giving up the one that it had joined. -/
theorem change_join (hk : h.Kept vs subs) {name : Label} {c : Connection} {rest : List Inbound}
    (hc : h.connections.get? name = some c) (ha : c.alive = true) (journal : Journal Task)
    {room : String} {l : Listener} {g : Hub}
    (hopen : ({ h with registry := h.registry.release c.stream, journal } : Hub).openListener
      ⟨room⟩ = (some l, g))
    (hafter : h' = g.answer name
      { c with session := { c.session with joined := some ⟨room⟩ }, stream := some l,
               inbox := rest }
      (.joined room)) :
    Change h vs [.answered name (.join room) (.joined room)] (h'.openedBy name (.joined room))
      h' := by
  have hold : h.presence? name = some c.presence := by simp [presence?, hc]
  have hstream : h.stream? name = c.stream := by simp [stream?, hc]
  obtain ⟨hspared, -⟩ := spared_release hk.proper c.stream
  obtain ⟨hlistener, -⟩ := Registry.openListener_spec hspared.proper ⟨room⟩
  have hnext : (h.registry.release c.stream).next = h.registry.next := next_release _ _
  have hcan := canOpen_release h.registry c.stream
  simp only [openListener] at hopen
  split at hopen
  · simp at hopen
  · split at hopen
    case isTrue hopens =>
      obtain ⟨hl, rfl⟩ := Prod.mk.inj hopen
      obtain rfl := (Option.some.inj hl).symm.trans (hlistener.trans (by rw [hnext]))
      subst hafter
      have hpresence := presence?_answer ({ h with
        registry := ((h.registry.release c.stream).openListener ⟨room⟩).2, journal } : Hub) name
        { c with
          session := { c.session with joined := some ⟨room⟩ }
          stream := some ⟨⟨h.registry.next⟩, ⟨room⟩⟩
          inbox := rest } (.joined room)
      rw [openedBy, stream?_eq, hpresence, if_pos rfl]
      refine .joined (hcan ▸ hopens) hold ha (by rw [hstream]; rfl) (fun n => ?_) (fun n => ?_)
        fun _ hl => hl
      · rw [hpresence, ha]
        rfl
      · apply shown_answer hc
        · exact fun _ => rfl
        · rfl
        · rfl
    case isFalse => simp at hopen

/-- Every request that is answered. -/
theorem change_answered (hk : h.Kept vs subs) {name : Label} {c c' : Connection}
    {rest : List Inbound} {request : Request} {f : Frame} {journal : Journal Task} {g : Hub}
    (hc : h.connections.get? name = some c) (ha : c.alive = true)
    (hserved : ({ h with journal } : Hub).serve { c with inbox := rest } request = .reply f c' g) :
    Change h vs [.answered name request f] ((g.answer name c' f).openedBy name f)
      (g.answer name c' f) := by
  have hold : h.presence? name = some c.presence := by simp [presence?, hc]
  cases request with
  | identify user =>
      simp only [serve, Served.reply.injEq] at hserved
      obtain ⟨rfl, rfl, rfl⟩ := hserved
      refine .identified hold ha rfl (fun n => presence?_answer _ name _ _ n) (fun n => ?_)
        fun _ hl => hl
      apply shown_answer hc
      · exact fun _ => rfl
      · rfl
      · rfl
  | createRoom room =>
      simp only [serve, command] at hserved
      split at hserved
      · simp only [Served.reply.injEq] at hserved
        obtain ⟨rfl, rfl, rfl⟩ := hserved
        exact change_plain hc (Registry.spared_create hk.proper _)
          (undisturbed_of_eq rfl rfl rfl rfl) rfl rfl rfl
      · simp at hserved
  | join room =>
      simp only [serve, endStream_eq] at hserved
      rcases hopen :
        ({ h with registry := h.registry.release c.stream, journal } : Hub).openListener ⟨room⟩
        with ⟨_ | l, g'⟩ <;> simp only [hopen] at hserved
      · cases hserved
      · simp only [Served.reply.injEq] at hserved
        obtain ⟨rfl, rfl, rfl⟩ := hserved
        exact change_join hk hc ha journal hopen rfl
  | leave =>
      simp only [serve, endStream_eq] at hserved
      split at hserved
      · simp only [Served.reply.injEq] at hserved
        obtain ⟨rfl, rfl, rfl⟩ := hserved
        exact change_journal hk hc ⟨journal, rfl⟩ rfl
      · simp only [Served.reply.injEq] at hserved
        obtain ⟨rfl, rfl, rfl⟩ := hserved
        exact change_leave hk hc ha journal _
  | chat text =>
      simp only [serve, command] at hserved
      cases huser : c.session.user with
      | none =>
          simp only [huser, Served.reply.injEq] at hserved
          obtain ⟨rfl, rfl, rfl⟩ := hserved
          exact change_journal hk hc ⟨journal, rfl⟩ rfl
      | some user =>
          cases hroom : c.session.joined with
          | none =>
              simp only [huser, hroom, Served.reply.injEq] at hserved
              obtain ⟨rfl, rfl, rfl⟩ := hserved
              exact change_journal hk hc ⟨journal, rfl⟩ rfl
          | some room =>
              simp only [huser, hroom] at hserved
              split at hserved
              · simp only [Served.reply.injEq] at hserved
                obtain ⟨rfl, rfl, rfl⟩ := hserved
                exact change_chat hk hc ha huser journal text
              · cases hserved
  | deleteRoom room =>
      simp only [serve, command] at hserved
      split at hserved
      · simp only [Served.reply.injEq] at hserved
        obtain ⟨rfl, rfl, rfl⟩ := hserved
        exact change_delete hc journal room
      · simp at hserved
  | history room =>
      simp only [serve, Served.reply.injEq] at hserved
      obtain ⟨rfl, rfl, rfl⟩ := hserved
      obtain ⟨j, heq⟩ := history_eq { h with journal } ⟨room⟩
      exact change_journal hk hc ⟨j, heq⟩ (logReply_satisfies _ (fun _ => rfl) fun _ => rfl)
  | direct receiver text =>
      simp only [serve] at hserved
      cases huser : c.session.user with
      | none =>
          simp only [huser, Served.reply.injEq] at hserved
          obtain ⟨rfl, rfl, rfl⟩ := hserved
          exact change_journal hk hc ⟨journal, rfl⟩ rfl
      | some user =>
          simp only [huser] at hserved
          rcases hdirect : ({ h with journal } : Hub).direct user ⟨receiver⟩ text with
            ⟨_ | reason | _, g'⟩ <;> simp only [hdirect] at hserved
          · simp only [Served.reply.injEq] at hserved
            obtain ⟨rfl, rfl, rfl⟩ := hserved
            obtain ⟨j, rfl⟩ := direct_journal hdirect
            exact change_journal hk hc ⟨j, rfl⟩ rfl
          · simp only [Served.reply.injEq] at hserved
            obtain ⟨rfl, rfl, rfl⟩ := hserved
            obtain ⟨j, rfl⟩ := direct_journal hdirect
            exact change_journal hk hc ⟨j, rfl⟩ rfl
          · cases hserved
  | fetchDirect sender receiver =>
      simp only [serve, Served.reply.injEq] at hserved
      obtain ⟨rfl, rfl, rfl⟩ := hserved
      obtain ⟨j, heq⟩ := getDirect_eq { h with journal } ⟨sender⟩ ⟨receiver⟩
      exact change_journal hk hc ⟨j, heq⟩ (logReply_satisfies _ (fun _ => rfl) fun _ => rfl)
  | deleteDirect sender receiver =>
      simp only [serve, Served.reply.injEq] at hserved
      obtain ⟨rfl, rfl, rfl⟩ := hserved
      obtain ⟨j, heq⟩ := deleteDirect_eq { h with journal } ⟨sender⟩ ⟨receiver⟩
      exact change_journal hk hc ⟨j, heq⟩ (logReply_satisfies _ (fun _ => rfl) fun _ => rfl)

/-- A connection that ends, and what it has done to the rooms before. -/
theorem quits_endConnection (vs : Visitors) {g : Hub} {name : Label} {c : Connection}
    (c' : Connection) (hc : h.connections.get? name = some c) (hg : Undisturbed h g)
    (hout : c'.outbox = c.outbox) :
    ∃ p, Quits h vs name (.departed name) p (g.endConnection name c') := by
  rw [endConnection_eq]
  refine ⟨_, quits_put (v := .stranger) (fun n _ => hg.presence n) (fun n _ => hg.shown n)
    hg.handles rfl (.inl ?_) (fun _ => rfl) rfl (fun ha => by simp at ha) rfl rfl⟩
  simp [shown, hc, hout]

/-- A connection that cannot join a room ends. -/
theorem change_join_failed (hk : h.Kept vs subs) {name : Label} {c : Connection}
    {rest : List Inbound} {journal : Journal Task} {room : RoomId} {g : Hub}
    (hc : h.connections.get? name = some c)
    (hopen : ({ h with registry := h.registry.release c.stream, journal } : Hub).openListener
      room = (none, g)) :
    Change h vs [.departed name] []
      (g.endConnection name { c with stream := none, inbox := rest, closed := true }) := by
  have hstream : h.stream? name = c.stream := by simp [stream?, hc]
  simp only [openListener] at hopen
  split at hopen
  · obtain ⟨-, rfl⟩ := Prod.mk.inj hopen
    have hg : Undisturbed h { h with registry := h.registry.release c.stream, journal } :=
      undisturbed_of_eq rfl rfl rfl rfl
    obtain ⟨p, hquits⟩ := quits_endConnection vs
      { c with stream := none, inbox := rest, closed := true } hc hg rfl
    exact .quit hquits (by rw [endConnection_eq, hstream]; rfl)
  · split at hopen
    case isTrue => simp at hopen
    case isFalse hcan =>
      -- where no listener can be opened the connection has none, and all rooms are closed
      have hcannot : h.registry.canOpen = false := by
        rw [canOpen_release] at hcan
        simpa using hcan
      have hnone : c.stream = none := hstream.symm.trans (hk.stream_eq_none (.inl hcannot) name)
      obtain ⟨-, rfl⟩ := Prod.mk.inj hopen
      have hg : Undisturbed h
          ({ h with registry := h.registry.release c.stream, journal } : Hub).dismiss :=
        undisturbed_of_eq rfl rfl rfl rfl
      obtain ⟨p, hquits⟩ := quits_endConnection vs
        { c with stream := none, inbox := rest, closed := true } hc hg rfl
      exact .barred hquits hcannot (by rw [endConnection_eq, hnone]; rfl)

/-- Every request with which a connection ends. -/
theorem change_ended (hk : h.Kept vs subs) {name : Label} {c c' : Connection}
    {rest : List Inbound} {request : Request} {journal : Journal Task} {g : Hub}
    (hc : h.connections.get? name = some c)
    (hserved : ({ h with journal } : Hub).serve { c with inbox := rest } request = .ended c' g) :
    Change h vs [.departed name] [] (g.endConnection name { c' with closed := true }) := by
  have hstream : h.stream? name = c.stream := by simp [stream?, hc]
  have hquit : ∀ {j : Journal Task}, Change h vs [.departed name] []
      (({ h with journal := j } : Hub).endConnection name
        { c with inbox := rest, closed := true }) := by
    intro j
    have hg : Undisturbed h { h with journal := j } := undisturbed_of_eq rfl rfl rfl rfl
    obtain ⟨p, hquits⟩ := quits_endConnection vs { c with inbox := rest, closed := true } hc hg rfl
    exact .quit hquits (by rw [endConnection_eq, hstream]; rfl)
  cases request with
  | createRoom room | deleteRoom room =>
      simp only [serve, command] at hserved
      split at hserved
      · simp at hserved
      · simp only [Served.ended.injEq] at hserved
        obtain ⟨rfl, rfl⟩ := hserved
        exact hquit
  | chat text =>
      simp only [serve, command] at hserved
      split at hserved
      · simp at hserved
      · simp at hserved
      · split at hserved
        · simp at hserved
        · simp only [Served.ended.injEq] at hserved
          obtain ⟨rfl, rfl⟩ := hserved
          exact hquit
  | join room =>
      simp only [serve, endStream_eq] at hserved
      rcases hopen :
        ({ h with registry := h.registry.release c.stream, journal } : Hub).openListener ⟨room⟩
        with ⟨_ | l, g'⟩ <;> simp only [hopen] at hserved
      · simp only [Served.ended.injEq] at hserved
        obtain ⟨rfl, rfl⟩ := hserved
        exact change_join_failed (c := c) hk hc hopen
      · cases hserved
  | direct receiver text =>
      simp only [serve] at hserved
      cases huser : c.session.user with
      | none => simp only [huser, reduceCtorEq] at hserved
      | some user =>
          simp only [huser] at hserved
          rcases hdirect : ({ h with journal } : Hub).direct user ⟨receiver⟩ text with
            ⟨_ | reason | _, g'⟩ <;> simp only [hdirect] at hserved
          · cases hserved
          · cases hserved
          · simp only [Served.ended.injEq] at hserved
            obtain ⟨rfl, rfl⟩ := hserved
            obtain ⟨j, rfl⟩ := direct_journal hdirect
            exact hquit
  | leave =>
      simp only [serve] at hserved
      split at hserved <;> simp at hserved
  | identify user | history room | fetchDirect sender receiver | deleteDirect sender receiver =>
      simp [serve] at hserved

/-- A connection serves the first thing in its inbox. -/
theorem change_serve (hk : h.Kept vs subs) (name : Label) :
    Change h vs (h.deeds (.serve name)) (h.opens (.serve name)) (h.piece (.serve name)) := by
  cases hserve : h.serveNext name with
  | none =>
      have hdeeds : h.deeds (.serve name) = [] := by simp [deeds, hserve]
      rw [opens, hdeeds, piece, hserve]
      exact change_of_journal hk h.journal
  | some after =>
      have hpiece : h.piece (.serve name) = after := by simp [piece, hserve]
      obtain ⟨c, hc, ha, hserving⟩ := serving_of_serveNext hserve
      rw [opens, hpiece]
      cases hserving with
      | gone inbox eq deeds =>
          have hg : Undisturbed h h := undisturbed_of_eq rfl rfl rfl rfl
          obtain ⟨p, hquits⟩ := quits_endConnection vs c hc hg rfl
          rw [deeds, eq]
          exact .quit hquits (by rw [endConnection_eq]; simp [stream?, hc, putConnection])
      | unreadable inbox eq deeds =>
          rw [deeds, eq]
          refine change_quiet (Registry.Spared.refl hk.proper) ?_
          exact undisturbed_put hc rfl (by simp [Frame.isStream, Frame.ofError])
      | @answered _ _ _ f c' g inbox served eq deeds =>
          have hanswered := change_answered hk hc ha served
          rw [deeds]
          rw [← eq.trans (by rfl : _ = g.answer name c' f)] at hanswered
          cases f <;> exact hanswered
      | ended inbox served eq deeds =>
          rw [deeds, eq]
          exact change_ended hk hc served

end Hub

end ChatServer
