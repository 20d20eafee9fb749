import ChatServer.Proofs.Connection.Conversation

/-!
Every client that can come is answered in turn. What it is told has been done is done, and when the
background work is done none of its texts waits to be answered.
-/

namespace ChatServer.Hub

variable {h : Hub} {name : Label} {s : Session} {waiting : List String} {p : Piece}

/-! ### What is done to be able to answer so -/

/-- What a text comes to besides its answer. A chat goes under the client's name to the room that it
has joined, and a direct message under its name to the receiver, if it is known well enough; and
what is said to have been sent directly is in the log. -/
structure Heeded (name : Label) (x : Exchange) : Prop where
  chat {text : String} : Request.parse x.text = .ok (.chat text) →
    (x.stage.piece (.serve name)).registry = (x.stage.afterChat x.session text).registry ∧
      (x.stage.piece (.serve name)).journal = (x.stage.afterChat x.session text).journal
  direct {receiver text : String} : Request.parse x.text = .ok (.direct receiver text) →
    (x.stage.piece (.serve name)).registry = x.stage.registry ∧
      (x.stage.piece (.serve name)).journal =
        (x.stage.afterDirect x.session receiver text).journal
  stored {user : UserId} {receiver text : String} :
    Request.parse x.text = .ok (.direct receiver text) → x.session.user = some user →
    x.reply = .directSent receiver → 0 < x.stage.tuning.ttl →
    (x.stage.piece (.serve name)).filed (directKey user ⟨receiver⟩) =
      x.stage.filed (directKey user ⟨receiver⟩) ++ [DirectRecord.new user ⟨receiver⟩ text]

/-- The server after a request is served. -/
theorem Answering.hub_serve {text : String} {rest : List Inbound} {request : Request}
    (ha : h.Answering name s text rest) (hparse : Request.parse text = .ok request) :
    ∃ c : Connection, c.session = s ∧ ∃ c' : Connection,
      h.piece (.serve name) = (h.serve c request).hub.putConnection name c' := by
  cases ha with
  | unreadable parsed => exact absurd (parsed.symm.trans hparse) (by simp)
  | answered parsed found alive session served next eq =>
      obtain rfl := Except.ok.inj (parsed.symm.trans hparse)
      refine ⟨_, ?_, _, by rw [piece, eq, served]; rfl⟩
      exact session

theorem Talks.heeded {text : String} {rest : List String} (ht : h.Talks name s (text :: rest))
    (hclock : h.journal.now + h.tuning.ttl < Time.limit) : Heeded name ⟨s, text, h⟩ := by
  have hanswering := ht.answering hclock
  have hchat : ∀ {t : String}, Request.parse text = .ok (.chat t) → ∃ c' : Connection,
      h.piece (.serve name) = (h.afterChat s t).putConnection name c' := fun hparse => by
    obtain ⟨c, rfl, c', heq⟩ := hanswering.hub_serve hparse
    exact ⟨c', by rw [heq, hub_serve_chat ht.managed]⟩
  have hdirect : ∀ {receiver t : String}, Request.parse text = .ok (.direct receiver t) →
      ∃ c' : Connection, h.piece (.serve name) =
        (h.afterDirect s receiver t).putConnection name c' := fun hparse => by
    obtain ⟨c, rfl, c', heq⟩ := hanswering.hub_serve hparse
    exact ⟨c', by rw [heq, hub_serve_direct]⟩
  refine ⟨fun hparse => ?_, fun {receiver t} hparse => ?_,
    fun {user receiver t} hparse huser hreply httl => ?_⟩
  · obtain ⟨c', heq⟩ := hchat hparse
    rw [heq]
    exact ⟨rfl, rfl⟩
  · obtain ⟨c', heq⟩ := hdirect hparse
    have hregistry : (h.afterDirect s receiver t).registry = h.registry := by
      unfold afterDirect
      split <;> rfl
    rw [heq]
    exact ⟨hregistry, rfl⟩
  · obtain ⟨c', heq⟩ := hdirect hparse
    have hsent : h.answerTo s (.direct receiver t) = .directSent receiver := by
      have hreply' : h.answerToText s text = .directSent receiver := hreply
      rwa [answerToText, show Request.parse text = _ from hparse] at hreply'
    rw [heq]
    exact filed_afterDirect hclock httl huser (ofWrite_of_directSent huser hsent) receiver t

/-! ### When the background work is done -/

theorem unserved_serveFor (hu : h.Ungated) {fuel : Nat}
    (hfuel : (h.unserved name).length < fuel) :
    (h.serveFor name fuel).Ungated ∧
      ∀ n, (h.serveFor name fuel).unserved n = if n = name then [] else h.unserved n := by
  induction fuel generalizing h with
  | zero => exact absurd hfuel (Nat.not_lt_zero _)
  | succ fuel ih =>
      rw [serveFor]
      cases hserve : h.serveNext name with
      | none =>
          dsimp only
          rw [waitInLine_of_ungated hu]
          refine ⟨hu, fun n => ?_⟩
          split
          case isTrue hn =>
            rw [hn, unserved_of_serveNext_eq_none hu hserve]
          case isFalse => rfl
      | some after =>
          obtain ⟨hafter, hless, hothers⟩ := unserved_serveNext hu hserve
          obtain ⟨hungated, hall⟩ := ih hafter (by omega)
          refine ⟨hungated, fun n => ?_⟩
          rw [hall n]
          split
          · rfl
          · exact hothers n ‹_›

theorem unserved_serveAll (hu : h.Ungated) (name : Label) :
    (h.serveAll name).Ungated ∧
      ∀ n, (h.serveAll name).unserved n = if n = name then [] else h.unserved n := by
  refine unserved_serveFor hu ?_
  unfold unserved
  cases h.connections.get? name with
  | none => exact Nat.succ_pos _
  | some c =>
      rw [Option.map_some, Option.map_some, Option.getD_some, Option.getD_some]
      split <;> simp

/-- A client whose inbox is served has nothing in it when all are served. -/
theorem unserved_foldl_serveAll (hu : h.Ungated) {names : List Label}
    (hname : name ∈ names ∨ h.unserved name = []) :
    (names.foldl serveAll h).Ungated ∧ (names.foldl serveAll h).unserved name = [] := by
  induction names generalizing h with
  | nil => exact ⟨hu, hname.resolve_left List.not_mem_nil⟩
  | cons n names ih =>
      obtain ⟨hone, hunserved⟩ := unserved_serveAll hu n
      refine ih hone ?_
      by_cases hn : name = n
      · exact .inr (by rw [hunserved, if_pos hn])
      · refine hname.imp (fun hmem => (List.mem_cons.1 hmem).resolve_left hn) fun hnone => ?_
        rw [hunserved, if_neg hn, hnone]

theorem unserved_settle (hu : h.Ungated) (name : Label) : h.settle.unserved name = [] := by
  have hpass : ∀ {g : Hub} {ps : List Piece}, g.Ungated →
      (∀ p ∈ ps, (∀ e, p ≠ .react e) ∧ ∀ n, p ≠ .serve n) →
      (g.pieces ps).unserved name = g.unserved name := by
    intro g ps hg hps
    induction ps generalizing g with
    | nil => rfl
    | cons p ps ih =>
        obtain ⟨hreact, hserve⟩ := hps p List.mem_cons_self
        obtain ⟨hgated, hsame⟩ := unserved_piece hg hreact hserve
        rw [pieces_cons, ih hgated fun p' hp' => hps p' (List.mem_cons_of_mem p hp'), hsame]
  have hserved : name ∈ h.connections.keys ∨ h.unserved name = [] := by
    cases hc : h.connections.get? name with
    | none => exact .inr (by simp [unserved, hc])
    | some c => exact .inl (Table.mem_keys.2 ⟨c, hc⟩)
  obtain ⟨hungated, hnone⟩ := unserved_foldl_serveAll hu hserved
  rw [← pieces_settleScript, settleScript_of_ungated hu, pieces_append, pieces_inboxesScript,
    hpass hungated, hnone]
  intro p hp
  simp only [passScript, List.mem_append, List.mem_cons, List.not_mem_nil, or_false,
    List.mem_map] at hp
  rcases hp with (⟨n, -, rfl⟩ | ⟨n, -, rfl⟩) | rfl | rfl <;> simp

/-- In the background no client comes, goes or says anything. -/
theorem quiet_of_isBackground (hp : p.isBackground = true) :
    p.parts name = false ∧ p.said name = [] := by
  cases p with
  | react e => simp [Piece.isBackground] at hp
  | _ => exact ⟨rfl, rfl⟩

/-- Background work takes no time. -/
theorem now_pieces_of_background {ps : List Piece} (hps : ∀ p ∈ ps, p.isBackground = true) :
    (h.pieces ps).journal.now = h.journal.now := by
  refine pieces_invariant (P := fun g => g.journal.now = h.journal.now)
    (fun g p hp hg => (now_piece fun d heq => ?_).trans hg) rfl
  simpa [heq, Piece.isBackground] using hps p hp

/-! ### What a client receives in moments -/

theorem gathered_append (h : Hub) (name : Label) (ps qs : List Piece) :
    h.gathered name (ps ++ qs) = h.gathered name ps ++ (h.pieces ps).gathered name qs := by
  induction ps generalizing h with
  | nil => rfl
  | cons p ps ih => rw [List.cons_append, gathered, gathered, ih, List.append_assoc, pieces_cons]

theorem gathered_eq_nil {ps : List Piece} (hps : .collect ∉ ps) : h.gathered name ps = [] := by
  induction ps generalizing h with
  | nil => rfl
  | cons p ps ih =>
      rw [List.mem_cons, not_or] at hps
      rw [gathered, ih hps.2, List.append_nil]
      cases p <;> first | rfl | exact absurd rfl hps.1

theorem collect_not_mem_work (h : Hub) (e : Event) : .collect ∉ h.work e := by
  have hsettle : .collect ∉ (h.react e).2.settleScript := fun hmem => by
    simpa [Piece.isBackground] using background_settleScript _ _ hmem
  have hconclude : .collect ∉ concludeScript (h.react e).1 e := by
    rcases concludeScript_cases (h.react e).1 e with hscript | ⟨name, hscript⟩ <;> simp [hscript]
  simp [work, hsettle, hconclude]

/-- What a client is sent in a series of moments is what it collects in their pieces. -/
theorem gathered_scripts (h : Hub) (name : Label) (ms : List Moment) :
    h.gathered name (h.scripts ms) = h.received name ms := by
  induction ms generalizing h with
  | nil => rfl
  | cons m ms ih =>
      have hmoment : h.gathered name (h.script m) = h.framesFor m name := by
        have hdated : h.gathered name (h.script m) = (h.dated m.wall).gathered name
            (if (h.dated m.wall).refuses m.event then [] else
              (h.dated m.wall).work m.event ++ [.collect]) := rfl
        rw [hdated, framesFor]
        cases hr : (h.dated m.wall).refuses m.event with
        | true =>
            rw [(step_of_refuses hr).2]
            rfl
        | false =>
            rw [if_neg Bool.false_ne_true, gathered_append,
              gathered_eq_nil (collect_not_mem_work (h.dated m.wall) m.event),
              step_eq_collect hr, framesFor_collect]
            exact List.append_nil _
      rw [scripts, gathered_append, pieces_script, hmoment, ih, received]

/-! ### The conversation -/

/-- What a client that has just come says in a series of pieces, as far as it has been served. -/
def conversation (h : Hub) (name : Label) (ps : List Piece) : List Exchange :=
  exchanges .stranger (texts name ps) (h.stages name ps)

theorem Talks.unserved (ht : h.Talks name s waiting) : h.unserved name = waiting.map .text := by
  obtain ⟨c, hc, ha, -, hinbox⟩ := ht.there
  simp [Hub.unserved, hc, ha, hinbox]

/-- A client that has just come and of whom commands are handled. -/
theorem talks_connect {vs : Visitors} {subs : List Subscription} (hk : h.Kept vs subs)
    (hu : h.Ungated) (hm : h.Manned) (hhandle : h.handle = true) (hfree : h.serves name = false)
    (id : String) :
    (h.piece (.react (.connect name id))).Talks name .stranger [] ∧
      (h.piece (.react (.connect name id))).outboxOf name = [.connected id] := by
  have hpiece : h.piece (.react (.connect name id)) =
      h.putConnection name (Connection.new id) := by
    rw [piece, react, if_neg (by simp [hfree])]
  have hthere : (h.piece (.react (.connect name id))).connections.get? name =
      some (Connection.new id) := by
    rw [hpiece, get?_putConnection]
  refine ⟨⟨⟨_, _, hk.after_piece _⟩, ungated_piece hu _, (hm.piece hk _).canOpen, ?_,
    _, hthere, rfl, rfl, rfl⟩, outboxOf_of_get? hthere⟩
  exact ((charge_react h _).managed hm.canOpen).trans (hm.managed hhandle)

/-- What has been said, as far as it has been served, is answered in turn, and the rest waits. -/
theorem Talks.conversation (ht : h.Talks name .stranger []) {ps : List Piece}
    (hps : ∀ p ∈ ps, p.parts name = false)
    (hclock : (h.pieces ps).journal.now + h.tuning.ttl < Time.limit) :
    offStream (h.sent name ps) =
        offStream (h.outboxOf name) ++ (h.conversation name ps).map Exchange.reply ∧
      (∃ rest, texts name ps = (h.conversation name ps).map Exchange.text ++ rest ∧
        (h.pieces ps).unserved name = rest.map .text) ∧
      (∀ x ∈ h.conversation name ps, Heeded name x) ∧ (h.pieces ps).serves name = true := by
  obtain ⟨done, rest, hf⟩ := ht.follows hps hclock
  have hsplit : texts name ps = done ++ rest := hf.split
  obtain ⟨hsame, htexts⟩ := exchanges_append (s := .stranger) hf.served rest
  have hconversation : h.conversation name ps = exchanges .stranger done (h.stages name ps) := by
    rw [Hub.conversation, hsplit, hsame]
  obtain ⟨s', htalks⟩ := hf.talks
  rw [hconversation]
  refine ⟨hf.replies, ⟨rest, by rw [htexts, hsplit], htalks.unserved⟩, fun x hx => ?_,
    htalks.serves⟩
  obtain ⟨behind, hthere, hhere⟩ := hf.attended x hx
  exact hthere.heeded hhere

/-- Every client that can come is answered: after the frame by which it is told that it has come,
each of its texts is answered by one frame that is of no room, in turn, whatever others do in
between and whatever fails; each answer is the one that follows from what the client has said
before, and what it says has been done is done; none waits for an answer when the background work is
done, and the connection lasts until its client goes away. -/
theorem requests_answered_in_turn (tuning : Tuning) (outages : Outages) (wall : Instant)
    (hcan : Channel.isCapacity (max tuning.subscriberBuffer 1) = true) {before after : List Piece}
    {name : Label} {id : String}
    (hhandle : ((new tuning outages false wall).pieces before).handle = true)
    (hfree : ((new tuning outages false wall).pieces before).serves name = false)
    (hafter : ∀ p ∈ after, p.parts name = false)
    (hclock : ((new tuning outages false wall).pieces
      (before ++ .react (.connect name id) :: after)).journal.now + tuning.ttl < Time.limit) :
    let h := ((new tuning outages false wall).pieces before).piece (.react (.connect name id))
    let heard := h.conversation name after
    offStream (h.sent name after) = .connected id :: heard.map Exchange.reply ∧
      heard.map Exchange.text <+: texts name after ∧
      (∀ x ∈ heard, Heeded name x) ∧
      (h.conversation name (after ++ (h.pieces after).settleScript)).map Exchange.text =
        texts name after ∧
      (h.pieces after).serves name = true := by
  intro h heard
  have hk := (kept_new tuning outages false wall).pieces before
  have hstart : (new tuning outages false wall).Ungated := rfl
  have hu := ungated_pieces hstart before
  have hm := (manned_new tuning outages false wall hcan).pieces (kept_new ..) before
  obtain ⟨htalks, hout⟩ := talks_connect hk hu hm hhandle hfree id
  have htuning : h.tuning = tuning :=
    (now_le_pieces _ [.react (.connect name id)]).2.trans (now_le_pieces _ before).2
  have hnow : (h.pieces after).journal.now + h.tuning.ttl < Time.limit := by
    rw [htuning]
    rwa [pieces_append] at hclock
  obtain ⟨hanswers, ⟨rest, htexts, -⟩, hheeded, hserves⟩ := htalks.conversation hafter hnow
  -- what waits is served when the background work is done
  have hungated : (h.pieces after).Ungated := ungated_pieces htalks.ungated after
  have hbackground := background_settleScript (h.pieces after)
  have hsettled : ∀ p ∈ after ++ (h.pieces after).settleScript, p.parts name = false :=
    List.forall_mem_append.2 ⟨hafter, fun p hp => (quiet_of_isBackground (hbackground p hp)).1⟩
  obtain ⟨-, ⟨rest', htexts', hnone⟩, -⟩ := htalks.conversation hsettled (by
    rw [pieces_append, now_pieces_of_background hbackground]
    exact hnow)
  rw [pieces_append, pieces_settleScript, unserved_settle hungated] at hnone
  have hsaid : texts name (after ++ (h.pieces after).settleScript) = texts name after := by
    have hquiet : texts name (h.pieces after).settleScript = [] :=
      List.flatMap_eq_nil_iff.2 fun p hp => (quiet_of_isBackground (hbackground p hp)).2
    rw [texts, List.flatMap_append]
    exact (congrArg (texts name after ++ ·) hquiet).trans (List.append_nil _)
  refine ⟨by rw [hanswers, hout]; rfl, ⟨rest, htexts.symm⟩, hheeded, ?_, hserves⟩
  rw [← hsaid, htexts', List.map_eq_nil_iff.1 hnone.symm, List.append_nil]

/-- A client says something that cannot be read, chats before it is known, and does better then,
while others chat, the user of the server goes away and deadlines cannot be set any more. Its last
text is not served at first. -/
def talk : List Piece :=
  [.react (.text "a" "hello"), .serve "a",
    .react (.text "a" "\x7b\"type\": \"chat\", \"text\": \"x\"\x7d"),
    .react (.text "a" "\x7b\"type\": \"identify\", \"user_id\": \"u\"\x7d"), .serve "a", .serve "a",
    .react (.text "a" "\x7b\"type\": \"join\", \"room_id\": \"r\"\x7d"), .serve "a", .collect,
    .react (.submit ⟨"v"⟩ ⟨"r"⟩ "y"), .forward "a", .react .shutdown,
    .react (.text "a" "\x7b\"type\": \"chat\", \"text\": \"x\"\x7d"), .serve "a",
    .react (.outages { Outages.none with expire := some "down" }), .forward "a",
    .react (.text "a" "\x7b\"type\": \"direct\", \"receiver_id\": \"v\", \"text\": \"z\"\x7d"),
    .serve "a", .react (.text "a" "\x7b\"type\": \"leave\"\x7d")]

theorem talk_answered :
    Channel.isCapacity (max Tuning.default.subscriberBuffer 1) = true ∧
      ((new Tuning.default Outages.none false default).pieces []).handle = true ∧
      ((new Tuning.default Outages.none false default).pieces []).serves "a" = false ∧
      (∀ p ∈ talk, p.parts "a" = false) ∧
      ((new Tuning.default Outages.none false default).pieces
        ([] ++ .react (.connect "a" "1") :: talk)).journal.now + Tuning.default.ttl < Time.limit ∧
      let h := ((new Tuning.default Outages.none false default).pieces []).piece
        (.react (.connect "a" "1"))
      offStream (h.sent "a" talk) =
          [.connected "1",
            .error .invalidMessage "Invalid message format: expected value at line 1 column 1",
            .error .notIdentified "Identify before sending", .identified "u", .joined "r",
            .sent "r", .error .storeUnavailable "Durable log unavailable: down"] ∧
        (h.conversation "a" (talk ++ (h.pieces talk).settleScript)).map Exchange.text =
          texts "a" talk ∧
        (h.pieces talk).serves "a" = true := by
  have hcan : Channel.isCapacity (max Tuning.default.subscriberBuffer 1) = true := by decide
  have hhandle : ((new Tuning.default Outages.none false default).pieces []).handle = true := rfl
  have hfree : ((new Tuning.default Outages.none false default).pieces []).serves "a" = false := rfl
  have htalk : ∀ p ∈ talk, p.parts "a" = false := by decide
  have hclock : ((new Tuning.default Outages.none false default).pieces
      ([] ++ .react (.connect "a" "1") :: talk)).journal.now + Tuning.default.ttl < Time.limit := by
    decide +kernel
  obtain ⟨hanswers, -, -, hall⟩ := @requests_answered_in_turn Tuning.default Outages.none default
    hcan [] talk "a" "1" hhandle hfree htalk hclock
  exact ⟨hcan, hhandle, hfree, htalk, hclock, hanswers.trans (by decide +kernel), hall⟩

/-- Where no channel can be as large as a listener's is to be, who joins is not answered: the
connection is closed instead. -/
theorem join_unanswered :
    let tuning := { Tuning.default with subscriberBuffer := 2 ^ 61 }
    let start := new tuning Outages.none false default
    let text := "\x7b\"type\": \"join\", \"room_id\": \"r1\"\x7d"
    (start? tuning Outages.none false default).isSome = true ∧
      start.answerToText .stranger text = .joined "r1" ∧
      start.received "a" [⟨default, .connect "a" "1"⟩, ⟨default, .text "a" text⟩] =
        [.connected "1"] ∧
      ((start.through [⟨default, .connect "a" "1"⟩]).step (.text "a" text)).2.1 =
        [("a", ⟨[], true⟩)] := by
  decide +kernel

end ChatServer.Hub
