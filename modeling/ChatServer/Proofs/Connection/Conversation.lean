import ChatServer.Proofs.Connection.Session
import ChatServer.Proofs.History.Survival

/-!
A client that sends texts and is answered, while anybody else does anything. Every text is served at
one stage of the run and answered there by one frame, in the order in which the texts have arrived,
and the answer is the one that follows from the texts before. What a connection knows of its client
and the texts that wait is carried from one piece of work to the next.
-/

namespace ChatServer

/-- A text of a client, with what was known of the client before and the server at the stage at
which the text is served. -/
structure Exchange where
  session : Session
  text : String
  stage : Hub

/-- The answer that the text is to get. -/
def Exchange.reply (x : Exchange) : Frame := x.stage.answerToText x.session x.text

/-- The exchanges of a client that sends some texts, which are served at some stages. -/
def exchanges (s : Session) : List String → List Hub → List Exchange
  | text :: texts, stage :: stages => ⟨s, text, stage⟩ :: exchanges (s.hear text) texts stages
  | _, _ => []

theorem exchanges_append {s : Session} {done : List String} {stages : List Hub}
    (hlength : stages.length = done.length) (rest : List String) :
    exchanges s (done ++ rest) stages = exchanges s done stages ∧
      (exchanges s done stages).map Exchange.text = done := by
  induction done generalizing s stages with
  | nil =>
      obtain rfl := List.length_eq_zero_iff.1 hlength
      cases rest <;> simp [exchanges]
  | cons text done ih =>
      cases stages with
      | nil => simp at hlength
      | cons stage stages =>
          obtain ⟨hmore, htexts⟩ := ih (s := s.hear text) (Nat.succ.inj hlength)
          simp [exchanges, hmore, htexts]

namespace Hub

/-! ### A run as a client sees it -/

/-- Pieces in which a client goes away. -/
def Piece.parts (name : Label) : Piece → Bool
  | .react (.disconnect n) => n = name
  | _ => false

/-- The text that arrives from a client in a piece, if one does. -/
def Piece.said (name : Label) : Piece → List String
  | .react (.text n s) => if n = name then [s] else []
  | _ => []

/-- The texts that arrive from a client in a series of pieces. -/
def texts (name : Label) (ps : List Piece) : List String := ps.flatMap (Piece.said name)

/-- The stage at which something of a client is served, if that is done in a piece of work. -/
def stagesIn (h : Hub) (name : Label) : Piece → List Hub
  | .serve n => if n = name && (h.serveNext name).isSome then [h] else []
  | _ => []

/-- The stages of a series of pieces at which something of a client is served. -/
def stages (h : Hub) (name : Label) : List Piece → List Hub
  | [] => []
  | p :: ps => h.stagesIn name p ++ (h.piece p).stages name ps

/-- What a client has been sent and has not collected. -/
def outboxOf (h : Hub) (name : Label) : List Frame :=
  ((h.connections.get? name).map Connection.outbox).getD []

/-- What a client collects in a piece of work. -/
def gatheredIn (h : Hub) (name : Label) : Piece → List Frame
  | .collect => h.outboxOf name
  | _ => []

/-- What a client collects in a series of pieces. -/
def gathered (h : Hub) (name : Label) : List Piece → List Frame
  | [] => []
  | p :: ps => h.gatheredIn name p ++ (h.piece p).gathered name ps

/-- What a client has been sent when a series of pieces is done: what it has collected, and what it
has not. -/
def sent (h : Hub) (name : Label) (ps : List Piece) : List Frame :=
  h.gathered name ps ++ (h.pieces ps).outboxOf name

/-- The frames that are of no room. -/
def offStream (fs : List Frame) : List Frame := fs.filter fun f => !f.isStream

variable {h : Hub} {name : Label} {s : Session} {waiting : List String} {p : Piece}

/-! ### One piece -/

/-- A connection that can be served whatever is asked, with what is known of its client and the
texts that wait to be served. -/
structure Talks (h : Hub) (name : Label) (s : Session) (waiting : List String) : Prop where
  kept : ∃ vs subs, h.Kept vs subs
  ungated : h.Ungated
  canOpen : h.registry.canOpen = true
  managed : h.managed = true
  there : ∃ c, h.connections.get? name = some c ∧ c.alive = true ∧ c.session = s ∧
    c.inbox = waiting.map .text

/-- What comes of a piece of work in which a connection stays. -/
theorem Talks.renew (ht : h.Talks name s waiting) (p : Piece) {s' : Session}
    {waiting' : List String}
    (hthere : ∃ c, (h.piece p).connections.get? name = some c ∧ c.alive = true ∧ c.session = s' ∧
      c.inbox = waiting'.map .text) : (h.piece p).Talks name s' waiting' := by
  obtain ⟨vs, subs, hk⟩ := ht.kept
  obtain ⟨c, hc, ha, -, -⟩ := ht.there
  exact ⟨⟨_, _, hk.after_piece p⟩, ungated_piece ht.ungated p,
    (canOpen_piece hk p).trans ht.canOpen, managed_piece ht.canOpen ht.managed hc ha p, hthere⟩

/-- What a connection comes to that serves the first text that waits. -/
inductive Answering (h : Hub) (name : Label) (s : Session) (text : String)
    (rest : List Inbound) : Prop
  | unreadable {c : Connection} {r : Json.Refusal} (parsed : Request.parse text = .error r)
      (found : h.connections.get? name = some c) (alive : c.alive = true) (session : c.session = s)
      (eq : h.serveNext name = some (h.putConnection name
        { c with inbox := rest, outbox := c.outbox ++ [Frame.ofError (.json r)] }))
  | answered {c c' : Connection} {g : Hub} {request : Request}
      (parsed : Request.parse text = .ok request) (found : h.connections.get? name = some c)
      (alive : c.alive = true) (session : c.session = s)
      (served : h.serve { c with inbox := rest } request = .reply (h.answerTo s request) c' g)
      (next : c'.session = s.next request)
      (eq : h.serveNext name = some
        (g.putConnection name { c' with outbox := c'.outbox ++ [h.answerTo s request] }))

theorem Talks.answering {text : String} {rest : List String} (ht : h.Talks name s (text :: rest))
    (hclock : h.journal.now + h.tuning.ttl < Time.limit) :
    h.Answering name s text (rest.map .text) := by
  obtain ⟨c, hc, ha, rfl, hinbox⟩ := ht.there
  cases hserve : h.serveNext name with
  | none =>
      have hnone := unserved_of_serveNext_eq_none ht.ungated hserve
      simp [unserved, hc, ha, hinbox] at hnone
  | some h' =>
      obtain ⟨c', first, rest', hc', -, hinbox', hcases⟩ := serveNext_cases hserve
      obtain rfl : c = c' := Option.some.inj (hc.symm.trans hc')
      obtain ⟨rfl, rfl⟩ := List.cons.inj (hinbox'.symm.trans hinbox)
      rcases hcases with ⟨hgone, -⟩ | ⟨t, ht', hcases⟩
      · simp at hgone
      · obtain rfl := Inbound.text.inj ht'
        rcases hcases with ⟨r, hparse, heq⟩ | ⟨request, hparse, heq⟩
        · exact .unreadable hparse hc ha rfl (heq ▸ hserve)
        · obtain ⟨c', g, hserved, hnext⟩ := serve_answered ht.managed ht.canOpen hclock
            { c with inbox := rest.map .text } request
          rw [leaveFor_of_ungated ht.ungated] at heq
          have hclose : h' = (h.serve { c with inbox := rest.map .text } request).close name := heq
          rw [hserved] at hclose
          exact .answered hparse hc ha rfl hserved hnext (hserve.trans (congrArg some hclose))

theorem get?_putConnection (h : Hub) (name : Label) (c : Connection) :
    (h.putConnection name c).connections.get? name = some c := by simp [putConnection]

theorem outboxOf_of_get? {c : Connection} (hc : h.connections.get? name = some c) :
    h.outboxOf name = c.outbox := by simp [outboxOf, hc]

/-- The first text that waits is served: it is answered, and the connection stays. -/
theorem Talks.serve {text : String} {rest : List String} (ht : h.Talks name s (text :: rest))
    (hclock : h.journal.now + h.tuning.ttl < Time.limit) :
    (h.serveNext name).isSome = true ∧ (h.piece (.serve name)).Talks name (s.hear text) rest ∧
      (h.piece (.serve name)).outboxOf name = h.outboxOf name ++ [h.answerToText s text] := by
  cases ht.answering hclock with
  | @unreadable c r parsed found alive session eq =>
      have hpiece : h.piece (.serve name) = h.putConnection name { c with
          inbox := rest.map .text, outbox := c.outbox ++ [Frame.ofError (.json r)] } := by
        rw [piece, eq]
        rfl
      have hthere := congrArg (fun g : Hub => g.connections.get? name) hpiece
      rw [get?_putConnection] at hthere
      refine ⟨by rw [eq]; rfl, ht.renew _ ⟨_, hthere, alive, ?_, rfl⟩, ?_⟩
      · simp [Session.hear, parsed, session]
      · rw [outboxOf_of_get? hthere, outboxOf_of_get? found, answerToText, parsed]
  | @answered c c' g request parsed found alive session served next eq =>
      have hpiece : h.piece (.serve name) = g.putConnection name { c' with
          outbox := c'.outbox ++ [h.answerTo s request] } := by
        rw [piece, eq]
        rfl
      have hthere := congrArg (fun g : Hub => g.connections.get? name) hpiece
      rw [get?_putConnection] at hthere
      obtain ⟨-, hinbox, houtbox, halive, -⟩ := aside_of_reply served
      refine ⟨by rw [eq]; rfl, ht.renew _ ⟨_, hthere, halive.trans alive, ?_, hinbox⟩, ?_⟩
      · simp [Session.hear, parsed, next]
      · rw [outboxOf_of_get? hthere, outboxOf_of_get? found, answerToText, parsed, houtbox]

/-- With no text waiting nothing is served. -/
theorem Talks.serveNext_eq_none (ht : h.Talks name s []) : h.serveNext name = none := by
  obtain ⟨c, hc, ha, -, hinbox⟩ := ht.there
  simp [serveNext, hc, ha, hinbox]

/-! ### Pieces in turn -/

/-- An answer is no frame of a room. -/
theorem isStream_answerToText (h : Hub) (s : Session) (text : String) :
    (h.answerToText s text).isStream = false := by
  unfold answerToText
  cases Request.parse text with
  | error r => rfl
  | ok request =>
      cases request with
      | history room | fetchDirect sender receiver | deleteDirect sender receiver =>
          exact Bool.not_eq_true' _ ▸
            logReply_satisfies (p := fun f => !f.isStream) _ (fun _ => rfl) fun _ => rfl
      | _ =>
          simp only [answerTo]
          try split
          all_goals rfl

theorem offStream_append (fs fs' : List Frame) :
    offStream (fs ++ fs') = offStream fs ++ offStream fs' := List.filter_append ..

theorem offStream_singleton {f : Frame} (hf : f.isStream = false) : offStream [f] = [f] :=
  List.filter_cons_of_pos (by simp [hf])

/-- What a piece of work is to a connection that stays: others are at work or a text arrives, or
else the first text that waits is served. -/
inductive Attends (h : Hub) (name : Label) (s : Session) (waiting : List String) (p : Piece) : Prop
  | hearing (stages : h.stagesIn name p = [])
      (sent : offStream (h.sent name [p]) = offStream (h.outboxOf name))
      (talks : (h.piece p).Talks name s (waiting ++ p.said name))
  | serving {text : String} {rest : List String} (waits : waiting = text :: rest)
      (said : p.said name = []) (stages : h.stagesIn name p = [h])
      (sent : offStream (h.sent name [p]) = offStream (h.outboxOf name) ++ [h.answerToText s text])
      (talks : (h.piece p).Talks name (s.hear text) rest)

/-- Others at work. -/
theorem Talks.attends_of_not_own (ht : h.Talks name s waiting) (hown : p.isOwn name = false) :
    h.Attends name s waiting p := by
  obtain ⟨c, hc, ha, hsession, hinbox⟩ := ht.there
  obtain ⟨c', hc', stream, fs, hfs, rfl⟩ := streams_piece hown hc ha
  have hsent : h.sent name [p] = h.outboxOf name ++ fs := by
    have hgathered : h.gathered name [p] = [] := by
      cases p with
      | collect => simp [Piece.isOwn] at hown
      | _ => rfl
    rw [sent, hgathered, pieces_cons, pieces_nil, outboxOf_of_get? hc', outboxOf_of_get? hc,
      List.nil_append]
  have hnone : offStream fs = [] := List.filter_eq_nil_iff.2 fun f hf => by simp [hfs f hf]
  have hstages : h.stagesIn name p = [] := by
    cases p with
    | serve n => simp_all [stagesIn, Piece.isOwn]
    | _ => rfl
  have hsaid : p.said name = [] := by
    cases p with
    | react e => cases e <;> simp_all [Piece.said, Piece.isOwn]
    | _ => rfl
  refine .hearing hstages (by rw [hsent, offStream_append, hnone, List.append_nil]) ?_
  rw [hsaid, List.append_nil]
  exact ht.renew p ⟨_, hc', ha, hsession, hinbox⟩

/-- A connection that is served keeps its name to itself. -/
theorem Talks.serves (ht : h.Talks name s waiting) : h.serves name = true := by
  obtain ⟨c, hc, ha, -⟩ := ht.there
  rw [Hub.serves, hc]
  exact ha

/-- Nobody else can come under its name. -/
theorem Talks.attends_connect (ht : h.Talks name s waiting) (id : String) :
    h.Attends name s waiting (.react (.connect name id)) := by
  have hpiece : h.piece (.react (.connect name id)) = h := by
    rw [piece, react, if_pos ht.serves]
  have hsaid : (Piece.react (.connect name id)).said name = [] := rfl
  refine .hearing rfl ?_ (by rwa [hpiece, hsaid, List.append_nil])
  rw [sent, pieces_cons, pieces_nil, hpiece]
  rfl

/-- A text arrives, and it waits behind those that are there. -/
theorem Talks.attends_text (ht : h.Talks name s waiting) (text : String) :
    h.Attends name s waiting (.react (.text name text)) := by
  obtain ⟨c, hc, ha, hsession, hinbox⟩ := ht.there
  have hpiece : h.piece (.react (.text name text)) =
      h.putConnection name { c with inbox := c.inbox ++ [.text text] } := by
    rw [piece, react, hc]
  have hc' := congrArg (fun g : Hub => g.connections.get? name) hpiece
  rw [get?_putConnection] at hc'
  have hsent : h.sent name [.react (.text name text)] = h.outboxOf name := by
    rw [outboxOf_of_get? hc, ← outboxOf_of_get? hc']
    rfl
  refine .hearing rfl (by rw [hsent]) (ht.renew _ ⟨_, hc', ha, hsession, ?_⟩)
  simp [Piece.said, hinbox]

theorem Talks.attends_serve (ht : h.Talks name s waiting)
    (hclock : h.journal.now + h.tuning.ttl < Time.limit) :
    h.Attends name s waiting (.serve name) := by
  cases waiting with
  | nil =>
      have hnone := ht.serveNext_eq_none
      have hsame : h.piece (.serve name) = h := by rw [piece, hnone]; rfl
      refine .hearing (by simp [stagesIn, hnone]) ?_ (by rw [hsame]; exact ht)
      rw [sent, pieces_cons, pieces_nil, hsame]
      rfl
  | cons text rest =>
      obtain ⟨hserved, htalks, hout⟩ := ht.serve hclock
      have hsent : h.sent name [.serve name] = h.outboxOf name ++ [h.answerToText s text] := hout
      refine .serving rfl rfl (by simp [stagesIn, hserved]) ?_ htalks
      rw [hsent, offStream_append, offStream_singleton (isStream_answerToText h s text)]

theorem Talks.attends (ht : h.Talks name s waiting) (hp : p.parts name = false)
    (hclock : h.journal.now + h.tuning.ttl < Time.limit) : h.Attends name s waiting p := by
  cases hown : p.isOwn name with
  | false => exact ht.attends_of_not_own hown
  | true =>
      cases p with
      | serve n =>
          obtain rfl : n = name := of_decide_eq_true hown
          exact ht.attends_serve hclock
      | react e =>
          cases e with
          | text n text =>
              obtain rfl : n = name := of_decide_eq_true hown
              exact ht.attends_text text
          | connect n id =>
              obtain rfl : n = name := of_decide_eq_true hown
              exact ht.attends_connect id
          | disconnect n => exact absurd (hp.symm.trans hown) (by simp)
          | _ => simp [Piece.isOwn] at hown
      | collect =>
          obtain ⟨c, hc, ha, hsession, hinbox⟩ := ht.there
          have hc' : (h.piece .collect).connections.get? name = some c.emptied := by
            rw [piece, get?_collect, hc]
            rfl
          have hempty : (h.piece .collect).outboxOf name = [] := outboxOf_of_get? hc'
          have hsent : h.sent name [.collect] = h.outboxOf name := by
            rw [sent, pieces_cons, pieces_nil, hempty, List.append_nil]
            exact List.append_nil _
          refine .hearing rfl (by rw [hsent]) ?_
          rw [show Piece.collect.said name = [] from rfl, List.append_nil]
          exact ht.renew _ ⟨_, hc', ha, hsession, hinbox⟩
      | _ => simp [Piece.isOwn] at hown

/-! ### The run -/

/-- What a series of pieces is to a connection that stays: some of its texts have been served, and
the rest waits. -/
structure Follows (h : Hub) (name : Label) (s : Session) (waiting : List String)
    (ps : List Piece) (done rest : List String) : Prop where
  split : waiting ++ texts name ps = done ++ rest
  served : (h.stages name ps).length = done.length
  replies : offStream (h.sent name ps) =
    offStream (h.outboxOf name) ++ (exchanges s done (h.stages name ps)).map Exchange.reply
  attended : ∀ x ∈ exchanges s done (h.stages name ps), ∃ behind,
    x.stage.Talks name x.session (x.text :: behind) ∧
      x.stage.journal.now + x.stage.tuning.ttl < Time.limit
  talks : ∃ s', (h.pieces ps).Talks name s' rest

/-- Time does not go back, and what a server was started with stays. -/
theorem now_le_pieces (h : Hub) (ps : List Piece) :
    h.journal.now ≤ (h.pieces ps).journal.now ∧ (h.pieces ps).tuning = h.tuning := by
  have hlogs := logs_pieces h ps
  refine ⟨?_, hlogs.tuning⟩
  rw [hlogs.journal]
  exact (Journal.le_now_of_mem_attempted _ _ _).1

theorem offStream_sent_cons (h : Hub) (name : Label) (p : Piece) (ps : List Piece) :
    offStream (h.sent name (p :: ps)) =
      offStream (h.gatheredIn name p) ++ offStream ((h.piece p).sent name ps) := by
  rw [sent, gathered, List.append_assoc, offStream_append]
  rfl

/-- What comes later is behind what comes of the first piece. -/
theorem offStream_sent_of_rest {ps : List Piece} {fs : List Frame}
    (hrest : offStream ((h.piece p).sent name ps) = offStream ((h.piece p).outboxOf name) ++ fs) :
    offStream (h.sent name (p :: ps)) = offStream (h.sent name [p]) ++ fs := by
  rw [offStream_sent_cons, hrest, offStream_sent_cons, List.append_assoc]
  rfl

theorem Follows.hearing {ps : List Piece} {done rest : List String}
    (hf : (h.piece p).Follows name s (waiting ++ p.said name) ps done rest)
    (hstages : h.stagesIn name p = [])
    (hsent : offStream (h.sent name [p]) = offStream (h.outboxOf name)) :
    h.Follows name s waiting (p :: ps) done rest := by
  have hsame : h.stages name (p :: ps) = (h.piece p).stages name ps := by
    rw [stages, hstages, List.nil_append]
  refine ⟨?_, hsame ▸ hf.served, ?_, ?_, hf.talks⟩
  · rw [← hf.split, texts, texts, List.flatMap_cons, List.append_assoc]
  · rw [offStream_sent_of_rest hf.replies, hsent, hsame]
  · rw [hsame]
    exact hf.attended

theorem Follows.serving {ps : List Piece} {text : String} {behind done rest : List String}
    (hf : (h.piece p).Follows name (s.hear text) behind ps done rest) (hsaid : p.said name = [])
    (hstages : h.stagesIn name p = [h])
    (hsent : offStream (h.sent name [p]) = offStream (h.outboxOf name) ++ [h.answerToText s text])
    (ht : h.Talks name s (text :: behind))
    (hclock : h.journal.now + h.tuning.ttl < Time.limit) :
    h.Follows name s (text :: behind) (p :: ps) (text :: done) rest := by
  have hmore : h.stages name (p :: ps) = h :: (h.piece p).stages name ps := by
    rw [stages, hstages, List.singleton_append]
  refine ⟨?_, ?_, ?_, ?_, hf.talks⟩
  · rw [List.cons_append, List.cons_append, ← hf.split, texts, texts, List.flatMap_cons, hsaid,
      List.nil_append]
  · rw [hmore, List.length_cons, List.length_cons, hf.served]
  · rw [offStream_sent_of_rest hf.replies, hsent, hmore, List.append_assoc]
    rfl
  · rw [hmore, exchanges]
    rintro x (_ | ⟨_, hx⟩)
    · exact ⟨behind, ht, hclock⟩
    · exact hf.attended x hx

/-- Whatever is done while a client stays, its texts are served in turn. -/
theorem Talks.follows {ps : List Piece} (ht : h.Talks name s waiting)
    (hps : ∀ p ∈ ps, p.parts name = false)
    (hclock : (h.pieces ps).journal.now + h.tuning.ttl < Time.limit) :
    ∃ done rest, h.Follows name s waiting ps done rest := by
  induction ps generalizing h s waiting with
  | nil => exact ⟨[], waiting, by simp [texts], rfl, (List.append_nil _).symm,
      by simp [exchanges], s, ht⟩
  | cons p ps ih =>
      have hhere : h.journal.now + h.tuning.ttl < Time.limit :=
        Nat.lt_of_le_of_lt (Nat.add_le_add_right (now_le_pieces h (p :: ps)).1 _) hclock
      have htuning : (h.piece p).tuning = h.tuning := (now_le_pieces h [p]).2
      -- what is known of the client and what waits are those that this piece leaves
      have hrest := fun {s' waiting'} (ht' : (h.piece p).Talks name s' waiting') =>
        ih ht' (fun p' hp' => hps p' (List.mem_cons_of_mem p hp'))
          (by rw [htuning]; exact hclock)
      cases ht.attends (hps p List.mem_cons_self) hhere with
      | hearing stages sent talks =>
          obtain ⟨done, rest, hf⟩ := hrest talks
          exact ⟨done, rest, hf.hearing stages sent⟩
      | serving waits said stages sent talks =>
          obtain ⟨done, rest, hf⟩ := hrest talks
          subst waits
          exact ⟨_, rest, hf.serving said stages sent ht hhere⟩

end Hub

end ChatServer
