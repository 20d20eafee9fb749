import ChatServer.Proofs.History.Survival
import ChatServer.Proofs.Log.Halt

/-!
Who stands in line for permits: the writer, and connections whose next request pushes to the log. A
caller who finds no permit gives up at once. A connection leaves the line by being let through and
in no other way, and it goes on with nothing else until then, also if its client goes away. So
whoever stands there is waited for by somebody.
-/

namespace ChatServer

/-- Whether a connection's next request pushes to the log. -/
def Connection.pushing (c : Connection) : Bool :=
  c.alive && match c.inbox with
    | .text s :: _ => Hub.pushes c (Request.parse s)
    | _ => false

namespace Hub

variable {h h' : Hub} {p : Piece} {name : Label} {c : Connection} {P : Task → Prop}

/-- Who may stand in line. -/
def mayStand (h : Hub) : Task → Prop
  | .writer => True
  | .caller => False
  | .connection name => ∃ c, h.connections.get? name = some c ∧ c.pushing = true

/-- Nobody else stands in line, and nobody twice. -/
def Queued (h : Hub) : Prop := h.journal.store.Lines h.mayStand

theorem queued_new (tuning : Tuning) (outages : Outages) (gated : Bool) (wall : Instant) :
    (new tuning outages gated wall).Queued := by
  intro g hg
  cases gated with
  | false => simp [new, Journal.new, Store.new] at hg
  | true =>
      obtain rfl : Gate.shut = g := Option.some.inj hg
      exact ⟨List.nodup_nil, fun who hwho => absurd hwho List.not_mem_nil⟩

/-- Whoever may stand in line may go on standing there if its next request is still the same. -/
theorem mayStand_of {who : Task} (hc : ∀ n c, who = .connection n →
    h.connections.get? n = some c → c.pushing = true →
      ∃ c', h'.connections.get? n = some c' ∧ c'.pushing = true) (hwho : h.mayStand who) :
    h'.mayStand who := by
  cases who with
  | writer => trivial
  | caller => exact hwho
  | connection n =>
      obtain ⟨c, hget, hpushing⟩ := hwho
      exact hc n c rfl hget hpushing

theorem Queued.of (hq : h.Queued) (hgate : h'.journal.store.gate = h.journal.store.gate)
    (hc : ∀ n c, h.connections.get? n = some c → c.pushing = true →
      ∃ c', h'.connections.get? n = some c' ∧ c'.pushing = true) : h'.Queued :=
  (hq.of_gate hgate).mono fun _ => mayStand_of fun n c _ => hc n c

theorem Queued.of_connections (hl : h'.journal.store.Lines h.mayStand)
    (hc : h'.connections = h.connections) : h'.Queued :=
  hl.mono fun _ => mayStand_of fun n c _ hget hpushing => ⟨c, by rw [hc]; exact hget, hpushing⟩

/-- Once a connection has left the line, whatever becomes of it is no matter. -/
theorem Queued.of_others (name : Label)
    (hl : h'.journal.store.Lines fun who => h.mayStand who ∧ who ≠ .connection name)
    (hc : ∀ n, n ≠ name → h'.connections.get? n = h.connections.get? n) : h'.Queued := by
  refine hl.mono fun who hwho => mayStand_of (fun n c heq hget hpushing => ?_) hwho.1
  have hn : n ≠ name := by
    rintro rfl
    exact hwho.2 heq
  exact ⟨c, by rw [hc n hn]; exact hget, hpushing⟩

/-- A connection that has something else to do does not stand in line. -/
theorem Queued.without (hq : h.Queued) (hc : h.connections.get? name = some c)
    (hpushing : c.pushing = false) :
    h.journal.store.Lines fun who => h.mayStand who ∧ who ≠ .connection name := by
  refine hq.mono fun who hwho => ⟨hwho, ?_⟩
  rintro rfl
  obtain ⟨c', hc', hpushing'⟩ := hwho
  obtain rfl := Option.some.inj (hc.symm.trans hc')
  simp [hpushing] at hpushing'

/-! ### Events -/

/-- No event brings anybody into the line. -/
theorem lines_react (hl : h.journal.store.Lines P) (e : Event) :
    (h.react e).2.journal.store.Lines P := by
  cases hfront : e.isFront with
  | true =>
      cases frontChange_react (h := h) hfront with
      | handed registry handle opened held pumps kept eq =>
          rw [eq]
          exact hl
      | dismissed registry opened held nothing eq =>
          rw [eq]
          exact hl
  | false =>
      cases e with
      | history room | getDirect sender receiver | keyExists key | logSize =>
          exact hl.of_gate (beside_of_look rfl).gate
      | direct sender receiver text =>
          simp only [react]
          rcases hacquire : h.acquire .caller with ⟨_ | _, g⟩
          · exact hl
          · have hleft : g.journal.store.Lines P := by
              have hgranted : (h.journal.store.acquire .caller).1 = true :=
                congrArg Prod.fst hacquire
              rw [show g = _ from (congrArg Prod.snd hacquire).symm]
              exact (hl.acquire_of_granted hgranted).mono fun _ hwho => hwho.1
            have hlines := hleft.of_gate (beside_direct g sender receiver text).gate
            dsimp only
            rcases hdirect : g.direct sender receiver text with ⟨_ | reason | _, g'⟩ <;>
              rw [hdirect] at hlines <;> exact hlines
      | deleteDirect sender receiver =>
          rw [react_deleteDirect]
          exact hl.of_gate (beside_apply h _).gate
      | flush | advance d | outages o | ignored name => exact hl
      | log c =>
          refine hl.of_gate ?_
          show (h.journal.store.callDirect h.journal.now c).2.gate = _
          unfold Store.callDirect
          split <;> rfl
      | permits n => exact hl.addPermits n
      | connect name connection | text name s | disconnect name =>
          simp only [react]
          split <;> exact hl
      | _ => simp [Event.isFront] at hfront

/-- What arrives does not change what a connection does next. -/
theorem pushing_arrival (hpushing : c.pushing = true) (x : Inbound) :
    Connection.pushing { c with inbox := c.inbox ++ [x] } = true := by
  obtain ⟨session, stream, inbox, outbox, alive, closed⟩ := c
  cases inbox with
  | nil => simp [Connection.pushing] at hpushing
  | cons first rest =>
      cases first with
      | text s => exact hpushing
      | gone => simp [Connection.pushing] at hpushing

/-- A connection that is not served any more does not stand in line, so nobody loses a place there
to a client that comes. -/
theorem Queued.not_served (hq : h.Queued) (hserves : h.serves name = false) :
    h.journal.store.Lines fun who => h.mayStand who ∧ who ≠ .connection name := by
  refine hq.mono fun who hwho => ⟨hwho, ?_⟩
  rintro rfl
  obtain ⟨c, hc, hpushing⟩ := hwho
  have ha : c.alive = false := by simpa [serves, hc] using hserves
  simp [Connection.pushing, ha] at hpushing

theorem Queued.react (hq : h.Queued) (e : Event) : (h.react e).2.Queued := by
  cases reception_react h e with
  | unmoved connections => exact .of_connections (lines_react hq e) connections
  | @opened name connection event free eq =>
      refine .of_others name (lines_react (hq.not_served free) e) fun n hn => ?_
      rw [eq, get?_putConnection_of_ne hn.symm]
  | @arrival name c x client found eq =>
      refine (lines_react hq e).mono fun _ => mayStand_of fun n c' _ hget hpushing => ?_
      rw [eq, putConnection, Table.get?_put]
      by_cases hn : n = name
      · subst hn
        obtain rfl := Option.some.inj (found.symm.trans hget)
        exact ⟨_, if_pos rfl, pushing_arrival hpushing x⟩
      · exact ⟨c', (if_neg hn).trans hget, hpushing⟩

/-! ### Requests -/

/-- Who serves a request that pushes has been let through, and with any other request does not stand
in line. -/
theorem Queued.leaveFor (hq : h.Queued) (hc : h.connections.get? name = some c)
    {s : String} {rest : List Inbound} (hinbox : c.inbox = .text s :: rest) {request : Request}
    (hparse : Request.parse s = .ok request) (hserve : (h.serveNext name).isSome = true) :
    (h.leaveFor name c request).store.Lines
      fun who => h.mayStand who ∧ who ≠ .connection name := by
  have ha : c.alive = true := by
    refine Bool.not_eq_false _ ▸ fun ha => ?_
    simp [serveNext, hc, ha] at hserve
  unfold Hub.leaveFor
  cases hpushes : pushes c (.ok request) with
  | false =>
      refine hq.without hc ?_
      simp [Connection.pushing, hinbox, hparse, hpushes]
  | true =>
      refine hq.acquire_of_granted (Bool.not_eq_false _ ▸ fun hdenied => ?_)
      simp [serveNext, hc, ha, hinbox, hparse, hpushes, acquire, hdenied] at hserve

theorem Queued.serveNext (hq : h.Queued) (hserve : h.serveNext name = some h') : h'.Queued := by
  obtain ⟨c, first, rest, hc, ha, hinbox, ⟨rfl, heq⟩ | ⟨s, rfl, ⟨r, hparse, heq⟩ |
    ⟨request, hparse, heq⟩⟩⟩ := serveNext_cases hserve
  · have hout := hq.without hc (by simp [Connection.pushing, hinbox])
    rw [heq]
    refine .of_others (h := h) name ?_ fun n hn =>
      get?_endConnection_of_ne hn.symm h c
    rw [endConnection_eq]
    exact hout
  · have hout := hq.without hc (by simp [Connection.pushing, hinbox, hparse, pushes])
    rw [heq]
    refine .of_others (h := h) name hout fun n hn => ?_
    rw [get?_putConnection_of_ne hn.symm]
  · have hout := hq.leaveFor hc hinbox hparse (by rw [hserve]; rfl)
    have haside := servedAside_serve { h with journal := h.leaveFor name c request }
      { c with inbox := rest } request
    rw [heq]
    generalize ({ h with journal := h.leaveFor name c request } : Hub).serve
      { c with inbox := rest } request = served at haside
    cases haside with
    | reply beside inbox outbox alive frame =>
        refine .of_others (h := h) name (hout.of_gate beside.gate) fun n hn => ?_
        rw [Served.close, get?_putConnection_of_ne hn.symm, beside.connections]
    | ended beside outbox =>
        rw [Served.close]
        refine .of_others (h := h) name ?_ fun n hn => ?_
        · rw [endConnection_eq]
          exact hout.of_gate beside.gate
        · rw [get?_endConnection_of_ne hn.symm, beside.connections]

/-! ### Pieces of work -/

theorem Queued.waitInLine (hq : h.Queued) (name : Label) : (h.waitInLine name).Queued := by
  unfold Hub.waitInLine
  cases hc : h.connections.get? name with
  | none => exact hq
  | some c =>
      dsimp only
      split
      case h_1 s rest ha hinbox =>
        split
        case isTrue hpushes =>
          have hstands : h.mayStand (.connection name) :=
            ⟨c, hc, by simp [Connection.pushing, ha, hinbox, hpushes]⟩
          exact .of_connections (Store.Lines.acquire hq hstands) rfl
        case isFalse => exact hq
      case h_2 => exact hq

theorem Queued.forward (hq : h.Queued) (name : Label) : (h.forward name).Queued := by
  rcases forward_cases h name with heq | ⟨c, registry, outbox, stream, hc, heq⟩ <;> rw [heq]
  · exact hq
  · refine hq.of rfl fun n c' hget hpushing => ?_
    rw [putConnection, Table.get?_put]
    split
    case isTrue hn =>
      subst hn
      obtain rfl := Option.some.inj (hc.symm.trans hget)
      exact ⟨_, rfl, hpushing⟩
    case isFalse => exact ⟨c', hget, hpushing⟩

theorem Queued.forget (hq : h.Queued) (name : Label) : (h.forget name).2.Queued := by
  rcases forget_cases h name with heq | ⟨c, hc, ha, heq⟩
  · rw [heq]
    exact hq
  · rw [heq]
    refine .of_others name (hq.without hc (by simp [Connection.pushing, ha])) fun n hn => ?_
    rw [Table.get?_erase, if_neg hn]

theorem Queued.collect (hq : h.Queued) : h.collect.2.Queued := by
  refine hq.of rfl fun n c hget hpushing => ?_
  rw [get?_collect, hget]
  exact ⟨_, rfl, hpushing⟩

theorem Queued.runWriter (hq : h.Queued) : h.runWriter.Queued := by
  have hwriter : h.mayStand .writer := trivial
  exact .of_connections (h := h) (Store.Lines.run hq hwriter h.journal.writer h.journal.now) rfl

theorem Queued.piece (hq : h.Queued) (p : Piece) : (h.piece p).Queued := by
  cases p with
  | react e => exact hq.react e
  | serve name =>
      rw [Hub.piece]
      cases hserve : h.serveNext name with
      | none => exact hq
      | some after => exact hq.serveNext hserve
  | wait name => exact hq.waitInLine name
  | pump name =>
      obtain ⟨registry, pumps, heq⟩ := runPump_eq h name
      rw [Hub.piece, heq]
      exact hq
  | forward name => exact hq.forward name
  | write => exact hq.runWriter
  | retire =>
      rw [Hub.piece, retire]
      split
      · exact Queued.runWriter (h := h.dismiss) hq
      · exact hq
  | forget name => exact hq.forget name
  | collect => exact hq.collect
  | date wall => exact hq

/-! ### Runs -/

theorem Queued.through (hq : h.Queued) (ms : List Moment) : (h.through ms).Queued := by
  rw [← pieces_scripts]
  exact pieces_invariant (fun _ p _ hg => hg.piece p) hq

end Hub

end ChatServer
