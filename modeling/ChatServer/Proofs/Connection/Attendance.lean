import ChatServer.Proofs.Connection.Desk
import ChatServer.Proofs.Connection.Heard
import ChatServer.Proofs.Connection.Orders
import ChatServer.Proofs.Room.Rest

/-!
Who keeps a server going. Commands can be given by whoever holds a handle, by a pump and by a
connection, and of these two none comes into being but by a handle. So once nobody is left nobody
ever comes back, and where listeners can have channels commands are handled until then.
-/

namespace ChatServer.Hub

variable {h h' : Hub} {vs : Visitors} {subs : List Subscription} {p : Piece}

/-! ### Runs -/

/-- Whether a piece of work can be done: an event can, unless it is turned away. -/
def admits (h : Hub) : Piece → Bool
  | .react e => !h.refuses e
  | _ => true

/-- Pieces of work that can be done one after the other. -/
def Runs (h : Hub) : List Piece → Prop
  | [] => True
  | p :: ps => h.admits p = true ∧ (h.piece p).Runs ps

theorem runs_append {ps qs : List Piece} :
    h.Runs (ps ++ qs) ↔ h.Runs ps ∧ (h.pieces ps).Runs qs := by
  induction ps generalizing h with
  | nil => simp [Runs]
  | cons p ps ih => simp [Runs, ih, and_assoc]

/-- What every piece of work keeps that can be done a run keeps. -/
theorem Runs.invariant {P : Hub → Prop} {ps : List Piece} (hps : h.Runs ps)
    (hstep : ∀ g : Hub, ∀ p, g.admits p = true → P g → P (g.piece p)) (hP : P h) :
    P (h.pieces ps) := by
  induction ps generalizing h with
  | nil => exact hP
  | cons p ps ih => exact ih hps.2 (hstep h p hps.1 hP)

theorem runs_of_background {ps : List Piece} (hps : ∀ p ∈ ps, p.isBackground = true) :
    h.Runs ps := by
  induction ps generalizing h with
  | nil => trivial
  | cons p ps ih =>
      refine ⟨?_, ih fun q hq => hps q (List.mem_cons_of_mem p hq)⟩
      have hp := hps p List.mem_cons_self
      cases p <;> first | rfl | simp [Piece.isBackground] at hp

theorem runs_script (h : Hub) (m : Moment) : h.Runs (h.script m) := by
  refine ⟨rfl, ?_⟩
  cases hr : (h.dated m.wall).refuses m.event with
  | true => trivial
  | false =>
      have hconclude : ∀ (g : Hub) (a : Answer),
          g.Runs (concludeScript a m.event ++ [.collect]) := by
        intro g a
        rcases concludeScript_cases a m.event with hscript | ⟨name, hscript⟩ <;>
          simp [hscript, Runs, admits]
      have hadmits : (h.dated m.wall).admits (.react m.event) = true := by simp [admits, hr]
      simp only [Bool.false_eq_true, if_false, work, List.cons_append, List.append_assoc]
      exact ⟨hadmits, runs_append.2 ⟨runs_of_background (background_settleScript _), hconclude _ _⟩⟩

/-- The pieces of a run can be done one after the other. -/
theorem runs_scripts (h : Hub) (ms : List Moment) : h.Runs (h.scripts ms) := by
  induction ms generalizing h with
  | nil => trivial
  | cons m ms ih =>
      refine runs_append.2 ⟨runs_script h m, ?_⟩
      rw [pieces_script]
      exact ih _

/-! ### Nobody comes back -/

/-- Nobody who can give commands has come. -/
structure Thinned (h h' : Hub) : Prop where
  handle : h'.handle = true → h.handle = true
  pumps : ∀ name p, h'.pumps.get? name = some p → p.running = true →
    ∃ q, h.pumps.get? name = some q ∧ q.running = true
  connections : ∀ name c, h'.connections.get? name = some c → c.alive = true →
    ∃ d, h.connections.get? name = some d ∧ d.alive = true

theorem Thinned.of_eq (hhandle : h'.handle = true → h.handle = true) (hpumps : h'.pumps = h.pumps)
    (hconnections : h'.connections = h.connections) : Thinned h h' where
  handle := hhandle
  pumps _ p hp hrunning := ⟨p, hpumps ▸ hp, hrunning⟩
  connections _ c hc ha := ⟨c, hconnections ▸ hc, ha⟩

theorem Thinned.refl (h : Hub) : Thinned h h := .of_eq id rfl rfl

theorem Thinned.of_pumps (hhandle : h'.handle = h.handle)
    (hconnections : h'.connections = h.connections)
    (hpumps : ∀ name p, h'.pumps.get? name = some p →
      ∃ q, h.pumps.get? name = some q ∧ (p.running = true → q.running = true)) :
    Thinned h h' where
  handle hh := hhandle ▸ hh
  pumps name p hp hrunning := by
    obtain ⟨q, hq, hwas⟩ := hpumps name p hp
    exact ⟨q, hq, hwas hrunning⟩
  connections _ c hc ha := ⟨c, hconnections ▸ hc, ha⟩

theorem Thinned.of_connections (hhandle : h'.handle = h.handle) (hpumps : h'.pumps = h.pumps)
    (hconnections : ∀ name c, h'.connections.get? name = some c → c.alive = true →
      ∃ d, h.connections.get? name = some d ∧ d.alive = true) : Thinned h h' :=
  ⟨fun hh => hhandle ▸ hh, fun _ p hp hrunning => ⟨p, hpumps ▸ hp, hrunning⟩, hconnections⟩

/-- There is somebody who can give commands. -/
theorem attended_iff : h.attended = true ↔ h.handle = true ∨
    (∃ name p, h.pumps.get? name = some p ∧ p.running = true) ∨
    ∃ name c, h.connections.get? name = some c ∧ c.alive = true := by
  simp only [attended, Bool.or_eq_true, List.any_eq_true, Prod.exists, Table.mem_entries, or_assoc]

theorem Thinned.attended (ht : Thinned h h') (ha : h'.attended = true) : h.attended = true := by
  rcases attended_iff.1 ha with hh | ⟨name, p, hp, hrunning⟩ | ⟨name, c, hc, halive⟩
  · exact attended_iff.2 (.inl (ht.handle hh))
  · exact attended_iff.2 (.inr (.inl ⟨name, ht.pumps name p hp hrunning⟩))
  · exact attended_iff.2 (.inr (.inr ⟨name, ht.connections name c hc halive⟩))

/-- Of the connections one at most is put in the place of another. -/
theorem alive_put {name : Label} {c : Connection}
    (hc : c.alive = true → ∃ d, h.connections.get? name = some d ∧ d.alive = true) :
    ∀ n c', (h.connections.put name c).get? n = some c' → c'.alive = true →
      ∃ d, h.connections.get? n = some d ∧ d.alive = true := by
  intro n c' hc' ha
  rcases Table.get?_of_put hc' with ⟨rfl, rfl⟩ | ⟨-, hc'⟩
  · exact hc ha
  · exact ⟨c', hc', ha⟩

/-- An event that needs a handle is turned away without one. -/
theorem needsHandle_of_admits {e : Event} (hh : h.handle = false)
    (he : h.admits (.react e) = true) : e.needsHandle = false := by
  simp only [admits, refuses, hh, Bool.not_eq_true', Bool.or_eq_false_iff] at he
  simpa using he.1

/-- An event that needs no handle brings nobody. -/
theorem thinned_react {e : Event} (he : e.needsHandle = false) : Thinned h (h.react e).2 := by
  cases hlog : e.isLogSide with
  | true =>
      obtain ⟨journal, heq⟩ := react_logSide (h := h) hlog
      rw [heq]
      exact .of_eq id rfl rfl
  | false =>
      cases e with
      | drop name =>
          obtain ⟨registry, held, hdrop, -⟩ := dropHeld_eq h name
          simp only [react, hdrop]
          exact .of_eq id rfl rfl
      | receive name | tryReceive name =>
          simp only [react]
          split <;> exact .of_eq id rfl rfl
      | sinkReceive name =>
          simp only [react]
          cases hq : (h.pumps.get? name).filter (·.sink.receiving) with
          | none => exact .refl h
          | some q =>
              refine .of_pumps rfl rfl (Table.forall_get?_put ?_ fun _ p hp => ⟨p, hp, id⟩)
              exact ⟨q, (Option.filter_eq_some_iff.1 hq).1, id⟩
      | sinkDrop name =>
          refine .of_pumps rfl rfl fun n p hp => ?_
          simp only [react, Table.get?_modify] at hp
          split at hp
          · obtain ⟨q, hq, rfl⟩ := Option.map_eq_some_iff.1 hp
            exact ⟨q, hq, id⟩
          · exact ⟨p, hp, id⟩
      | cancel name =>
          simp only [react]
          cases hq : h.pumps.get? name with
          | none => exact .refl h
          | some q =>
              dsimp only
              split
              · exact .refl h
              · exact .of_pumps rfl rfl
                  (Table.forall_get?_put ⟨q, hq, id⟩ fun _ p hp => ⟨p, hp, id⟩)
      | shutdown => exact .of_eq (fun hh => by simp [react] at hh) rfl rfl
      | text name s | disconnect name =>
          simp only [react]
          cases hc : h.connections.get? name with
          | none => exact .refl h
          | some c => exact .of_connections rfl rfl (alive_put fun ha => ⟨c, hc, ha⟩)
      | pumpEnd name | ignored name => exact .refl h
      | _ => simp [Event.needsHandle, Event.isLogSide] at he hlog

/-- A connection that is there after a piece of work was there before it, if none has come. -/
theorem alive_of_piece (hp : ∀ e, p ≠ .react e) {name : Label} {c : Connection}
    (hc : (h.piece p).connections.get? name = some c) (ha : c.alive = true) :
    ∃ d, h.connections.get? name = some d ∧ d.alive = true := by
  cases p with
  | react e => exact absurd rfl (hp e)
  | serve n =>
      rw [piece] at hc
      cases hserve : h.serveNext n with
      | none =>
          rw [hserve] at hc
          exact ⟨c, hc, ha⟩
      | some after =>
          rw [hserve, Option.getD_some] at hc
          by_cases hn : n = name
          · obtain ⟨d, hd, halive, -⟩ := serving_of_serveNext hserve
            exact ⟨d, hn ▸ hd, halive⟩
          · exact ⟨c, (get?_serveNext_of_ne hn hserve).symm.trans hc, ha⟩
  | forward n =>
      rw [piece] at hc
      rcases forward_cases h n with heq | ⟨d, registry, outbox, stream, hd, heq⟩ <;> rw [heq] at hc
      · exact ⟨c, hc, ha⟩
      · exact alive_put (h := h) (fun halive => ⟨d, hd, by exact halive⟩) name c hc ha
  | wait n =>
      obtain ⟨gate, heq⟩ := waitInLine_eq h n
      rw [piece, heq] at hc
      exact ⟨c, hc, ha⟩
  | pump n =>
      obtain ⟨registry, pumps, heq⟩ := runPump_eq h n
      rw [piece, heq] at hc
      exact ⟨c, hc, ha⟩
  | retire =>
      rw [piece, retire] at hc
      split at hc <;> exact ⟨c, hc, ha⟩
  | forget n =>
      rw [piece] at hc
      rcases forget_cases h n with heq | ⟨d, -, -, heq⟩
      · rw [heq] at hc
        exact ⟨c, hc, ha⟩
      · rw [heq] at hc
        exact ⟨c, Table.get?_of_erase hc, ha⟩
  | collect =>
      rw [piece, get?_collect] at hc
      obtain ⟨d, hd, rfl⟩ := Option.map_eq_some_iff.1 hc
      exact ⟨d, hd, ha⟩
  | date wall | write => exact ⟨c, hc, ha⟩

/-- A pump that has ended does not run again. -/
theorem running_run {q : Pump} {r : Registry} (hrunning : (q.run r).1.running = true) :
    q.running = true := by
  cases hq : q.running with
  | true => rfl
  | false =>
      have hrests : q.Rests r := Pump.turn_eq_none_iff.2 (.inl hq)
      rw [Pump.run_of_rests hrests, hq] at hrunning
      exact hrunning

theorem thinned_pump (h : Hub) (name : Label) : Thinned h (h.runPump name) := by
  unfold runPump
  cases hq : h.pumps.get? name with
  | none => exact .refl h
  | some q =>
      exact .of_pumps rfl rfl
        (Table.forall_get?_put ⟨q, hq, running_run⟩ fun _ p hp => ⟨p, hp, id⟩)

/-- Without a handle nobody comes. -/
theorem thinned_piece (hh : h.handle = false) (hp : h.admits p = true) :
    Thinned h (h.piece p) := by
  cases hfront : p.isFront with
  | false =>
      by_cases hreact : ∃ e, p = .react e
      · obtain ⟨e, rfl⟩ := hreact
        exact thinned_react (needsHandle_of_admits hh hp)
      · obtain ⟨wall, journal, managed, connections, heq⟩ := aside_piece (h := h) hfront
        refine .of_connections (by rw [heq]) (by rw [heq]) fun name c hc ha =>
          alive_of_piece (fun e he => hreact ⟨e, he⟩) hc ha
  | true =>
      cases p with
      | react e => exact thinned_react (needsHandle_of_admits hh hp)
      | pump name => exact thinned_pump h name
      | _ => simp [Piece.isFront] at hfront

/-- Whoever is there after a piece of work was there before it, or a handle was. -/
theorem attended_of_piece (hp : h.admits p = true) (ha : (h.piece p).attended = true) :
    h.attended = true := by
  cases hh : h.handle with
  | true => exact attended_iff.2 (.inl hh)
  | false => exact (thinned_piece hh hp).attended ha

/-! ### Commands are handled for as long as anybody is there -/

/-- Listeners can be opened, and commands are handled for as long as there is anybody to give
them. -/
structure Staffed (h : Hub) : Prop where
  canOpen : h.registry.canOpen = true
  managed : h.attended = true → h.managed = true

theorem staffed_new (tuning : Tuning) (outages : Outages) (gated : Bool) (wall : Instant)
    (hcan : Channel.isCapacity (max tuning.subscriberBuffer 1) = true) :
    (new tuning outages gated wall).Staffed := ⟨hcan, fun _ => rfl⟩

theorem Staffed.piece (hs : h.Staffed) (hk : h.Kept vs subs) (hp : h.admits p = true) :
    (h.piece p).Staffed := by
  refine ⟨(canOpen_piece hk p).trans hs.canOpen, fun hattended => ?_⟩
  have hm := hs.managed (attended_of_piece hp hattended)
  by_cases hretire : p = .retire
  · -- nobody is left when a server retires, and it leaves nobody
    subst hretire
    rw [Hub.piece, retire] at hattended ⊢
    split
    case isTrue hgone =>
      rw [if_pos hgone] at hattended
      have hnobody : h.attended = true := hattended
      simp [hnobody] at hgone
    case isFalse => exact hm
  · exact ((charge_piece h hretire).managed hs.canOpen).trans hm

theorem Staffed.pieces (hs : h.Staffed) (hk : h.Kept vs subs) {ps : List Piece}
    (hps : h.Runs ps) : (h.pieces ps).Staffed := by
  induction ps generalizing h vs subs with
  | nil => exact hs
  | cons p ps ih => exact ih (hs.piece hk hps.1) (hk.after_piece p) hps.2

end ChatServer.Hub
