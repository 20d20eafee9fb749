import Mathlib.Data.List.Induction
import ChatServer.Proofs.Connection.Release
import ChatServer.Proofs.Connection.Ties

/-!
Why a pump reaches the end of its listener's stream. As long as a room lists the listener the stream
goes on, so a pump that has reached its end was taken off that list before: its room was deleted, or
somebody closed the listener under its name. The pump finds the same end in either case and reports
it alike.
-/

namespace ChatServer

open Registry

/-- Three orders take a listener out of its room. -/
theorem Registry.Order.undoes_cases {l : Listener} {o : Order} (h : o.undoes l = true) :
    o = .close l.room l.id ∨ o = .delete l.room ∨ o = .closeAll := by
  cases o with
  | close room id =>
      obtain ⟨rfl, rfl⟩ := of_decide_eq_true h
      exact .inl rfl
  | delete room =>
      obtain rfl : room = l.room := of_decide_eq_true h
      exact .inr (.inl rfl)
  | closeAll => exact .inr (.inr rfl)
  | _ => simp [undoes, ends] at h

namespace Pump

variable {p : Pump} {r : Registry} {c : Channel Payload}

/-- A pump that has ended does not move. -/
theorem runFor_of_ended (hended : p.running = false) (r : Registry) (fuel : Nat) :
    p.runFor r fuel = (p, r) := by
  cases fuel with
  | zero => rfl
  | succ fuel => rw [runFor, turn_eq_none_iff.2 (.inl hended)]

/-- The stream of a listener does not end while its room lists it. -/
theorem finish_runFor_of_listed (hk : r.Known p.listener c) (h : r.Proper)
    (hlists : r.lists p.listener.room p.listener.id = true)
    (hfinish : p.finish ≠ some .roomClosed) (fuel : Nat) :
    (p.runFor r fuel).1.finish ≠ some .roomClosed := by
  induction fuel generalizing p r c with
  | zero => exact hfinish
  | succ fuel ih =>
      rw [runFor]
      cases hturn : p.turn r true with
      | none => exact hfinish
      | some moved =>
          obtain ⟨p', r'⟩ := moved
          dsimp only
          obtain ⟨hrunning, ⟨payload, hheld, -, rfl, rfl⟩ | ⟨payload, hheld, hreceive, rfl⟩ |
            ⟨how, hstop, hcause⟩⟩ := turn_cases hturn
          · exact ih hk h hlists hfinish
          · have hobey : r' = r.obey (.receive p.listener.id) := by rw [obey, hreceive]
            subst hobey
            refine ih (hk.obey h _) (proper_obey h _) ?_ hfinish
            rw [hk.lists_obey h, hlists]
            rfl
          · obtain ⟨rfl, rfl⟩ := Prod.mk.inj hstop
            rw [runFor_of_ended rfl]
            rintro hend
            obtain rfl : how = .roomClosed := Option.some.inj hend
            -- the sender of a listed listener is there
            have hgone := hcause.2
            rw [receive, hk.channel] at hgone
            have hsending := (Channel.receive_eq_disconnected_iff.1 hgone).2
            rw [hk.sender hlists] at hsending
            exact Bool.false_ne_true hsending.symm

/-- A pump that waits for its listener finds the end of the stream when the listener is taken out of
its room, whatever takes it out. -/
theorem Tidy.ends_undone (ht : p.Tidy r) (hk : r.Known p.listener c) (h : r.Proper)
    (hrests : p.Rests r) (hrunning : p.running = true) (hheld : p.held = none) {o : Order}
    (hundoes : o.undoes p.listener = true) : p.Ends (r.obey o) .roomClosed := by
  obtain ⟨hsignal, hempty, -, hlists⟩ := ht.idle hk hrests hrunning hheld
  have hkeeps : .drop p.listener.id ∉ [o] := by
    intro hmem
    rw [← List.mem_singleton.1 hmem] at hundoes
    simp [Order.undoes, Order.ends] at hundoes
  have ht' : p.Tidy (r.obeyAll [o]) := ht.obeyAll hk h hkeeps
  refine Tidy.ends (show p.Tidy (r.obey o) from ht') (hk.obey h o) (proper_obey h o) ?_
  have hchannel : (r.obey o).channel? p.listener.id = some c.dropSender := by
    rw [hk.channel_obey h o, hlists]
    rcases Order.undoes_cases hundoes with rfl | rfl | rfl <;>
      simp [Order.treats, Order.undoes, Order.ends]
  have hturn : p.turn (r.obey o) true = some (p.stop (r.obey o) .roomClosed) := by
    simp [turn, hrunning, hheld, hsignal, receive, hchannel, Channel.receive, Channel.dropSender,
      hempty]
  rw [run_eq, runFor_of_turn_stop hturn]
  rfl

/-- A pump that takes its listener out of the room gives it up. -/
theorem drop_of_undoes {fuel : Nat} {l : Listener} {o : Order} (ho : o ∈ p.ordersFor r fuel)
    (hundoes : o.undoes l = true) : .drop l.id ∈ p.ordersFor r fuel := by
  induction fuel generalizing p r with
  | zero => exact absurd ho List.not_mem_nil
  | succ fuel ih =>
      rw [ordersFor] at ho ⊢
      cases hturn : p.turn r true with
      | none =>
          rw [hturn] at ho
          exact absurd ho List.not_mem_nil
      | some moved =>
          obtain ⟨p', r'⟩ := moved
          rw [hturn] at ho
          rcases List.mem_append.1 ho with hfirst | hrest
          · refine List.mem_append_left _ ?_
            unfold turnOrders at hfirst ⊢
            split at hfirst
            · unfold endOrders at hfirst ⊢
              split at hfirst
              · simp [dropOrders] at hfirst
                simp [hfirst, Order.undoes, Order.ends] at hundoes
              · simp only [releaseOrders, List.mem_cons, List.not_mem_nil, or_false] at hfirst ⊢
                rcases hfirst with rfl | rfl
                · exact .inr (congrArg Order.drop (of_decide_eq_true hundoes).2.symm)
                · simp [Order.undoes, Order.ends] at hundoes
            · split at hfirst
              · obtain rfl := List.mem_singleton.1 hfirst
                simp [Order.undoes, Order.ends] at hundoes
              · exact absurd hfirst List.not_mem_nil
          · exact List.mem_append_right _ (ih hrest)

end Pump

theorem Registry.mem_dropOrders {x : Option Listener} {o : Order} :
    o ∈ dropOrders x ↔ ∃ l, x = some l ∧ o = .drop l.id := by
  cases x <;> simp [dropOrders]

/-- Whoever takes a listener out of its room in order to give it up does give it up. -/
theorem Registry.drop_of_undoes_release {x : Option Listener} {l : Listener} {o : Order}
    (ho : o ∈ releaseOrders x) (hundoes : o.undoes l = true) : .drop l.id ∈ releaseOrders x := by
  cases x with
  | none => exact absurd ho List.not_mem_nil
  | some l' =>
      rcases List.mem_pair.1 ho with rfl | rfl
      · rw [(of_decide_eq_true hundoes).2.symm]
        exact List.mem_cons_of_mem _ List.mem_cons_self
      · simp [Order.undoes, Order.ends] at hundoes

/-- Apart from its own listener, which it gives up, a connection takes listeners out of a room only
by deleting the room. -/
theorem Connection.deleted_of_undoes {c : Connection} {d : Deed} {l : Listener} {o : Order}
    (ho : o ∈ c.orders d) (hundoes : o.undoes l = true) (hdrop : .drop l.id ∉ c.orders d) :
    d.deleted? = some l.room := by
  unfold orders at ho hdrop
  split at ho
  · exact absurd (drop_of_undoes_release ho hundoes) hdrop
  · rcases List.mem_append.1 ho with ho | ho
    · exact absurd (List.mem_append_left _ (drop_of_undoes_release ho hundoes)) hdrop
    · obtain rfl := List.mem_singleton.1 ho
      simp [Order.undoes, Order.ends] at hundoes
  · exact absurd (drop_of_undoes_release ho hundoes) hdrop
  · obtain rfl := List.mem_singleton.1 ho
    simp [Order.undoes, Order.ends] at hundoes
  · obtain rfl := List.mem_singleton.1 ho
    exact congrArg some (of_decide_eq_true hundoes)
  · obtain ⟨user, -, rfl⟩ := List.mem_map.1 ho
    simp [Order.undoes, Order.ends] at hundoes
  · exact absurd ho List.not_mem_nil

namespace Hub

variable {h : Hub} {vs : Visitors} {subs : List Subscription} {l : Listener} {o : Order}

/-- A piece of work that takes a listener out of its room against whoever holds it: the deletion of
the room, or a call to close the listener under its name. -/
def Undoes (h : Hub) (p : Piece) (l : Listener) : Prop :=
  (∃ d ∈ h.deeds p, d.deleted? = some l.room) ∨
    ∃ name room, p = .react (.close name room) ∧ h.opened.get? name = some l ∧
      room.getD l.room = l.room

/-- An order that takes a listener out of its room without giving it up. -/
theorem undoes_of_given (hk : h.Kept vs subs) (hl : h.Handles l) {p : Piece} (ho : o ∈ h.given p)
    (hundoes : o.undoes l = true) (hdrop : .drop l.id ∉ h.given p) : h.Undoes p l := by
  cases p with
  | react e =>
      rw [given] at ho hdrop
      cases e with
      | delete room =>
          obtain rfl := List.mem_singleton.1 ho
          exact .inl ⟨.deleted room, List.mem_singleton.2 rfl,
            congrArg some (of_decide_eq_true hundoes)⟩
      | close name room =>
          obtain ⟨l', hopened, rfl⟩ := List.mem_map.1 ho
          have hget : h.opened.get? name = some l' := Option.mem_toList.1 hopened
          obtain ⟨hroom, hid⟩ := of_decide_eq_true hundoes
          have hsame := hk.eq_of_id (hk.handled l' (handles_opened name l' hget))
            (hk.handled l hl) hid
          obtain rfl : l' = l := congrArg Subscription.listener hsame
          exact .inr ⟨name, room, rfl, hget, hroom⟩
      | closeHeld name => exact absurd (drop_of_undoes_release ho hundoes) hdrop
      | pump name capacity heading =>
          rw [asked] at ho hdrop
          split at ho
          case isTrue hpump =>
            rw [if_pos hpump] at hdrop
            exact absurd (drop_of_undoes_release ho hundoes) hdrop
          case isFalse => exact absurd ho List.not_mem_nil
      | listen name room =>
          rw [asked] at ho
          split at ho
          · exact absurd ho List.not_mem_nil
          · rcases Order.undoes_cases hundoes with rfl | rfl | rfl <;>
              simp [mem_dropOrders] at ho
      | drop name => rcases Order.undoes_cases hundoes with rfl | rfl | rfl <;>
          simp [asked, mem_dropOrders] at ho
      | _ => rcases Order.undoes_cases hundoes with rfl | rfl | rfl <;> simp [asked] at ho
  | serve name =>
      obtain ⟨c, hc, hgiven⟩ := List.mem_flatMap.1 ho
      obtain ⟨d, hd, hgiven⟩ := List.mem_flatMap.1 hgiven
      refine .inl ⟨d, hd, Connection.deleted_of_undoes hgiven hundoes fun hmem => hdrop ?_⟩
      exact List.mem_flatMap.2 ⟨c, hc, List.mem_flatMap.2 ⟨d, hd, hmem⟩⟩
  | pump name =>
      obtain ⟨q, hq, hgiven⟩ := List.mem_flatMap.1 ho
      exact absurd (List.mem_flatMap.2 ⟨q, hq, Pump.drop_of_undoes hgiven hundoes⟩) hdrop
  | forward name =>
      simp only [given, passed] at ho
      split at ho
      · exact absurd ho List.not_mem_nil
      · split at ho
        · exact absurd ho List.not_mem_nil
        · rcases Order.undoes_cases hundoes with rfl | rfl | rfl <;>
            simp [List.mem_replicate] at ho
  | _ => exact absurd ho List.not_mem_nil

/-! ### What is held and pumped -/

/-- Whether a piece of work leaves everybody the listeners and pumps that they have. -/
def Piece.leaves : Piece → Bool
  | .react e =>
    match e with
    | .listen .. | .closeHeld _ | .drop _ | .pump .. | .sinkReceive _ | .sinkDrop _ | .cancel _ =>
      false
    | _ => true
  | .pump _ => false
  | _ => true

theorem leaves_piece {p : Piece} (hp : p.leaves = true) :
    (h.piece p).held = h.held ∧ (h.piece p).pumps = h.pumps := by
  cases hfront : p.isFront with
  | false =>
      obtain ⟨wall, journal, managed, connections, heq⟩ := aside_piece (h := h) hfront
      rw [heq]
      exact ⟨rfl, rfl⟩
  | true =>
      cases p with
      | react e =>
          cases e with
          | listenAbandoned room =>
              simp only [piece, react, openAbandoned]
              split
              · split <;> exact ⟨rfl, rfl⟩
              · exact ⟨rfl, rfl⟩
          | delete room | close name room | receive name | tryReceive name =>
              simp only [piece, react, delete]
              split <;> exact ⟨rfl, rfl⟩
          | create room | submit sender room text | count room | roomExists room | pumpEnd name
          | shutdown => exact ⟨rfl, rfl⟩
          | _ => simp [Piece.leaves, Piece.isFront, Event.isFront] at hp hfront
      | _ => simp [Piece.leaves, Piece.isFront] at hp hfront

/-- A listener that is held after a piece of work was held before, or has just been opened. -/
theorem held_of_piece {p : Piece} {name : Label} (hl : (h.piece p).held.get? name = some l) :
    h.held.get? name = some l ∨
      ∃ room g, p = .react (.listen name room) ∧ h.openListener room = (some l, g) := by
  cases hleaves : p.leaves with
  | true =>
      rw [(leaves_piece hleaves).1] at hl
      exact .inl hl
  | false =>
      cases p with
      | pump name' =>
          obtain ⟨registry, pumps, heq⟩ := runPump_eq h name'
          rw [piece, heq] at hl
          exact .inl hl
      | react e =>
          rw [piece] at hl
          cases e with
          | listen name' room =>
              rcases hopen : h.openListener room with ⟨_ | l', g⟩
              · simp only [react, hopen] at hl
                rcases openListener_none hopen with rfl | rfl <;> exact .inl hl
              · obtain ⟨registry, held, hheld, hkept⟩ := dropHeld_eq g name'
                simp only [react, hopen, hheld] at hl
                rcases Table.get?_of_put hl with ⟨rfl, rfl⟩ | ⟨-, hl⟩
                · exact .inr ⟨room, g, rfl, hopen⟩
                · obtain ⟨-, rfl⟩ := openListener_some hopen
                  exact .inl (hkept name l hl)
          | closeHeld name' =>
              simp only [react] at hl
              split at hl
              · exact .inl hl
              · exact .inl (Table.get?_of_erase hl)
          | drop name' =>
              obtain ⟨registry, held, hheld, hkept⟩ := dropHeld_eq h name'
              simp only [react, hheld] at hl
              exact .inl (hkept name l hl)
          | pump name' capacity heading =>
              obtain ⟨registry, pumps, heq, -⟩ := dropPump_eq h name'
              simp only [react, heq] at hl
              split at hl
              · exact .inl hl
              · split at hl
                · exact .inl hl
                · exact .inl (Table.get?_of_erase hl)
          | sinkReceive name' =>
              simp only [react] at hl
              split at hl <;> exact .inl hl
          | sinkDrop name' => exact .inl hl
          | cancel name' =>
              simp only [react] at hl
              split at hl
              · exact .inl hl
              · split at hl <;> exact .inl hl
          | _ => simp [Piece.leaves] at hleaves
      | _ => simp [Piece.leaves] at hleaves

/-- A pump that is there after a piece of work was there before, or has just run, or has just been
started for a listener that was held. -/
theorem pumps_piece {p : Piece} {name : Label} {q : Pump}
    (hq : (h.piece p).pumps.get? name = some q) :
    (∃ q₀, h.pumps.get? name = some q₀ ∧ q.listener = q₀.listener ∧ q.finish = q₀.finish) ∨
      (∃ q₀, p = .pump name ∧ h.pumps.get? name = some q₀ ∧ q = (q₀.run h.registry).1) ∨
      (h.held.get? name = some q.listener ∧ q.finish = none) := by
  have hsame : h.pumps.get? name = some q →
      ∃ q₀, h.pumps.get? name = some q₀ ∧ q.listener = q₀.listener ∧ q.finish = q₀.finish :=
    fun hq => ⟨q, hq, rfl, rfl⟩
  cases hleaves : p.leaves with
  | true =>
      rw [(leaves_piece hleaves).2] at hq
      exact .inl (hsame hq)
  | false =>
      cases p with
      | pump name' =>
          rw [piece, runPump] at hq
          cases hq₀ : h.pumps.get? name' with
          | none =>
              simp only [hq₀] at hq
              exact .inl (hsame hq)
          | some q₀ =>
              simp only [hq₀] at hq
              rcases Table.get?_of_put hq with ⟨rfl, rfl⟩ | ⟨-, hq⟩
              · exact .inr (.inl ⟨q₀, rfl, hq₀, rfl⟩)
              · exact .inl (hsame hq)
      | react e =>
          rw [piece] at hq
          cases e with
          | listen name' room =>
              rcases hopen : h.openListener room with ⟨_ | l', g⟩
              · simp only [react, hopen] at hq
                rcases openListener_none hopen with rfl | rfl <;> exact .inl (hsame hq)
              · obtain ⟨registry, held, hheld, -⟩ := dropHeld_eq g name'
                obtain ⟨-, rfl⟩ := openListener_some hopen
                simp only [react, hopen, hheld] at hq
                exact .inl (hsame hq)
          | closeHeld name' =>
              simp only [react] at hq
              split at hq <;> exact .inl (hsame hq)
          | drop name' =>
              obtain ⟨registry, held, hheld, -⟩ := dropHeld_eq h name'
              simp only [react, hheld] at hq
              exact .inl (hsame hq)
          | pump name' capacity heading =>
              obtain ⟨registry, pumps, heq, hpumps⟩ := dropPump_eq h name'
              simp only [react, heq] at hq
              cases hl' : h.held.get? name' with
              | none =>
                  simp only [hl'] at hq
                  exact .inl (hsame hq)
              | some l' =>
                  simp only [hl'] at hq
                  split at hq
                  · exact .inl (hsame hq)
                  · rcases Table.get?_of_put hq with ⟨rfl, rfl⟩ | ⟨-, hq⟩
                    · exact .inr (.inr ⟨hl', rfl⟩)
                    · exact .inl (hsame (hpumps name q hq))
          | sinkReceive name' =>
              simp only [react] at hq
              cases hq₀ : (h.pumps.get? name').filter (·.sink.receiving) with
              | none =>
                  simp only [hq₀] at hq
                  exact .inl (hsame hq)
              | some q₀ =>
                  simp only [hq₀] at hq
                  rcases Table.get?_of_put hq with ⟨rfl, rfl⟩ | ⟨-, hq⟩
                  · exact .inl ⟨q₀, (Option.filter_eq_some_iff.1 hq₀).1, rfl, rfl⟩
                  · exact .inl (hsame hq)
          | sinkDrop name' =>
              simp only [react, Table.get?_modify] at hq
              split at hq
              · obtain ⟨q₀, hq₀, rfl⟩ := Option.map_eq_some_iff.1 hq
                exact .inl ⟨q₀, hq₀, rfl, rfl⟩
              · exact .inl (hsame hq)
          | cancel name' =>
              simp only [react] at hq
              cases hq₀ : h.pumps.get? name' with
              | none =>
                  simp only [hq₀] at hq
                  exact .inl (hsame hq)
              | some q₀ =>
                  simp only [hq₀] at hq
                  split at hq
                  · exact .inl (hsame hq)
                  · rcases Table.get?_of_put hq with ⟨rfl, rfl⟩ | ⟨-, hq⟩
                    · exact .inl ⟨q₀, hq₀, rfl, rfl⟩
                    · exact .inl (hsame hq)
          | _ => simp [Piece.leaves] at hleaves
      | _ => simp [Piece.leaves] at hleaves

/-! ### The end of a stream -/

/-- Who waits for what comes from a listener: its holder, or a pump that has not ended. -/
def Awaits (h : Hub) (l : Listener) : Prop :=
  (∃ name, h.held.get? name = some l) ∨
    ∃ name q, h.pumps.get? name = some q ∧ q.running = true ∧ q.listener = l

theorem Awaits.handles (ha : h.Awaits l) : h.Handles l := by
  rcases ha with ⟨name, hl⟩ | ⟨name, q, hq, -, rfl⟩
  · exact handles_held name l hl
  · exact handles_pumped name q hq

theorem Tidy.holds_of_awaits (ht : h.Tidy) (ha : h.Awaits l) : h.registry.holds l.id = true := by
  rcases ha with ⟨name, hl⟩ | ⟨name, q, hq, hrunning, rfl⟩
  · exact ht.held name l hl
  · exact (ht.pumps name q hq).holds hrunning

/-- A listener that somebody waits for keeps its place in its room during a piece of work, unless
the piece undoes it or all rooms come to their end. -/
theorem InOrder.lists_piece (hi : h.InOrder) {p : Piece} (ha : h.Awaits l)
    (ha' : (h.piece p).Awaits l) (hm : (h.piece p).managed = true)
    (hlists : h.registry.lists l.room l.id = true) :
    (h.piece p).registry.lists l.room l.id = true ∨ h.Undoes p l := by
  obtain ⟨vs, subs, hk⟩ := hi.kept
  obtain ⟨c, hc⟩ := hi.tidy.known l ha.handles
  have hheld : c.receiving = true := hc.holds_eq.symm.trans (hi.tidy.holds_of_awaits ha)
  -- whoever waits for the listener still has it, so it has not been given up
  have hdrop : .drop l.id ∉ h.orders p := by
    have hholds := (hi.piece p).tidy.holds_of_awaits ha'
    rw [registry_piece] at hholds
    exact ((hc.holds_obeyAll hk.proper _).1 hholds).2
  by_cases hundone : ∃ o ∈ h.orders p, o.undoes l = true
  · obtain ⟨o, ho, hundoes⟩ := hundone
    rcases List.mem_append.1 ho with hgiven | hending
    · exact .inr (undoes_of_given hk ha.handles hgiven hundoes
        fun hmem => hdrop (List.mem_append_left _ hmem))
    · rw [ending, hm, Bool.not_true, Bool.and_false] at hending
      exact absurd hending (by simp)
  · refine .inl ?_
    rw [registry_piece, (hc.obeyAll hk.proper _).2, hlists, hheld, Bool.true_and,
      Bool.not_eq_true', Order.struck_of_held]
    refine ⟨fun o ho => Bool.eq_false_iff.2 fun hundoes => hundone ⟨o, ho, hundoes⟩,
      fun earlier later heq => absurd ?_ hdrop⟩
    rw [heq]
    exact List.mem_append_right _ List.mem_cons_self

/-- Whoever waits for a listener after a piece of work did so before, or the listener has just been
opened and its room lists it. -/
theorem InOrder.awaits_piece (hi : h.InOrder) {p : Piece} (ha : (h.piece p).Awaits l) :
    h.Awaits l ∨ (h.piece p).registry.lists l.room l.id = true := by
  obtain ⟨vs, subs, hk⟩ := hi.kept
  rcases ha with ⟨name, hl⟩ | ⟨name, q, hq, hrunning, rfl⟩
  · rcases held_of_piece hl with hl | ⟨room, g, rfl, hopen⟩
    · exact .inl (.inl ⟨name, hl⟩)
    · obtain ⟨rfl, rfl⟩ := openListener_some hopen
      have hlisted := (known_openListener hk.proper room).listed rfl rfl
      refine .inr ?_
      simp only [Hub.piece, Hub.react, hopen, dropHeld]
      split <;> exact hlisted
  · rcases pumps_piece hq with ⟨q₀, hq₀, hlistener, hfinish⟩ | ⟨q₀, rfl, hq₀, rfl⟩ | ⟨hl, -⟩
    · exact .inl (.inr ⟨name, q₀, hq₀, by rwa [Pump.running, ← hfinish], hlistener.symm⟩)
    · refine .inl (.inr ⟨name, q₀, hq₀, ?_, (Pump.touched_run hk.proper.sound q₀).1.symm⟩)
      cases hended : q₀.running with
      | true => rfl
      | false =>
          rw [Pump.run, Pump.runFor_of_ended hended, hended] at hrunning
          exact absurd hrunning Bool.false_ne_true
    · exact .inl (.inl ⟨name, hl⟩)

/-- A pump that has reached the end of its stream after a piece of work had done so before, or it
ran and its room did not list its listener. -/
theorem InOrder.finish_piece (hi : h.InOrder) {p : Piece} {name : Label} {q : Pump}
    (hq : (h.piece p).pumps.get? name = some q) (hend : q.finish = some .roomClosed) :
    (∃ q₀, h.pumps.get? name = some q₀ ∧ q.listener = q₀.listener ∧
        q₀.finish = some .roomClosed) ∨
      (h.Awaits q.listener ∧ h.registry.lists q.listener.room q.listener.id = false) := by
  obtain ⟨vs, subs, hk⟩ := hi.kept
  rcases pumps_piece hq with ⟨q₀, hq₀, hlistener, hfinish⟩ | ⟨q₀, rfl, hq₀, rfl⟩ | ⟨-, hfinish⟩
  · exact .inl ⟨q₀, hq₀, hlistener, hfinish.symm.trans hend⟩
  · have hlistener := (Pump.touched_run hk.proper.sound q₀).1
    cases hrunning : q₀.running with
    | false =>
        rw [Pump.run, Pump.runFor_of_ended hrunning] at hend
        exact .inl ⟨q₀, hq₀, hlistener, hend⟩
    | true =>
        refine .inr ?_
        rw [hlistener]
        refine ⟨.inr ⟨name, q₀, hq₀, hrunning, rfl⟩, ?_⟩
        cases hlists : h.registry.lists q₀.listener.room q₀.listener.id with
        | false => rfl
        | true =>
            obtain ⟨c, hc⟩ := hi.tidy.known _ (handles_pumped name q₀ hq₀)
            have hfinish : q₀.finish ≠ some .roomClosed := by
              rw [Option.isNone_iff_eq_none.1 hrunning]
              simp
            exact absurd hend (Pump.finish_runFor_of_listed hc hk.proper hlists hfinish _)
  · rw [hfinish] at hend
    simp at hend

/-- A listener was taken out of its room, against whoever held it, by one of a series of pieces. -/
def Undone (h : Hub) (ps : List Piece) (l : Listener) : Prop :=
  ∃ before p later, ps = before ++ p :: later ∧
    (h.pieces before).registry.lists l.room l.id = true ∧ (h.pieces before).Undoes p l

theorem Undone.append {ps : List Piece} (hu : h.Undone ps l) (p : Piece) :
    h.Undone (ps ++ [p]) l := by
  obtain ⟨before, q, later, rfl, hundone⟩ := hu
  exact ⟨before, q, later ++ [p], by simp, hundone⟩

/-- As long as commands are handled, a listener that somebody waits for is on the list of its room
unless it was undone, and so was that of every pump that has reached the end of its stream. -/
structure Streams (h : Hub) (ps : List Piece) : Prop where
  awaited : ∀ l, (h.pieces ps).Awaits l →
    (h.pieces ps).registry.lists l.room l.id = true ∨ h.Undone ps l
  finished : ∀ name q, (h.pieces ps).pumps.get? name = some q → q.finish = some .roomClosed →
    h.Undone ps q.listener

theorem Streams.piece {ps : List Piece} (hs : h.Streams ps) (hi : (h.pieces ps).InOrder)
    {p : Piece} (hm : ((h.pieces ps).piece p).managed = true) : h.Streams (ps ++ [p]) := by
  have hpieces : h.pieces (ps ++ [p]) = (h.pieces ps).piece p := by
    rw [pieces_append, pieces_cons, pieces_nil]
  constructor
  · intro l ha'
    rw [hpieces] at ha' ⊢
    rcases hi.awaits_piece ha' with ha | hlisted
    · rcases hs.awaited l ha with hlists | hundone
      · exact (hi.lists_piece ha ha' hm hlists).imp id fun hundoes =>
          ⟨ps, p, [], rfl, hlists, hundoes⟩
      · exact .inr (hundone.append p)
    · exact .inl hlisted
  · intro name q hq hend
    rw [hpieces] at hq
    rcases hi.finish_piece hq hend with ⟨q₀, hq₀, hlistener, hend₀⟩ | ⟨ha, hlists⟩
    · rw [hlistener]
      exact (hs.finished name q₀ hq₀ hend₀).append p
    · refine ((hs.awaited _ ha).resolve_left ?_).append p
      rw [hlists]
      exact Bool.false_ne_true

theorem streams_new (tuning : Tuning) (outages : Outages) (gated : Bool) (wall : Instant)
    (ps : List Piece) (hm : ((new tuning outages gated wall).pieces ps).managed = true) :
    (new tuning outages gated wall).Streams ps := by
  induction ps using List.reverseRecOn with
  | nil =>
      refine ⟨fun l ha => ?_, fun name q hq => ?_⟩
      · rcases ha with ⟨name, hl⟩ | ⟨name, q, hq, -⟩
        · simp [new] at hl
        · simp [new] at hq
      · simp [new] at hq
  | append_singleton ps p ih =>
      have hpieces : (new tuning outages gated wall).pieces (ps ++ [p]) =
          ((new tuning outages gated wall).pieces ps).piece p := by
        rw [pieces_append, pieces_cons, pieces_nil]
      rw [hpieces] at hm
      have hbefore : ((new tuning outages gated wall).pieces ps).managed = true := by
        cases hunmanaged : ((new tuning outages gated wall).pieces ps).managed with
        | true => rfl
        | false => exact ((ties_piece _ p).managed_eq_false hunmanaged).symm.trans hm
      exact (ih hbefore).piece ((inOrder_new tuning outages gated wall).pieces ps) hm

/-- As long as commands are handled, a pump that has ended as if its room were closed had a listener
that was taken out of its room after it had been opened: the room was deleted, or somebody closed
the listener under its name. Which of the two it was cannot be told from the end: a pump that only
waits for its listener comes to this end after either of them. -/
theorem stream_end_undone (tuning : Tuning) (outages : Outages) (gated : Bool) (wall : Instant)
    (ps : List Piece) :
    let start := new tuning outages gated wall
    let h := start.pieces ps
    (h.managed = true → ∀ name q, h.pumps.get? name = some q → q.finish = some .roomClosed →
      start.Undone ps q.listener) ∧
    ∀ name q, h.settle.pumps.get? name = some q → q.running = true → q.held = none →
      let r := h.settle.registry
      q.Ends (r.delete q.listener.room).2 .roomClosed ∧
        q.Ends (r.closeListener q.listener.room q.listener.id) .roomClosed := by
  intro start h
  refine ⟨fun hm name q => (streams_new tuning outages gated wall ps hm).finished name q,
    fun name q hq hrunning hheld => ?_⟩
  have hi := (inOrder_new tuning outages gated wall).pieces ps
  obtain ⟨hproper, htidy, hrests, c, hk⟩ := hi.settled_pump hq
  have hends := fun o => htidy.ends_undone (o := o) hk hproper hrests hrunning hheld
  exact ⟨hends (.delete q.listener.room) (by simp [Order.undoes, Order.ends]),
    hends (.close q.listener.room q.listener.id) (by simp [Order.undoes])⟩

/-- A pump's listener is closed under its name. -/
def unsubscribed : List Moment :=
  [Event.listen "a" ⟨"r"⟩, .pump "a" 8 "", .close "a" none].map (Moment.mk default)

/-- The pump while it waits. -/
def unsubscribedPump : Pump := Pump.new ⟨⟨0⟩, ⟨"r"⟩⟩ "" 8

theorem stream_end_undone_unsubscribed :
    let start := new Tuning.default Outages.none false default
    let waiting := (start.through (unsubscribed.take 2)).settle
    start.Undone (start.scripts unsubscribed) ⟨⟨0⟩, ⟨"r"⟩⟩ ∧
      waiting.pumps.get? "a" = some unsubscribedPump ∧
      unsubscribedPump.Ends (waiting.registry.delete ⟨"r"⟩).2 .roomClosed ∧
      unsubscribedPump.Ends (waiting.registry.closeListener ⟨"r"⟩ ⟨0⟩) .roomClosed := by
  intro start waiting
  have hthrough : ∀ ms, start.pieces (start.scripts ms) = start.through ms :=
    fun ms => pieces_scripts start ms
  have hm : (start.pieces (start.scripts unsubscribed)).managed = true := by
    rw [hthrough]
    decide +kernel
  have hended : (start.pieces (start.scripts unsubscribed)).pumps.get? "a" =
      some { unsubscribedPump with
        sink := unsubscribedPump.sink.dropSender
        finish := some .roomClosed } := by
    rw [hthrough]
    decide +kernel
  have hwaits : waiting.pumps.get? "a" = some unsubscribedPump := by decide +kernel
  obtain ⟨hundone, -⟩ := stream_end_undone Tuning.default Outages.none false default
    (start.scripts unsubscribed)
  obtain ⟨-, halike⟩ := stream_end_undone Tuning.default Outages.none false default
    (start.scripts (unsubscribed.take 2))
  refine ⟨hundone hm "a" _ hended rfl, hwaits, ?_⟩
  rw [show new Tuning.default Outages.none false default = start from rfl, hthrough] at halike
  exact halike "a" unsubscribedPump hwaits rfl rfl

/-- The pump has ended as if its room were closed, and still the room is there and nobody has
deleted a room. -/
theorem ended_in_living_room :
    let start := new Tuning.default Outages.none false default
    let h := start.through unsubscribed
    (h.pumps.get? "a").map Pump.finish = some (some .roomClosed) ∧ h.managed = true ∧
      h.registry.count ⟨"r"⟩ = some 0 ∧
      ∀ d ∈ start.log (start.scripts unsubscribed), d.deleted? = none := by
  decide +kernel

end Hub

end ChatServer
