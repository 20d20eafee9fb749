import ChatServer.Proofs.Room.Incarnation

/-!
What a pump does to the rooms, and what becomes of it. A pump takes what its listener receives and,
when it ends, gives its listener up, after taking it out of its room unless the room has come to its
end; so a pump that runs holds its listener, and one that has ended leaves nobody registered.
-/

namespace ChatServer

namespace Registry

/-- A listener is taken out of its room and given up. -/
def releaseOrders : Option Listener → List Order
  | none => []
  | some l => [.close l.room l.id, .drop l.id]

/-- A listener is given up without a word to its room. -/
def dropOrders : Option Listener → List Order
  | none => []
  | some l => [.drop l.id]

end Registry

open Registry

namespace Pump

/-- What a pump that ends does to the rooms. -/
def endOrders (p : Pump) : StreamEnd → List Order
  | .roomClosed => dropOrders (some p.listener)
  | _ => releaseOrders (some p.listener)

/-- What a move of a pump does to the rooms, `after` being the pump after it. -/
def turnOrders (p after : Pump) : List Order :=
  match after.finish with
  | some how => p.endOrders how
  | none => if p.held.isNone then [.receive p.listener.id] else []

/-- What at most `fuel` moves of a pump do to the rooms. -/
def ordersFor (p : Pump) (r : Registry) : Nat → List Order
  | 0 => []
  | fuel + 1 =>
    match p.turn r true with
    | none => []
    | some (after, r') => p.turnOrders after ++ after.ordersFor r' fuel

/-- What a pump does to the rooms that runs until it can only wait. -/
def orders (p : Pump) (r : Registry) : List Order := p.ordersFor r (2 * p.backlog r + 2)

theorem registry_stop (p : Pump) (r : Registry) (how : StreamEnd) :
    (p.stop r how).2 = r.obeyAll (p.endOrders how) := by
  cases how <;> rfl

theorem registry_turn {p p' : Pump} {r r' : Registry} {signalFirst : Bool}
    (h : p.turn r signalFirst = some (p', r')) : r' = r.obeyAll (p.turnOrders p') := by
  obtain ⟨hrunning, ⟨payload, hheld, -, rfl, rfl⟩ | ⟨payload, hheld, hreceive, rfl⟩ |
    ⟨how, hstop, -⟩⟩ := turn_cases h
  · have hfinish : p.finish = none := Option.isNone_iff_eq_none.1 hrunning
    simp [turnOrders, hfinish, hheld]
  · have hfinish : p.finish = none := Option.isNone_iff_eq_none.1 hrunning
    simp [turnOrders, hfinish, hheld, obey, hreceive]
  · obtain ⟨rfl, rfl⟩ := Prod.mk.inj hstop
    exact registry_stop p r how

theorem registry_runFor (p : Pump) (r : Registry) (fuel : Nat) :
    (p.runFor r fuel).2 = r.obeyAll (p.ordersFor r fuel) := by
  induction fuel generalizing p r with
  | zero => rfl
  | succ fuel ih =>
      rw [runFor, ordersFor]
      cases hturn : p.turn r true with
      | none => rfl
      | some moved =>
          obtain ⟨p', r'⟩ := moved
          rw [obeyAll_append, ← registry_turn hturn]
          exact ih p' r'

theorem registry_run (p : Pump) (r : Registry) : (p.run r).2 = r.obeyAll (p.orders r) :=
  registry_runFor p r _

variable {p : Pump} {r : Registry} {c : Channel Payload} {os : List Order}

/-- A pump takes from its own listener only and gives up no other. -/
theorem listener_of_takes (h : r.Sound) {fuel : Nat} {o : Order} (ho : o ∈ p.ordersFor r fuel)
    {id : ListenerId} (htakes : o.takes id = true) : id = p.listener.id := by
  induction fuel generalizing p r with
  | zero => exact absurd ho List.not_mem_nil
  | succ fuel ih =>
      rw [ordersFor] at ho
      cases hturn : p.turn r true with
      | none =>
          rw [hturn] at ho
          exact absurd ho List.not_mem_nil
      | some moved =>
          obtain ⟨p', r'⟩ := moved
          obtain ⟨hlistener, htouched⟩ := touched_turn h hturn
          rw [hturn] at ho
          rcases List.mem_append.1 ho with hfirst | hrest
          · unfold turnOrders at hfirst
            split at hfirst
            · unfold endOrders at hfirst
              split at hfirst <;> simp [dropOrders, releaseOrders] at hfirst <;>
                rcases hfirst with rfl | rfl <;> simp_all [Order.takes]
            · split at hfirst
              · obtain rfl := List.mem_singleton.1 hfirst
                simpa [Order.takes, eq_comm] using htakes
              · simp at hfirst
          · rw [← hlistener]
            exact ih htouched.grown.sound hrest

/-- A pump that runs holds its listener; one that has ended has nothing in hand, and its listener is
listed nowhere. No more is in the sink than it has room for. -/
structure Tidy (p : Pump) (r : Registry) : Prop where
  holds : p.running = true → r.holds p.listener.id = true
  ended : p.running = false → p.held = none ∧ ∀ room, r.lists room p.listener.id = false
  bounded : p.sink.Bounded

theorem tidy_new {l : Listener} (hholds : r.holds l.id = true) (heading : String) {capacity : Nat}
    (hcapacity : Channel.isCapacity capacity = true) : (new l heading capacity).Tidy r :=
  ⟨fun _ => hholds, fun hended => by simp [running, new] at hended, Channel.bounded_new hcapacity⟩

/-- A running pump is exchanged for one with the same listener that runs as well. -/
theorem Tidy.of_running {q : Pump} (ht : p.Tidy r) (hrunning : p.running = true)
    (hlistener : q.listener = p.listener) (hfinish : q.finish = p.finish)
    (hbounded : q.sink.Bounded) : q.Tidy r := by
  have hq : q.running = true := by rwa [running, hfinish]
  refine ⟨fun _ => hlistener ▸ ht.holds hrunning, fun hended => ?_, hbounded⟩
  rw [hq] at hended
  simp at hended

/-- A pump is left alone by orders that do not give its listener up. -/
theorem Tidy.obeyAll (ht : p.Tidy r) (hk : r.Known p.listener c) (h : r.Proper)
    (hdrop : .drop p.listener.id ∉ os) : p.Tidy (r.obeyAll os) where
  holds hrunning := (hk.holds_obeyAll h os).2 ⟨ht.holds hrunning, hdrop⟩
  ended hended := by
    obtain ⟨hheld, hnone⟩ := ht.ended hended
    exact ⟨hheld, hk.lists_obeyAll_of_none h (hnone _) os⟩
  bounded := ht.bounded

/-- Whatever makes a pump end, nobody lists its listener afterwards. -/
theorem tidy_stop (ht : p.Tidy r) (hk : r.Known p.listener c) (h : r.Proper) {how : StreamEnd}
    (hcause : p.Cause r how) : (p.stop r how).1.Tidy (p.stop r how).2 := by
  refine ⟨fun hrunning => by simp [running, stop] at hrunning, fun _ => ⟨rfl, ?_⟩,
    ht.bounded.dropSender⟩
  rw [registry_stop]
  cases how with
  | roomClosed =>
      -- the listener has found the end of its stream, so its room lists it no longer
      have hend := hcause.2
      rw [receive, hk.channel] at hend
      have hsending := (Channel.receive_eq_disconnected_iff.1 hend).2
      refine hk.lists_obeyAll_of_none h ?_ _
      cases hlists : r.lists p.listener.room p.listener.id with
      | false => rfl
      | true =>
          rw [hk.sender hlists] at hsending
          exact hsending
  | cancelled | consumerGone =>
      refine hk.lists_of_undone h ⟨.close p.listener.room p.listener.id, ?_, ?_⟩
      · exact List.mem_cons_self
      · simp [Order.undoes]

theorem tidy_turn {p' : Pump} {r' : Registry} (ht : p.Tidy r) (hk : r.Known p.listener c)
    (h : r.Proper) (hturn : p.turn r true = some (p', r')) : p'.Tidy r' := by
  obtain ⟨hrunning, ⟨payload, hheld, -, rfl, rfl⟩ | ⟨payload, hheld, hreceive, rfl⟩ |
    ⟨how, hstop, hcause⟩⟩ := turn_cases hturn
  · exact ht.of_running hrunning rfl rfl (ht.bounded.offer payload)
  · have hkept : p.Tidy (r.obeyAll [.receive p.listener.id]) := ht.obeyAll hk h (by simp)
    rw [obeyAll_cons, obeyAll_nil, obey, hreceive] at hkept
    exact hkept.of_running hrunning rfl rfl ht.bounded
  · obtain ⟨rfl, rfl⟩ := Prod.mk.inj hstop
    exact tidy_stop ht hk h hcause

theorem tidy_runFor (ht : p.Tidy r) (hk : r.Known p.listener c) (h : r.Proper) (fuel : Nat) :
    (p.runFor r fuel).1.Tidy (p.runFor r fuel).2 := by
  induction fuel generalizing p r c with
  | zero => exact ht
  | succ fuel ih =>
      rw [runFor]
      cases hturn : p.turn r true with
      | none => exact ht
      | some moved =>
          obtain ⟨p', r'⟩ := moved
          have hlistener := (touched_turn h.sound hturn).1
          obtain ⟨⟨c', hk', -⟩, -⟩ := hk.obeyAll h (p.turnOrders p')
          have hproper := proper_obeyAll h (p.turnOrders p')
          rw [← registry_turn hturn] at hk' hproper
          exact ih (tidy_turn ht hk h hturn) (hlistener ▸ hk') hproper

theorem tidy_run (ht : p.Tidy r) (hk : r.Known p.listener c) (h : r.Proper) :
    (p.run r).1.Tidy (p.run r).2 :=
  tidy_runFor ht hk h _

/-! ### How a pump ends -/

/-- Run until it can only wait, a pump comes to this end, and nobody lists its listener any more. -/
def Ends (p : Pump) (r : Registry) (how : StreamEnd) : Prop :=
  (p.run r).1.finish = some how ∧ ∀ room, (p.run r).2.lists room p.listener.id = false

namespace Tidy

theorem unlisted {how : StreamEnd} (ht : p.Tidy r) (hfinish : p.finish = some how) :
    ∀ room, r.lists room p.listener.id = false :=
  (ht.ended (by rw [running, hfinish]; rfl)).2

theorem with_sink (ht : p.Tidy r) {sink : Channel Payload} (h : sink.Bounded) :
    Tidy { p with sink } r :=
  ⟨ht.holds, ht.ended, h⟩

theorem ends (ht : p.Tidy r) (hk : r.Known p.listener c) (h : r.Proper) {how : StreamEnd}
    (hfinish : (p.run r).1.finish = some how) : p.Ends r how := by
  refine ⟨hfinish, ?_⟩
  rw [← (touched_run h.sound p).1]
  exact (tidy_run ht hk h).unlisted hfinish

end Tidy

/-- A pump that ends by its first move. -/
theorem runFor_of_turn_stop {how : StreamEnd} (hturn : p.turn r true = some (p.stop r how))
    (fuel : Nat) : p.runFor r (fuel + 1) = p.stop r how := by
  have hrests : (p.stop r how).1.turn (p.stop r how).2 true = none :=
    turn_eq_none_iff.2 (.inl rfl)
  cases fuel with
  | zero => simp only [runFor, hturn]
  | succ fuel => simp only [runFor, hturn, hrests]

/-- A pump with a payload in hand that finds its consumer gone ends. -/
theorem turn_of_gone (hrunning : p.running = true) {payload : Payload}
    (hheld : p.held = some payload) (hgone : p.sink.delivery = .gone) :
    p.turn r true = some (p.stop r .consumerGone) := by
  simp only [turn, hrunning, hheld, hgone, Bool.not_true, Bool.false_eq_true, if_false]

/-- A pump with a payload in hand passes it on when there is room for it. -/
theorem turn_of_accepted (hrunning : p.running = true) {payload : Payload}
    (hheld : p.held = some payload) (haccepted : p.sink.delivery = .accepted) :
    p.turn r true = some ({ p with sink := p.sink.offer payload, held := none }, r) := by
  simp only [turn, hrunning, hheld, haccepted, Bool.not_true, Bool.false_eq_true, if_false]

/-- With nothing in hand a pump that was given the signal ends, whatever it finds. -/
theorem turn_of_signalled (hrunning : p.running = true) (hheld : p.held = none)
    (hsignal : p.signalled = true) : p.turn r true = some (p.stop r .cancelled) := by
  simp only [turn, hrunning, hheld, hsignal, Bool.not_true, Bool.false_eq_true, if_false,
    Bool.and_self, if_true]
  rcases r.receive p.listener.id with ⟨got, s⟩
  cases got <;> rfl

/-! ### The signal -/

namespace Tidy

/-- At rest a pump that was given the signal has ended, unless its sink is full. -/
theorem running_iff_of_signalled (ht : p.Tidy r) (hrests : p.Rests r)
    (hsignal : p.signalled = true) :
    p.running = true ↔ p.held.isSome = true ∧ p.sink.delivery = .full := by
  constructor
  · intro hrunning
    rcases hrests.waits hrunning with hfull | ⟨-, hnone, -⟩
    · exact hfull
    · rw [hsignal] at hnone
      simp at hnone
  · rintro ⟨hheld, -⟩
    cases hrunning : p.running with
    | true => rfl
    | false =>
        rw [(ht.ended hrunning).1] at hheld
        simp at hheld

/-- A pump that waits for its full sink obeys the signal when its consumer has taken something. -/
theorem ends_receiveSink (ht : p.Tidy r) (hk : r.Known p.listener c) (h : r.Proper)
    (hrests : p.Rests r) (hrunning : p.running = true) (hsignal : p.signalled = true) :
    Ends { p with sink := p.sink.receive.2 } r .cancelled := by
  obtain ⟨hheld, hfull⟩ := (ht.running_iff_of_signalled hrests hsignal).1 hrunning
  obtain ⟨payload, hpayload⟩ := Option.isSome_iff_exists.1 hheld
  have hroom := ht.bounded.delivery_receive hfull
  refine (ht.with_sink ht.bounded.receive).ends hk h ?_
  have hpass := turn_of_accepted (r := r) (p := { p with sink := p.sink.receive.2 }) hrunning
    hpayload hroom
  have hstop := turn_of_signalled (r := r)
    (p := { p with sink := p.sink.receive.2.offer payload, held := none }) hrunning rfl hsignal
  rw [run_eq, runFor, hpass]
  dsimp only
  rw [runFor_of_turn_stop hstop]
  rfl

end Tidy

/-! ### A consumer that goes away -/

namespace Tidy

/-- A pump with a payload in hand ends when its consumer goes. -/
theorem ends_dropSink (ht : p.Tidy r) (hk : r.Known p.listener c) (h : r.Proper)
    (hrunning : p.running = true) (hheld : p.held.isSome = true) :
    Ends { p with sink := p.sink.dropReceiver } r .consumerGone := by
  obtain ⟨payload, hpayload⟩ := Option.isSome_iff_exists.1 hheld
  have hstop := turn_of_gone (r := r) (p := { p with sink := p.sink.dropReceiver }) hrunning
    hpayload rfl
  refine (ht.with_sink ht.bounded.dropReceiver).ends hk h ?_
  rw [run_eq, runFor_of_turn_stop hstop]
  rfl

/-- A pump at rest with nothing in hand waits for its listener, which is listed in its room and has
nothing to give. -/
theorem idle (ht : p.Tidy r) (hk : r.Known p.listener c) (hrests : p.Rests r)
    (hrunning : p.running = true) (hheld : p.held = none) :
    p.signalled = false ∧ c.buffer = [] ∧ c.receiving = true ∧
      r.lists p.listener.room p.listener.id = true := by
  have hreceiving : c.receiving = true := by
    rw [← hk.holds_eq]
    exact ht.holds hrunning
  rcases hrests.waits hrunning with ⟨hsome, -⟩ | ⟨-, hsignal, hempty⟩
  · rw [hheld] at hsome
    simp at hsome
  · rw [receive, hk.channel] at hempty
    obtain ⟨hbuffer, hsending⟩ := Channel.receive_eq_empty_iff.1 hempty
    exact ⟨hsignal, hbuffer, hreceiving, hk.listed hreceiving hsending⟩

end Tidy

/-- A pump at rest that runs without a consumer has nothing in hand. -/
theorem Rests.held_of_gone (hrests : p.Rests r) (hgone : p.sink.receiving = false)
    (hrunning : p.running = true) : p.held = none := by
  rcases hrests.waits hrunning with ⟨-, hfull⟩ | ⟨hheld, -, -⟩
  · rw [(Channel.delivery_eq_full_iff.1 hfull).1] at hgone
    simp at hgone
  · exact hheld

/-- Losing its consumer does not wake a pump that waits for its listener. -/
theorem Rests.dropSink (hrests : p.Rests r) (hheld : p.held = none) :
    Rests { p with sink := p.sink.dropReceiver } r := by
  rcases turn_eq_none_iff.1 hrests with hended | ⟨hsome, -⟩ | hwaits
  · exact turn_eq_none_iff.2 (.inl hended)
  · rw [hheld] at hsome
    simp at hsome
  · exact turn_eq_none_iff.2 (.inr (.inr hwaits))

/-- A pump that waits for its listener finds its consumer gone when the next payload comes. -/
theorem Tidy.ends_publish (ht : p.Tidy r) (hk : r.Known p.listener c) (h : r.Proper)
    (hrests : p.Rests r) (hrunning : p.running = true) (hheld : p.held = none)
    (hgone : p.sink.receiving = false) (line : Payload) :
    p.Ends (r.publish p.listener.room line) .consumerGone := by
  obtain ⟨hsignal, hempty, hreceiving, hlists⟩ := ht.idle hk hrests hrunning hheld
  have hpublish : r.publish p.listener.room line = r.obeyAll [.publish p.listener.room line] := rfl
  obtain ⟨⟨c', hk', -⟩, -⟩ := hk.obeyAll h [.publish p.listener.room line]
  have ht' : p.Tidy (r.obeyAll [.publish p.listener.room line]) := ht.obeyAll hk h (by simp)
  have hproper := proper_obeyAll h [.publish p.listener.room line]
  rw [← hpublish] at hk' ht' hproper
  refine ht'.ends hk' hproper ?_
  have hchannel := hk.channel_obey h (.publish p.listener.room line)
  have hroom : 0 < c.capacity := by
    rw [hk.capacity]
    exact h.capacity
  have hoffer : c.offer line = { c with buffer := [line] } := by
    have hdelivery : c.delivery = .accepted := by
      simp [Channel.delivery, hreceiving, hempty, Nat.not_le.2 hroom]
    simp [Channel.offer, hdelivery, hempty]
  simp only [obey, Order.treats, hlists, hoffer, Bool.true_and, decide_true, if_true] at hchannel
  have hbacklog : p.backlog (r.publish p.listener.room line) = 1 := by
    simp [backlog, hchannel]
  -- it takes the payload, and has it in hand when it looks at its sink
  have htake : p.turn (r.publish p.listener.room line) true =
      some ({ p with held := some (p.heading ++ line) },
        ((r.publish p.listener.room line).receive p.listener.id).2) := by
    simp only [turn, hrunning, hheld, hsignal, receive, hchannel, Channel.receive, Bool.not_true,
      Bool.false_eq_true, if_false, Bool.false_and]
  have hturn := turn_of_gone (p := { p with held := some (p.heading ++ line) })
    (r := ((r.publish p.listener.room line).receive p.listener.id).2) hrunning rfl
    (show p.sink.delivery = .gone by simp [Channel.delivery, hgone])
  rw [run_eq, hbacklog, runFor, htake]
  dsimp only
  rw [runFor_of_turn_stop hturn]
  rfl

end Pump

end ChatServer
