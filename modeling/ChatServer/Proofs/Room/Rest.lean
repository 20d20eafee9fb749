import ChatServer.Proofs.Room.Sound
import ChatServer.Room.Pump

/-!
A pump runs until it can only wait. Each of its moves takes something off its load, which is never
more than the moves it is given; and whether it can move depends, besides itself, on its listener's
channel only.
-/

namespace ChatServer.Pump

/-- The number of payloads that wait for a pump. -/
def backlog (p : Pump) (r : Registry) : Nat :=
  ((r.channel? p.listener.id).map fun c => c.buffer.length).getD 0

/-- A bound on the moves that a pump can make: two for each payload that waits, one for a payload
in hand and one to end. -/
def load (p : Pump) (r : Registry) : Nat :=
  if p.running then 2 * p.backlog r + (if p.held.isSome then 1 else 0) + 1 else 0

theorem run_eq (p : Pump) (r : Registry) : p.run r = p.runFor r (2 * p.backlog r + 2) := rfl

/-- Nothing but waiting is left to a pump. -/
def Rests (p : Pump) (r : Registry) : Prop := p.turn r true = none

theorem load_stop (p : Pump) (r s : Registry) (how : StreamEnd) :
    (p.stop r how).1.load s = 0 := rfl

/-- What makes a pump end. -/
def Cause (p : Pump) (r : Registry) : StreamEnd → Prop
  | .roomClosed => p.held = none ∧ (r.receive p.listener.id).1 = .disconnected
  | .cancelled => p.held = none ∧ p.signalled = true
  | .consumerGone => p.held.isSome = true ∧ p.sink.delivery = .gone

/-- A move of a pump, whichever it takes first: a payload in hand goes into the sink, one that waits
is taken in hand, or the pump ends. -/
theorem turn_cases {p p' : Pump} {r r' : Registry} {signalFirst : Bool}
    (h : p.turn r signalFirst = some (p', r')) :
    p.running = true ∧
      ((∃ payload, p.held = some payload ∧ p.sink.delivery = .accepted ∧
          p' = { p with sink := p.sink.offer payload, held := none } ∧ r' = r) ∨
        (∃ payload, p.held = none ∧ r.receive p.listener.id = (.item payload, r') ∧
          p' = { p with held := some (p.heading ++ payload) }) ∨
        ∃ how, (p', r') = p.stop r how ∧ p.Cause r how) := by
  unfold turn at h
  cases hrunning : p.running with
  | false => simp [hrunning] at h
  | true =>
      refine ⟨rfl, ?_⟩
      simp only [hrunning, Bool.not_true, Bool.false_eq_true, if_false] at h
      cases hheld : p.held with
      | some payload =>
          rw [hheld] at h
          dsimp only at h
          cases hdelivery : p.sink.delivery with
          | accepted =>
              rw [hdelivery] at h
              obtain ⟨rfl, rfl⟩ := Prod.mk.inj (Option.some.inj h)
              exact .inl ⟨payload, rfl, rfl, rfl, rfl⟩
          | full => simp [hdelivery] at h
          | gone =>
              rw [hdelivery] at h
              exact .inr (.inr
                ⟨.consumerGone, (Option.some.inj h).symm, by simp [hheld], hdelivery⟩)
      | none =>
          rw [hheld] at h
          dsimp only at h
          -- with nothing in hand, a pump that sees the signal ends whatever else it finds
          have hsignal : p.signalled = true →
              some (p', r') = some (p.stop r .cancelled) → ∃ how, (p', r') = p.stop r how ∧
                p.Cause r how := fun hsignalled hstop =>
            ⟨.cancelled, Option.some.inj hstop, hheld, hsignalled⟩
          rcases hreceive : r.receive p.listener.id with ⟨got, s⟩
          rw [hreceive] at h
          cases got with
          | item payload =>
              dsimp only at h
              split at h
              case isTrue hsignalled =>
                exact .inr (.inr (hsignal (Bool.and_eq_true_iff.1 hsignalled).1 h.symm))
              case isFalse =>
                obtain ⟨rfl, rfl⟩ := Prod.mk.inj (Option.some.inj h)
                exact .inr (.inl ⟨payload, rfl, rfl, rfl⟩)
          | empty =>
              dsimp only at h
              split at h
              case isTrue hsignalled =>
                exact .inr (.inr (hsignal hsignalled h.symm))
              case isFalse => simp at h
          | disconnected =>
              dsimp only at h
              split at h
              case isTrue hsignalled =>
                exact .inr (.inr (hsignal (Bool.and_eq_true_iff.1 hsignalled).1 h.symm))
              case isFalse =>
                exact .inr (.inr ⟨.roomClosed, (Option.some.inj h).symm, hheld, by rw [hreceive]⟩)

/-- Whichever it would take first, a pump that cannot move has ended, or waits with a payload in
hand for its full sink, or waits for its listener without having been given the signal. -/
theorem turn_eq_none_iff {p : Pump} {r : Registry} {signalFirst : Bool} :
    p.turn r signalFirst = none ↔ p.running = false ∨
      (p.held.isSome = true ∧ p.sink.delivery = .full) ∨
      (p.held = none ∧ p.signalled = false ∧ (r.receive p.listener.id).1 = .empty) := by
  unfold turn
  cases hrunning : p.running with
  | false => simp
  | true =>
      simp only [Bool.not_true, Bool.false_eq_true, if_false, Bool.true_eq_false, false_or]
      cases hheld : p.held with
      | some payload => cases p.sink.delivery <;> simp
      | none =>
          rcases r.receive p.listener.id with ⟨got, s⟩
          cases got with
          | empty => cases p.signalled <;> simp
          | item payload | disconnected =>
              dsimp only
              split <;> simp

/-- A pump at rest that runs waits for its sink or for its listener. -/
theorem Rests.waits {p : Pump} {r : Registry} (hrests : p.Rests r) (hrunning : p.running = true) :
    (p.held.isSome = true ∧ p.sink.delivery = .full) ∨
      (p.held = none ∧ p.signalled = false ∧ (r.receive p.listener.id).1 = .empty) :=
  (turn_eq_none_iff.1 hrests).resolve_left (by simp [hrunning])

/-- A payload that is received no longer waits. -/
theorem backlog_receive {p : Pump} {r r' : Registry} {payload : Payload}
    (h : r.receive p.listener.id = (.item payload, r')) : p.backlog r' + 1 = p.backlog r := by
  unfold Registry.receive at h
  unfold backlog
  cases hc : r.channel? p.listener.id with
  | none => simp [hc] at h
  | some c =>
      rw [hc] at h
      dsimp only at h
      unfold Channel.receive at h
      cases hbuffer : c.buffer with
      | nil =>
          rw [hbuffer] at h
          cases hs : c.sending <;> simp [hs] at h
      | cons q rest =>
          rw [hbuffer] at h
          obtain ⟨-, rfl⟩ := Prod.mk.inj h
          simp [Registry.channel?, hbuffer]

theorem load_turn {p p' : Pump} {r r' : Registry} (h : p.turn r true = some (p', r')) :
    p'.load r' < p.load r := by
  obtain ⟨hrunning, ⟨payload, hheld, -, rfl, rfl⟩ | ⟨payload, hheld, hreceive, rfl⟩ |
    ⟨how, hstop, -⟩⟩ := turn_cases h
  · -- the payload in hand goes into the sink
    have hrunning' : Pump.running { p with sink := p.sink.offer payload, held := none } = true :=
      hrunning
    have hbacklog : Pump.backlog { p with sink := p.sink.offer payload, held := none } r' =
      p.backlog r' := rfl
    simp [load, hrunning, hrunning', hheld, hbacklog]
  · -- one payload less waits, and one more is in hand
    have hrunning' : Pump.running { p with held := some (p.heading ++ payload) } = true := hrunning
    have hbacklog : Pump.backlog { p with held := some (p.heading ++ payload) } r' =
      p.backlog r' := rfl
    have hless := backlog_receive hreceive
    simp only [load, hrunning, hrunning', hheld, hbacklog, if_true, Option.isSome_some,
      Option.isSome_none, Bool.false_eq_true, if_false]
    omega
  · -- a pump that has ended has no load at all
    have hend : p' = (p.stop r how).1 := congrArg Prod.fst hstop
    rw [hend, load_stop, load, if_pos hrunning]
    exact Nat.succ_pos _

/-- A pump without load has ended. -/
theorem rests_of_load_eq_zero {p : Pump} {r : Registry} (h : p.load r = 0) : p.Rests r := by
  cases hrunning : p.running with
  | false => simp [Rests, turn, hrunning]
  | true => simp [load, hrunning] at h

theorem rests_runFor {p : Pump} {r : Registry} {fuel : Nat} (h : p.load r ≤ fuel) :
    (p.runFor r fuel).1.Rests (p.runFor r fuel).2 := by
  induction fuel generalizing p r with
  | zero => exact rests_of_load_eq_zero (Nat.le_zero.1 h)
  | succ fuel ih =>
      cases hturn : p.turn r true with
      | none =>
          simp only [runFor, hturn]
          exact hturn
      | some moved =>
          obtain ⟨p', r'⟩ := moved
          simp only [runFor, hturn]
          exact ih (Nat.le_of_lt_succ (Nat.lt_of_lt_of_le (load_turn hturn) h))

/-- A pump that has run can only wait. -/
theorem rests_run (p : Pump) (r : Registry) : (p.run r).1.Rests (p.run r).2 := by
  refine rests_runFor ?_
  unfold load backlog
  split
  · split <;> omega
  · exact Nat.zero_le _

theorem run_of_rests {p : Pump} {r : Registry} (h : p.Rests r) : p.run r = (p, r) := by
  have hturn : p.turn r true = none := h
  rw [run, runFor, hturn]

/-- What a pump finds when it looks for a payload. -/
theorem receive_fst_congr {r r' : Registry} {id : ListenerId}
    (h : r'.channel? id = r.channel? id) : (r'.receive id).1 = (r.receive id).1 := by
  unfold Registry.receive
  rw [h]
  cases r.channel? id <;> rfl

/-- Whether a pump can move depends on its listener's channel only. -/
theorem rests_congr {p : Pump} {r r' : Registry}
    (h : r'.channel? p.listener.id = r.channel? p.listener.id) (hrests : p.Rests r) :
    p.Rests r' := by
  rw [Rests, turn_eq_none_iff] at hrests ⊢
  rwa [receive_fst_congr h]

/-! ### What a pump touches -/

theorem touched_stop {r : Registry} (h : r.Sound) (p : Pump) (how : StreamEnd) :
    Registry.Touched p.listener.id r (p.stop r how).2 := by
  have hclose := Registry.touched_closeListener h p.listener.room p.listener.id
  cases how with
  | roomClosed => exact Registry.touched_dropReceiver h _
  | cancelled => exact hclose.trans (Registry.touched_dropReceiver hclose.grown.sound _)
  | consumerGone => exact hclose.trans (Registry.touched_dropReceiver hclose.grown.sound _)

theorem touched_turn {p p' : Pump} {r r' : Registry} (h : r.Sound)
    (hturn : p.turn r true = some (p', r')) :
    p'.listener = p.listener ∧ Registry.Touched p.listener.id r r' := by
  obtain ⟨-, ⟨payload, -, -, rfl, rfl⟩ | ⟨payload, -, hreceive, rfl⟩ | ⟨how, hstop, -⟩⟩ :=
    turn_cases hturn
  · exact ⟨rfl, Registry.Touched.refl h _⟩
  · have htouched := Registry.touched_receive h p.listener.id
    rw [hreceive] at htouched
    exact ⟨rfl, htouched⟩
  · obtain ⟨rfl, rfl⟩ := Prod.mk.inj hstop
    exact ⟨rfl, touched_stop h p how⟩

/-- A pump keeps its listener and touches nothing but in its name. -/
theorem touched_runFor {p : Pump} {r : Registry} (h : r.Sound) (fuel : Nat) :
    (p.runFor r fuel).1.listener = p.listener ∧
      Registry.Touched p.listener.id r (p.runFor r fuel).2 := by
  induction fuel generalizing p r with
  | zero => exact ⟨rfl, Registry.Touched.refl h _⟩
  | succ fuel ih =>
      cases hturn : p.turn r true with
      | none =>
          rw [runFor, hturn]
          exact ⟨rfl, Registry.Touched.refl h _⟩
      | some moved =>
          obtain ⟨p', r'⟩ := moved
          obtain ⟨hlistener, htouched⟩ := touched_turn h hturn
          obtain ⟨hlistener', htouched'⟩ := ih (p := p') htouched.grown.sound
          rw [hlistener] at htouched' hlistener'
          rw [runFor, hturn]
          exact ⟨hlistener', htouched.trans htouched'⟩

theorem touched_run {r : Registry} (h : r.Sound) (p : Pump) :
    (p.run r).1.listener = p.listener ∧ Registry.Touched p.listener.id r (p.run r).2 :=
  touched_runFor h _

end ChatServer.Pump
