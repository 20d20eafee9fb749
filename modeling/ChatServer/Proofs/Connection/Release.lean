import ChatServer.Proofs.Connection.Pumped

/-!
When a pump lets its listener go. With a payload in hand it waits for room in its sink and does not
look at the signal; without one it waits for its listener and does not look at its sink. So it obeys
the signal unless its sink is full, and it notices the loss of its consumer just if it has something
to pass on.
-/

namespace ChatServer.Hub

/-- What is known of a pump once all background work is done. -/
theorem InOrder.settled_pump {h : Hub} (hi : h.InOrder) {name : Label} {p : Pump}
    (hp : h.settle.pumps.get? name = some p) :
    h.settle.registry.Proper ∧ p.Tidy h.settle.registry ∧ p.Rests h.settle.registry ∧
      ∃ c, h.settle.registry.Known p.listener c := by
  have hsettled : h.settle.InOrder := by
    rw [← pieces_settleScript]
    exact hi.pieces _
  obtain ⟨vs, subs, hk⟩ := hsettled.kept
  exact ⟨hk.proper, hsettled.tidy.pumps name p hp, hi.resting_settle name p hp,
    hsettled.tidy.known _ (handles_pumped name p hp)⟩

/-- Whatever has happened, once all background work is done a pump that was given the signal has
ended and nobody lists its listener, unless it waits with a payload in hand for its full sink. Then
it goes on: it obeys the signal only when its consumer has taken something. -/
theorem signal_heeded_unless_full (tuning : Tuning) (outages : Outages) (gated : Bool)
    (wall : Instant) (ps : List Piece) :
    let h := ((new tuning outages gated wall).pieces ps).settle
    ∀ name p, h.pumps.get? name = some p → p.signalled = true →
      (p.running = true ↔ p.held.isSome = true ∧ p.sink.delivery = .full) ∧
      (p.running = false → ∀ room, h.registry.lists room p.listener.id = false) ∧
      (p.running = true → Pump.Ends { p with sink := p.sink.receive.2 } h.registry .cancelled) := by
  intro h name p hp hsignal
  have hi := (inOrder_new tuning outages gated wall).pieces ps
  obtain ⟨hproper, htidy, hrests, c, hk⟩ := hi.settled_pump hp
  exact ⟨htidy.running_iff_of_signalled hrests hsignal, fun hended => (htidy.ended hended).2,
    fun hrunning => htidy.ends_receiveSink hk hproper hrests hrunning hsignal⟩

/-- A pump forwards one of two payloads into a sink with room for one, and is given the signal. -/
def clogged : List Moment :=
  [Event.listen "a" ⟨"r"⟩, .pump "a" 1 "", .submit ⟨"u"⟩ ⟨"r"⟩ "1", .submit ⟨"u"⟩ ⟨"r"⟩ "2",
    .cancel "a"].map (Moment.mk default)

/-- The pump that waits for its sink. -/
def cloggedPump : Pump :=
  { Pump.new ⟨⟨0⟩, ⟨"r"⟩⟩ "" 1 with
    sink := ⟨1, ["u: 1"], true, true⟩
    held := some "u: 2"
    asked := true
    signalled := true }

theorem signal_heeded_unless_full_clogged :
    let h := ((new Tuning.default Outages.none false default).through clogged).settle
    h.pumps.get? "a" = some cloggedPump ∧ cloggedPump.running = true ∧
      Pump.Ends { cloggedPump with sink := cloggedPump.sink.receive.2 } h.registry .cancelled := by
  intro h
  have hstage : h = ((new Tuning.default Outages.none false default).pieces
      ((new Tuning.default Outages.none false default).scripts clogged)).settle := by
    rw [pieces_scripts]
  have hp : h.pumps.get? "a" = some cloggedPump := by decide +kernel
  rw [hstage] at hp ⊢
  obtain ⟨hruns, -, hends⟩ := signal_heeded_unless_full Tuning.default Outages.none false default _
    "a" cloggedPump hp rfl
  have hrunning := hruns.2 (by decide)
  exact ⟨hp, hrunning, hends hrunning⟩

/-- All background work is done, and still the pump runs and its room has a listener. -/
theorem signalled_but_running :
    let h := (new Tuning.default Outages.none false default).through clogged
    (h.pumps.get? "a").map (fun p => (p.signalled, p.finish)) = some (true, none) ∧
      h.registry.count ⟨"r"⟩ = some 1 := by
  decide +kernel

/-- Whatever has happened, once all background work is done a pump ends upon the loss of its
consumer, and nobody lists its listener, if it has a payload in hand. A pump that waits for its
listener notices nothing: it goes on and its listener stays listed until something is published in
the room. -/
theorem loss_noticed_with_payload (tuning : Tuning) (outages : Outages) (gated : Bool)
    (wall : Instant) (ps : List Piece) :
    let h := ((new tuning outages gated wall).pieces ps).settle
    ∀ name p, h.pumps.get? name = some p →
      (p.running = true →
        let lost : Pump := { p with sink := p.sink.dropReceiver }
        (p.held.isSome = true → lost.Ends h.registry .consumerGone) ∧
          (p.held = none → lost.run h.registry = (lost, h.registry))) ∧
      (p.sink.receiving = false →
        (p.running = true ↔ h.registry.lists p.listener.room p.listener.id = true) ∧
        (p.running = false → ∀ room, h.registry.lists room p.listener.id = false) ∧
        (p.running = true → p.held = none ∧
          ∀ line, p.Ends (h.registry.publish p.listener.room line) .consumerGone)) := by
  intro h name p hp
  have hi := (inOrder_new tuning outages gated wall).pieces ps
  obtain ⟨hproper, htidy, hrests, c, hk⟩ := hi.settled_pump hp
  refine ⟨fun hrunning => ⟨htidy.ends_dropSink hk hproper hrunning,
    fun hheld => Pump.run_of_rests (hrests.dropSink hheld)⟩, fun hgone => ?_⟩
  have hheld : p.running = true → p.held = none := hrests.held_of_gone hgone
  refine ⟨⟨fun hrunning => ?_, fun hlists => ?_⟩, fun hended => (htidy.ended hended).2,
    fun hrunning => ⟨hheld hrunning, ?_⟩⟩
  · obtain ⟨-, -, -, hlists⟩ := htidy.idle hk hrests hrunning (hheld hrunning)
    exact hlists
  · cases hrunning : p.running with
    | true => rfl
    | false =>
        rw [(htidy.ended hrunning).2] at hlists
        simp at hlists
  · exact htidy.ends_publish hk hproper hrests hrunning (hheld hrunning) hgone

/-- A pump that has had nothing to forward loses its consumer. -/
def deserted : List Moment :=
  [Event.listen "a" ⟨"r"⟩, .pump "a" 8 "", .sinkDrop "a"].map (Moment.mk default)

/-- The pump without a consumer. -/
def desertedPump : Pump :=
  { Pump.new ⟨⟨0⟩, ⟨"r"⟩⟩ "" 8 with sink := ⟨8, [], true, false⟩ }

theorem loss_noticed_with_payload_deserted :
    let h := ((new Tuning.default Outages.none false default).through deserted).settle
    h.pumps.get? "a" = some desertedPump ∧ h.registry.lists ⟨"r"⟩ ⟨0⟩ = true ∧
      desertedPump.Ends (h.registry.publish ⟨"r"⟩ "u: 1") .consumerGone := by
  intro h
  have hstage : h = ((new Tuning.default Outages.none false default).pieces
      ((new Tuning.default Outages.none false default).scripts deserted)).settle := by
    rw [pieces_scripts]
  have hp : h.pumps.get? "a" = some desertedPump := by decide +kernel
  rw [hstage] at hp ⊢
  obtain ⟨-, hlost⟩ := loss_noticed_with_payload Tuning.default Outages.none false default _
    "a" desertedPump hp
  obtain ⟨hlisted, -, hends⟩ := hlost rfl
  exact ⟨hp, hlisted.1 rfl, (hends rfl).2 "u: 1"⟩

/-- All background work is done, and still the pump runs and its room has a listener. -/
theorem deserted_but_running :
    let h := (new Tuning.default Outages.none false default).through deserted
    (h.pumps.get? "a").map (fun p => (p.sink.receiving, p.finish)) = some (false, none) ∧
      h.registry.count ⟨"r"⟩ = some 1 := by
  decide +kernel

end ChatServer.Hub
