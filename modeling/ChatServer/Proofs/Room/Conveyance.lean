import ChatServer.Proofs.Room.Consumer

/-!
The way of a payload through a pump. It waits in the listener's buffer, is taken in hand, goes into
the sink and is read there, while everybody else goes on doing things to the rooms, the consumer
reads or goes away, somebody gives the signal, and a pump that has ended waits until its listener is
taken out of the room. Whatever comes after what, no payload is lost, doubled or overtaken on that
way by a pump that runs.
-/

namespace ChatServer

namespace Registry

/-- The payload that an order brings into the buffer of a listener. -/
def delivers (r : Registry) (l : Listener) : Order → List Payload
  | .publish room p =>
    if room = l.room ∧ r.lists l.room l.id = true ∧ r.channels.delivery l.id.channel = .accepted
    then [p] else []
  | _ => []

variable {r : Registry} {l : Listener} {c : Channel Payload} {o : Order}

namespace Order

/-- An order that only the holder of a listener can give. -/
def ofHolder (id : ListenerId) : Order → Bool
  | .receive id' | .drop id' => id' = id
  | _ => false

end Order

/-- What others do leaves in a buffer what is there, and brings what is delivered. -/
theorem Known.buffer_treats (hk : r.Known l c) (ho : o.ofHolder l.id = false) :
    (o.treats (r.lists l.room l.id) l c).buffer = c.buffer ++ r.delivers l o := by
  cases o with
  | publish room p =>
      have hdelivery : r.channels.delivery l.id.channel = c.delivery := by
        have hchannel : r.channels.get? l.id.channel = some c := hk.channel
        rw [Channels.delivery, hchannel]
        rfl
      simp only [Order.treats, delivers, hdelivery]
      by_cases hroom : room = l.room
      · cases r.lists l.room l.id with
        | false => simp
        | true => simp [hroom, Channel.buffer_offer, apply_ite (c.buffer ++ ·)]
      · simp [hroom]
  | receive id | drop id =>
      have hid : id ≠ l.id := of_decide_eq_false ho
      simp [Order.treats, delivers, hid]
  | _ =>
      simp only [Order.treats, delivers, List.append_nil]
      split <;> rfl

/-- Nothing is delivered to a listener that its room does not list. -/
theorem delivers_of_not_lists (h : r.lists l.room l.id = false) (o : Order) :
    r.delivers l o = [] := by
  cases o with
  | publish room p => simp [delivers, h]
  | _ => rfl

end Registry

open Registry

/-- A pump at work, and the course that its payloads have taken. -/
structure Conveyance where
  pump : Pump
  registry : Registry
  /-- What is still to be done for the listener of a pump that has ended. -/
  owed : List Order
  /-- What the consumer has read from the sink. -/
  read : List Payload
  /-- What was in the sink when the consumer went. -/
  left : List Payload
  /-- What its room has brought into the listener's buffer. -/
  delivered : List Payload

namespace Conveyance

inductive Event
  /-- Somebody else gives an order. -/
  | order (o : Order)
  /-- The pump makes a move, if it can, looking at the signal or at its listener first. -/
  | move (signalFirst : Bool)
  /-- One of the orders that are owed is obeyed. -/
  | settle (i : Nat)
  /-- The consumer looks into the sink. -/
  | read
  /-- The consumer goes away. -/
  | leave
  /-- Somebody gives the signal. -/
  | cancel

/-- Whether an event is the use of a listener by somebody else than its pump. -/
def Event.intrudes (id : ListenerId) : Event → Bool
  | .order o => o.ofHolder id
  | _ => false

/-- A listener has just been opened, for a pump that has not moved yet. -/
def start (r : Registry) (room : RoomId) (heading : String) (capacity : Nat) : Conveyance :=
  ⟨.new (r.openListener room).1 heading capacity, (r.openListener room).2, [], [], [], []⟩

def step (s : Conveyance) : Event → Conveyance
  | .order o =>
    { s with
      registry := s.registry.obey o
      delivered := s.delivered ++ s.registry.delivers s.pump.listener o }
  | .move signalFirst =>
    match s.pump.turn s.registry signalFirst with
    | none => s
    | some (p, r) =>
      match p.finish with
      | none => { s with pump := p, registry := r }
      -- what an ended pump asks of the rooms comes to them when it comes
      | some how => { s with pump := p, owed := s.pump.endOrders how }
  | .settle i =>
    match s.owed[i]? with
    | none => s
    | some o => { s with registry := s.registry.obey o, owed := s.owed.eraseIdx i }
  | .read =>
    match s.pump.sink.receive with
    | (.item p, sink) => { s with pump := { s.pump with sink }, read := s.read ++ [p] }
    | _ => s
  | .leave =>
    { s with
      pump := { s.pump with sink := s.pump.sink.dropReceiver }
      left := s.left ++ s.pump.sink.buffer }
  | .cancel => { s with pump := s.pump.signal.2 }

def run (s : Conveyance) (es : List Event) : Conveyance := es.foldl step s

/-- Everything that has been put into the sink. -/
def passed (s : Conveyance) : List Payload := s.read ++ s.left ++ s.pump.sink.buffer

/-- What a consumer is to find of what was delivered. -/
def headed (heading : String) (ps : List Payload) : List Payload := ps.map (heading ++ ·)

/-- What the consumer is to find in all. -/
def due (s : Conveyance) : List Payload := headed s.pump.heading s.delivered

/-- Payloads are where they belong, `c` being the listener's channel. -/
structure Intact (s : Conveyance) (c : Channel Payload) : Prop where
  proper : s.registry.Proper
  known : s.registry.Known s.pump.listener c
  running : s.pump.running = true → s.owed = [] ∧
    s.passed ++ s.pump.held.toList ++ headed s.pump.heading c.buffer = s.due
  ended : s.pump.running = false → s.passed <+: s.due
  roomClosed : s.pump.finish = some .roomClosed → s.passed = s.due ∧
    s.registry.lists s.pump.listener.room s.pump.listener.id = false
  /-- A listener whose pump has ended is out of its room or about to be taken out. -/
  released : s.pump.running = false →
    .close s.pump.listener.room s.pump.listener.id ∈ s.owed ∨
      s.registry.lists s.pump.listener.room s.pump.listener.id = false
  staying : s.pump.sink.receiving = true → s.left = []
  gone : s.pump.sink.receiving = false → s.pump.sink.buffer = []

variable {s : Conveyance} {c : Channel Payload}

theorem headed_append (heading : String) (ps qs : List Payload) :
    headed heading (ps ++ qs) = headed heading ps ++ headed heading qs := List.map_append

namespace Intact

/-- As long as a pump runs, there is only its way to look at. -/
theorem of_running (hproper : s.registry.Proper)
    (hknown : s.registry.Known s.pump.listener c) (hrunning : s.pump.running = true)
    (howed : s.owed = [])
    (hall : s.passed ++ s.pump.held.toList ++ headed s.pump.heading c.buffer = s.due)
    (hstaying : s.pump.sink.receiving = true → s.left = [])
    (hgone : s.pump.sink.receiving = false → s.pump.sink.buffer = []) : s.Intact c where
  proper := hproper
  known := hknown
  running _ := ⟨howed, hall⟩
  ended hended := absurd (hended.symm.trans hrunning) Bool.false_ne_true
  roomClosed hfinish := by
    rw [Pump.running, hfinish] at hrunning
    exact Bool.noConfusion hrunning
  released hended := absurd (hended.symm.trans hrunning) Bool.false_ne_true
  staying := hstaying
  gone := hgone

/-- A listener that its room does not list is not listed again. -/
theorem unlisted (hs : s.Intact c) (o : Order)
    (hnone : s.registry.lists s.pump.listener.room s.pump.listener.id = false) :
    (s.registry.obey o).lists s.pump.listener.room s.pump.listener.id = false := by
  rw [hs.known.lists_obey hs.proper, hnone, Bool.false_and]

theorem order (hs : s.Intact c) {o : Order} (ho : o.ofHolder s.pump.listener.id = false) :
    (s.step (.order o)).Intact
      (o.treats (s.registry.lists s.pump.listener.room s.pump.listener.id) s.pump.listener c) := by
  have hdue : (s.step (.order o)).due =
      s.due ++ headed s.pump.heading (s.registry.delivers s.pump.listener o) := headed_append _ _ _
  refine ⟨proper_obey hs.proper o, hs.known.obey hs.proper o, fun hrunning => ?_,
    fun hended => ?_, fun hfinish => ?_, fun hended => ?_, hs.staying, hs.gone⟩
  · obtain ⟨howed, hall⟩ := hs.running hrunning
    refine ⟨howed, ?_⟩
    rw [hdue, ← hall, List.append_assoc _ (headed s.pump.heading c.buffer), ← headed_append,
      ← hs.known.buffer_treats ho]
    rfl
  · rw [hdue]
    exact (hs.ended hended).trans (List.prefix_append _ _)
  · obtain ⟨hall, hnone⟩ := hs.roomClosed hfinish
    refine ⟨?_, hs.unlisted o hnone⟩
    rw [hdue, delivers_of_not_lists hnone, headed, List.map_nil, List.append_nil]
    exact hall
  · exact (hs.released hended).imp_right (hs.unlisted o)

/-- Of what a pump owes, the closing of its listener is what matters. -/
theorem settle (hs : s.Intact c) (i : Nat) : ∃ c', (s.step (.settle i)).Intact c' := by
  rw [step]
  cases howed : s.owed[i]? with
  | none => exact ⟨c, hs⟩
  | some o =>
      have hended : s.pump.running = false := by
        cases hrunning : s.pump.running with
        | false => rfl
        | true => simp [(hs.running hrunning).1] at howed
      refine ⟨_, proper_obey hs.proper o, hs.known.obey hs.proper o, fun hrunning => ?_, hs.ended,
        fun hfinish => ?_, fun _ => ?_, hs.staying, hs.gone⟩
      · rw [hended] at hrunning
        simp at hrunning
      · obtain ⟨hall, hnone⟩ := hs.roomClosed hfinish
        exact ⟨hall, hs.unlisted o hnone⟩
      · rcases hs.released hended with hclose | hnone
        · obtain ⟨j, hj⟩ := List.mem_iff_getElem?.1 hclose
          by_cases hij : j = i
          · -- the listener is closed now
            obtain rfl := Option.some.inj ((hij ▸ hj).symm.trans howed)
            refine .inr ?_
            change (s.registry.obey _).lists s.pump.listener.room s.pump.listener.id = false
            rw [hs.known.lists_obey hs.proper]
            simp [Order.strikes, Order.undoes]
          · exact .inl (List.mem_eraseIdx_iff_getElem?.2 ⟨j, hij, hj⟩)
        · exact .inr (hs.unlisted o hnone)

/-- What a pump has in hand goes to the end of what is in the sink. -/
theorem pass (hs : s.Intact c) (hrunning : s.pump.running = true) {payload : Payload}
    (hheld : s.pump.held = some payload) (hroom : s.pump.sink.delivery = .accepted) :
    Intact { s with pump := { s.pump with sink := s.pump.sink.offer payload, held := none } }
      c := by
  have hreceiving : s.pump.sink.receiving = true := by
    cases hreceiving : s.pump.sink.receiving with
    | true => rfl
    | false => simp [Channel.delivery, hreceiving] at hroom
  have hbuffer : (s.pump.sink.offer payload).buffer = s.pump.sink.buffer ++ [payload] := by
    rw [Channel.buffer_offer, if_pos hroom]
  obtain ⟨howed, hall⟩ := hs.running hrunning
  refine of_running hs.proper hs.known hrunning howed ?_ (fun _ => hs.staying hreceiving) ?_
  · rw [hheld] at hall
    change s.read ++ s.left ++ (s.pump.sink.offer payload).buffer ++ [] ++ _ = s.due
    rw [hbuffer, List.append_nil, ← List.append_assoc]
    exact hall
  · intro hgone
    rw [Channel.receiving_offer, hreceiving] at hgone
    exact absurd hgone.symm Bool.false_ne_true

/-- What a pump takes in hand was the first that waited. -/
theorem take (hs : s.Intact c) (hrunning : s.pump.running = true) (hheld : s.pump.held = none)
    {payload : Payload} {r : Registry}
    (hreceive : s.registry.receive s.pump.listener.id = (.item payload, r)) :
    ∃ c', Intact { s with
      pump := { s.pump with held := some (s.pump.heading ++ payload) }, registry := r } c' := by
  obtain ⟨howed, hall⟩ := hs.running hrunning
  obtain rfl : s.registry.obey (.receive s.pump.listener.id) = r := congrArg Prod.snd hreceive
  obtain ⟨rest, hbuffer⟩ : ∃ rest, c.buffer = payload :: rest := by
    rw [receive, hs.known.channel] at hreceive
    simp only [Channel.receive] at hreceive
    cases hbuffer : c.buffer with
    | nil => cases hsending : c.sending <;> simp [hbuffer, hsending] at hreceive
    | cons first rest =>
        rw [hbuffer] at hreceive
        obtain rfl := Received.item.inj (congrArg Prod.fst hreceive)
        exact ⟨rest, rfl⟩
  refine ⟨_, of_running (proper_obey hs.proper (.receive s.pump.listener.id))
    (hs.known.obey hs.proper (.receive s.pump.listener.id)) hrunning howed ?_ hs.staying hs.gone⟩
  change s.passed ++ [s.pump.heading ++ payload] ++ headed s.pump.heading _ = s.due
  rw [← hall, hheld, hbuffer]
  simp [Order.treats, Channel.receive, hbuffer, headed]

/-- A pump ends with everything passed on, or with its listener to be closed. -/
theorem stop (hs : s.Intact c) (hrunning : s.pump.running = true) {how : StreamEnd}
    (hcause : s.pump.Cause s.registry how) :
    Intact { s with pump := (s.pump.stop s.registry how).1, owed := s.pump.endOrders how } c := by
  obtain ⟨-, hall⟩ := hs.running hrunning
  have hroomClosed : how = .roomClosed → s.passed = s.due ∧
      s.registry.lists s.pump.listener.room s.pump.listener.id = false := by
    rintro rfl
    obtain ⟨hheld, hend⟩ := hcause
    rw [receive, hs.known.channel] at hend
    obtain ⟨hbuffer, hsending⟩ := Channel.receive_eq_disconnected_iff.1 hend
    refine ⟨?_, ?_⟩
    · rw [← hall, hheld, hbuffer]
      simp [headed]
    · cases hlists : s.registry.lists s.pump.listener.room s.pump.listener.id with
      | false => rfl
      | true =>
          rw [hs.known.sender hlists] at hsending
          exact hsending
  refine ⟨hs.proper, hs.known, fun hon => absurd hon Bool.false_ne_true, fun _ => ?_,
    fun hfinish => ?_, fun _ => ?_, hs.staying, hs.gone⟩
  · change s.passed <+: s.due
    rw [← hall, List.append_assoc]
    exact List.prefix_append _ _
  · exact hroomClosed (Option.some.inj hfinish)
  · cases how with
    | roomClosed => exact .inr (hroomClosed rfl).2
    | cancelled | consumerGone => exact .inl List.mem_cons_self

theorem move (hs : s.Intact c) (signalFirst : Bool) :
    ∃ c', (s.step (.move signalFirst)).Intact c' := by
  rw [step]
  cases hturn : s.pump.turn s.registry signalFirst with
  | none => exact ⟨c, hs⟩
  | some moved =>
      obtain ⟨p, r⟩ := moved
      obtain ⟨hrunning, ⟨payload, hheld, hroom, rfl, rfl⟩ | ⟨payload, hheld, hreceive, rfl⟩ |
        ⟨how, hstop, hcause⟩⟩ := Pump.turn_cases hturn
      · have hfinish : s.pump.finish = none := Option.isNone_iff_eq_none.1 hrunning
        simp only [hfinish]
        exact ⟨c, hfinish ▸ hs.pass hrunning hheld hroom⟩
      · have hfinish : s.pump.finish = none := Option.isNone_iff_eq_none.1 hrunning
        simp only [hfinish]
        exact hfinish ▸ hs.take hrunning hheld hreceive
      · obtain ⟨rfl, rfl⟩ := Prod.mk.inj hstop
        exact ⟨c, hs.stop hrunning hcause⟩

/-- Whatever a consumer does to the sink, what has been passed on remains so. -/
theorem consume (hs : s.Intact c) {sink : Channel Payload} {read left : List Payload}
    (hpassed : read ++ left ++ sink.buffer = s.passed)
    (hstaying : sink.receiving = true → left = [])
    (hgone : sink.receiving = false → sink.buffer = []) :
    Intact { s with pump := { s.pump with sink }, read, left } c where
  proper := hs.proper
  known := hs.known
  running hrunning := by
    rw [passed, hpassed]
    exact hs.running hrunning
  ended hended := by
    rw [passed, hpassed]
    exact hs.ended hended
  roomClosed hfinish := by
    rw [passed, hpassed]
    exact hs.roomClosed hfinish
  released := hs.released
  staying := hstaying
  gone := hgone

/-- What the consumer reads was the first in the sink. -/
theorem read (hs : s.Intact c) : (s.step .read).Intact c := by
  simp only [step, Channel.receive]
  cases hbuffer : s.pump.sink.buffer with
  | nil => cases s.pump.sink.sending <;> exact hs
  | cons first rest =>
      have hreceiving : s.pump.sink.receiving = true := by
        cases hreceiving : s.pump.sink.receiving with
        | true => rfl
        | false => simp [hs.gone hreceiving] at hbuffer
      refine hs.consume ?_ hs.staying fun hgone =>
        absurd (hgone.symm.trans hreceiving) Bool.false_ne_true
      simp [passed, hs.staying hreceiving, hbuffer]

theorem leave (hs : s.Intact c) : (s.step .leave).Intact c :=
  hs.consume (by simp [passed, Channel.dropReceiver]) (fun hstaying =>
    absurd hstaying Bool.false_ne_true) fun _ => rfl

theorem cancel (hs : s.Intact c) : (s.step .cancel).Intact c :=
  ⟨hs.proper, hs.known, hs.running, hs.ended, hs.roomClosed, hs.released, hs.staying, hs.gone⟩

/-- One event leaves every payload where it belongs. -/
theorem step (hs : s.Intact c) {e : Event} (he : e.intrudes s.pump.listener.id = false) :
    ∃ c', (s.step e).Intact c' := by
  cases e with
  | order o => exact ⟨_, hs.order he⟩
  | move signalFirst => exact hs.move signalFirst
  | settle i => exact hs.settle i
  | read => exact ⟨c, hs.read⟩
  | leave => exact ⟨c, hs.leave⟩
  | cancel => exact ⟨c, hs.cancel⟩

end Intact

theorem intact_start {r : Registry} (h : r.Proper) (room : RoomId) (heading : String)
    (capacity : Nat) : (start r room heading capacity).Intact (Channel.new r.capacity) :=
  .of_running (proper_obey h (.listen room)) (known_openListener h room) rfl rfl rfl (fun _ => rfl)
    fun _ => rfl

/-- A pump keeps its listener and what it writes before each payload. -/
theorem face_step (s : Conveyance) (e : Event) :
    (s.step e).pump.listener = s.pump.listener ∧ (s.step e).pump.heading = s.pump.heading := by
  cases e with
  | move signalFirst =>
      rw [step]
      cases hturn : s.pump.turn s.registry signalFirst with
      | none => exact ⟨rfl, rfl⟩
      | some moved =>
          obtain ⟨p, r⟩ := moved
          have hface : p.listener = s.pump.listener ∧ p.heading = s.pump.heading := by
            obtain ⟨-, ⟨payload, -, -, rfl, -⟩ | ⟨payload, -, -, rfl⟩ | ⟨how, hstop, -⟩⟩ :=
              Pump.turn_cases hturn
            · exact ⟨rfl, rfl⟩
            · exact ⟨rfl, rfl⟩
            · obtain ⟨rfl, rfl⟩ := Prod.mk.inj hstop
              exact ⟨rfl, rfl⟩
          dsimp only
          split <;> exact hface
  | settle i =>
      rw [step]
      split <;> exact ⟨rfl, rfl⟩
  | read =>
      rw [step]
      split <;> exact ⟨rfl, rfl⟩
  | _ => exact ⟨rfl, rfl⟩

/-- A run leaves every payload where it belongs, as long as nobody else uses the listener. -/
theorem Intact.run (hs : s.Intact c) {es : List Event}
    (hes : ∀ e ∈ es, e.intrudes s.pump.listener.id = false) :
    (∃ c', (s.run es).Intact c') ∧ (s.run es).pump.listener = s.pump.listener ∧
      (s.run es).pump.heading = s.pump.heading := by
  induction es generalizing s c with
  | nil => exact ⟨⟨c, hs⟩, rfl, rfl⟩
  | cons e es ih =>
      obtain ⟨c', hs'⟩ := hs.step (hes e List.mem_cons_self)
      obtain ⟨hlistener, hheading⟩ := s.face_step e
      obtain ⟨hintact, hlistener', hheading'⟩ := ih hs' fun e' he' =>
        hlistener ▸ hes e' (List.mem_cons_of_mem e he')
      exact ⟨hintact, hlistener'.trans hlistener, hheading'.trans hheading⟩

/-- Where nothing that is owed has to wait, a move is the pump's own. -/
theorem move_settled {p : Pump} {r : Registry} {signalFirst : Bool} (howed : s.owed = [])
    (hturn : s.pump.turn s.registry signalFirst = some (p, r)) :
    (s.step (.move signalFirst)).pump = p ∧
      (s.step (.move signalFirst)).registry.obeyAll (s.step (.move signalFirst)).owed = r := by
  simp only [step, hturn]
  cases hfinish : p.finish with
  | none => exact ⟨rfl, by rw [howed, obeyAll_nil]⟩
  | some how =>
      refine ⟨rfl, ?_⟩
      rw [Pump.registry_turn hturn, Pump.turnOrders, hfinish]

/-- A pump neither loses, doubles nor reorders what its room delivers, whatever happens in between
and whichever of signal and payload it takes first. While it runs, everything is in the sink, in
hand or still waiting; when the room has come to its end everything has been put into the sink;
whatever else ends it, only the last of it is missing. Once nothing is owed any more, no room lists
the listener of a pump that has ended. -/
theorem payloads_conveyed (limit : Nat) (os : List Order) (room : RoomId) (heading : String)
    (capacity : Nat) {es : List Event}
    (hes : ∀ e ∈ es, e.intrudes ⟨((Registry.new limit).obeyAll os).next⟩ = false) :
    let first := (Registry.new limit).obeyAll os
    let l := (first.openListener room).1
    let last := (start first room heading capacity).run es
    let due := headed heading last.delivered
    (last.pump.finish = none → last.passed ++ last.pump.held.toList ++
        headed heading (last.registry.waiting l.id) = due) ∧
      (last.pump.finish = some .roomClosed → last.passed = due) ∧
      (∀ how, last.pump.finish = some how → last.passed <+: due) ∧
      (last.pump.sink.receiving = true → last.passed = last.read ++ last.pump.sink.buffer) ∧
      (last.pump.running = false → last.owed = [] →
        ∀ x, last.registry.lists x l.id = false) := by
  intro first l last due
  have hstart := intact_start (proper_obeyAll (proper_new limit) os) room heading capacity
  obtain ⟨⟨c, hlast⟩, hlistener, hheading⟩ := hstart.run hes
  have hl : last.pump.listener = l := hlistener
  have hdue : last.due = due := congrArg (headed · _) hheading
  refine ⟨fun hfinish => ?_, fun hfinish => ?_, fun how hfinish => ?_, fun hstaying => ?_,
    fun hended howed x => ?_⟩
  · have hrunning : last.pump.running = true := by rw [Pump.running, hfinish]; rfl
    have hheaded : headed last.pump.heading c.buffer = headed heading c.buffer :=
      congrArg (headed · _) hheading
    rw [← hdue, ← (hlast.running hrunning).2, ← hl, hlast.known.waiting_eq, hheaded]
  · rw [← hdue]
    exact (hlast.roomClosed hfinish).1
  · rw [← hdue]
    exact hlast.ended (by rw [Pump.running, hfinish]; rfl)
  · rw [passed, hlast.staying hstaying, List.append_nil]
  · have hnone := (hlast.released hended).resolve_left (by rw [howed]; exact List.not_mem_nil)
    rw [← hl]
    exact hlast.known.lists_obeyAll_of_none hlast.proper hnone [] x

/-- With room for one payload in its sink, a pump has passed one on, has one in hand and one waits,
when it is given the signal. -/
def cutShort : List Event :=
  [.order (.publish ⟨"r"⟩ "a"), .move true, .move true, .order (.publish ⟨"r"⟩ "b"), .move false,
    .order (.publish ⟨"r"⟩ "c"), .order (.publish ⟨"s"⟩ "d"), .cancel]

/-- The receiver is given up before the room hears of the end. -/
def wayOut : List Event :=
  [.read, .move true, .move true, .settle 1, .order (.publish ⟨"r"⟩ "e"), .settle 0]

/-- The pump of the second listener, before it has done anything. -/
def second : Conveyance :=
  start ((Registry.new 4).obeyAll [.listen ⟨"s"⟩, .create ⟨"r"⟩]) ⟨"r"⟩ "> " 1

theorem payloads_conveyed_cut_short :
    let before := second.run cutShort
    let last := second.run (cutShort ++ wayOut)
    (before.pump.finish = none ∧ before.pump.held = some "> b" ∧
        before.delivered = ["a", "b", "c"] ∧
        before.passed ++ before.pump.held.toList ++ headed "> " (before.registry.waiting ⟨1⟩) =
          headed "> " before.delivered) ∧
      last.pump.finish = some .cancelled ∧ last.passed = ["> a", "> b"] ∧
        last.passed <+: headed "> " last.delivered ∧ last.owed = [] ∧
        ∀ x, last.registry.lists x ⟨1⟩ = false := by
  intro before last
  have hothers : ∀ e ∈ cutShort ++ wayOut, e.intrudes ⟨1⟩ = false := by decide
  have hrunning : before.pump.finish = none := by decide +kernel
  have hended : last.pump.finish = some .cancelled := by decide +kernel
  have howed : last.owed = [] := by decide +kernel
  have hstopped : last.pump.running = false := by rw [Pump.running, hended]; rfl
  have hspared : ∀ e ∈ cutShort, e.intrudes ⟨1⟩ = false := fun e he =>
    hothers e (List.mem_append_left _ he)
  obtain ⟨hwhole, -⟩ :=
    payloads_conveyed 4 [.listen ⟨"s"⟩, .create ⟨"r"⟩] ⟨"r"⟩ "> " 1 hspared
  obtain ⟨-, -, hmissing, -, hunlisted⟩ :=
    payloads_conveyed 4 [.listen ⟨"s"⟩, .create ⟨"r"⟩] ⟨"r"⟩ "> " 1 hothers
  refine ⟨⟨hrunning, by decide +kernel, by decide +kernel, hwhole hrunning⟩, hended,
    by decide +kernel, hmissing _ hended, howed, hunlisted hstopped howed⟩

end Conveyance

end ChatServer
