import ChatServer.Proofs.Room.Seat

/-!
The stream of one subscriber. What it has received and what waits in its channel is all that was
published to it while there was room, in order; it ends with its subscription and with the
broadcaster, and nothing that other subscribers do shows in it.
-/

namespace ChatServer

namespace Stage

/-- The payload that an event gives to the holder of a channel's receiver. -/
def gets (ch : ChannelId) (e : Event) (a : Answer) : List Payload :=
  match e, a with
  | .receive ch', .received (.item p) => if ch' = ch then [p] else []
  | _, _ => []

/-- The payloads that the holder of a channel's receiver is given in a series of events. -/
def received (s : Stage) (ch : ChannelId) : List Event → List Payload
  | [] => []
  | e :: es => gets ch e (s.step e).1 ++ (s.step e).2.received ch es

/-- The number of payloads that wait in a channel. -/
def waiting (s : Stage) (ch : ChannelId) : Nat :=
  ((s.channels.get? ch).map fun c => c.buffer.length).getD 0

/-- The payload that an event publishes, if there is room for it. -/
def comes (e : Event) (room : Bool) : List Payload :=
  match e with
  | .publish p => if room then [p] else []
  | _ => []

/-- The payloads that are published while the subscription of a listener lasts and when fewer than
`capacity` payloads wait in its channel. -/
def due (s : Stage) (id : ListenerId) (ch : ChannelId) (capacity : Nat) :
    List Event → List Payload
  | [] => []
  | e :: es =>
    if e.ends id then []
    else comes e (s.waiting ch < capacity) ++ (s.step e).2.due id ch capacity es

/-! ### The channel by itself -/

/-- The payloads that are received from a channel by itself. -/
def heard (id : ListenerId) (ch : ChannelId) : Channel Payload → List Event → List Payload
  | _, [] => []
  | c, e :: es => gets ch e (.received c.receive.1) ++ heard id ch (attend id ch c e) es

/-- What does not concern a listener does nothing to its channel and gives it nothing. -/
theorem attend_of_not_concerns {id : ListenerId} {ch : ChannelId} {e : Event}
    (h : e.concerns id ch = false) (c : Channel Payload) :
    attend id ch c e = c ∧ ∀ a, gets ch e a = [] := by
  cases e with
  | publish p => simp [Event.concerns] at h
  | receive ch' =>
      have hne : ch' ≠ ch := of_decide_eq_false h
      refine ⟨if_neg hne, fun a => ?_⟩
      cases a with
      | received r => cases r <;> simp [gets, hne]
      | _ => rfl
  | _ =>
      refine ⟨?_, fun a => rfl⟩
      simp_all [Event.concerns, attend]

theorem foldl_attend_filter (id : ListenerId) (ch : ChannelId) (c : Channel Payload)
    (es : List Event) :
    (es.filter (Event.concerns id ch)).foldl (attend id ch) c = es.foldl (attend id ch) c := by
  induction es generalizing c with
  | nil => rfl
  | cons e es ih =>
      cases he : e.concerns id ch with
      | true => simp [he, ih]
      | false => simp [he, ih, (attend_of_not_concerns he c).1]

theorem heard_filter (id : ListenerId) (ch : ChannelId) (c : Channel Payload) (es : List Event) :
    heard id ch c (es.filter (Event.concerns id ch)) = heard id ch c es := by
  induction es generalizing c with
  | nil => rfl
  | cons e es ih =>
      cases he : e.concerns id ch with
      | true => simp [he, heard, ih]
      | false =>
          obtain ⟨hattend, hgets⟩ := attend_of_not_concerns he c
          simp [he, heard, ih, hattend, hgets]

theorem sending_attend (id : ListenerId) (ch : ChannelId) (c : Channel Payload) (e : Event) :
    (attend id ch c e).sending = (c.sending && !e.ends id) := by
  cases e with
  | publish p =>
      simp only [attend, Event.ends, Bool.not_false, Bool.and_true]
      split
      · exact c.sending_offer p
      · rfl
  | receive ch' =>
      simp only [attend, Event.ends, Bool.not_false, Bool.and_true]
      split
      · exact c.sending_receive
      · rfl
  | _ =>
      simp only [attend]
      split <;> simp_all [Channel.dropSender]

/-- The sender is held until the subscription ends. -/
theorem sending_foldl_attend (id : ListenerId) (ch : ChannelId) (c : Channel Payload)
    (es : List Event) :
    (es.foldl (attend id ch) c).sending = (c.sending && !es.any (Event.ends id)) := by
  induction es generalizing c with
  | nil => simp
  | cons e es ih =>
      rw [List.foldl_cons, ih, sending_attend, List.any_cons, Bool.not_or, Bool.and_assoc]

theorem capacity_attend (id : ListenerId) (ch : ChannelId) (c : Channel Payload) (e : Event) :
    (attend id ch c e).capacity = c.capacity := by
  cases e with
  | publish p =>
      simp only [attend]
      split
      · exact c.capacity_offer p
      · rfl
  | receive ch' =>
      simp only [attend]
      split
      · exact c.capacity_receive
      · rfl
  | _ =>
      simp only [attend]
      split <;> rfl

/-- The buffer never holds more than fits. -/
theorem length_buffer_attend_le {c : Channel Payload} (h : c.buffer.length ≤ c.capacity)
    (id : ListenerId) (ch : ChannelId) (e : Event) :
    (attend id ch c e).buffer.length ≤ c.capacity := by
  cases e with
  | publish p =>
      simp only [attend]
      split
      · exact c.length_buffer_offer_le p h
      · exact h
  | receive ch' =>
      simp only [attend]
      split
      · exact c.length_buffer_receive_le h
      · exact h
  | _ =>
      simp only [attend]
      split <;> exact h

theorem length_buffer_foldl_attend_le {c : Channel Payload} (h : c.buffer.length ≤ c.capacity)
    (id : ListenerId) (ch : ChannelId) (es : List Event) :
    (es.foldl (attend id ch) c).buffer.length ≤ c.capacity := by
  induction es generalizing c with
  | nil => exact h
  | cons e es ih =>
      have hstep := length_buffer_attend_le h id ch e
      rw [← capacity_attend id ch c e] at hstep
      have hrest := ih hstep
      rwa [capacity_attend] at hrest

/-! ### The channel on the stage -/

/-- What an event gives to the listener is what it takes from the channel. -/
theorem gets_step {s : Stage} {id : ListenerId} {ch : ChannelId} {c : Channel Payload}
    (h : s.Seated id ch c) (e : Event) :
    gets ch e (s.step e).1 = gets ch e (.received c.receive.1) := by
  cases e with
  | receive ch' =>
      by_cases hch : ch' = ch
      · subst hch
        rw [step_receive h]
      · have hconcerns : Event.concerns id ch (.receive ch') = false := decide_eq_false hch
        obtain ⟨-, hgets⟩ := attend_of_not_concerns hconcerns c
        rw [hgets, hgets]
  | _ => rfl

theorem received_eq_heard {s : Stage} {id : ListenerId} {ch : ChannelId} {c : Channel Payload}
    (h : s.Seated id ch c) {es : List Event}
    (hes : ∀ e ∈ es, e.makes ch = false ∧ e.gives ch = false) :
    s.received ch es = heard id ch c es := by
  induction es generalizing s c with
  | nil => rfl
  | cons e es ih =>
      obtain ⟨hmakes, hgives⟩ := hes e List.mem_cons_self
      rw [received, heard, gets_step h,
        ih (seated_step h hmakes hgives) fun e' he' => hes e' (List.mem_cons_of_mem e he')]

/-- One event leaves in the channel what was there and what comes, less what is received. -/
theorem gets_append_buffer {c : Channel Payload} (hreceiving : c.receiving = true)
    (id : ListenerId) (ch : ChannelId) (e : Event) :
    gets ch e (.received c.receive.1) ++ (attend id ch c e).buffer =
      c.buffer ++ comes e (c.sending && decide (c.buffer.length < c.capacity)) := by
  cases e with
  | publish p =>
      simp only [gets, attend, comes, List.nil_append]
      cases hsending : c.sending with
      | false => simp
      | true =>
          by_cases hfull : c.capacity ≤ c.buffer.length
          · simp [Channel.buffer_offer, Channel.delivery, hreceiving, hfull]
          · simp [Channel.buffer_offer, Channel.delivery, hreceiving, hfull]
  | receive ch' =>
      simp only [gets, attend, comes, List.append_nil, Channel.receive]
      by_cases hch : ch' = ch
      · subst hch
        cases hbuffer : c.buffer with
        | nil =>
            cases c.sending with
            | true => simp [hbuffer]
            | false => simp [hbuffer]
        | cons p rest => simp
      · cases hbuffer : c.buffer with
        | nil =>
            cases c.sending with
            | true => simp [hch, hbuffer]
            | false => simp [hch, hbuffer]
        | cons p rest => simp [hch, hbuffer]
  | _ =>
      simp only [gets, attend, comes, List.append_nil, List.nil_append]
      split <;> rfl

/-- What has been received and what waits is what waited before and what has come since, as long
as the subscription lasts. -/
theorem received_append_buffer {s : Stage} {id : ListenerId} {ch : ChannelId}
    {c : Channel Payload} (h : s.Seated id ch c) {es : List Event}
    (hes : ∀ e ∈ es, e.makes ch = false ∧ e.gives ch = false) :
    s.received ch es ++ (es.foldl (attend id ch) c).buffer =
      c.buffer ++ if c.sending then s.due id ch c.capacity es else [] := by
  induction es generalizing s c with
  | nil =>
      rw [received, due]
      split <;> simp
  | cons e es ih =>
      obtain ⟨hmakes, hgives⟩ := hes e List.mem_cons_self
      have hrest := ih (seated_step h hmakes hgives) fun e' he' =>
        hes e' (List.mem_cons_of_mem e he')
      have hwaiting : s.waiting ch = c.buffer.length := by
        rw [waiting, h.channel]
        rfl
      rw [received, List.foldl_cons, List.append_assoc, hrest, ← List.append_assoc, gets_step h,
        gets_append_buffer h.receiving, List.append_assoc, sending_attend, capacity_attend, due,
        hwaiting]
      congr 1
      -- nothing more comes once the sender is gone, and an event that ends the subscription brings
      -- nothing itself
      cases hsending : c.sending with
      | false =>
          have hcomes : comes e false = [] := by cases e <;> rfl
          simp [hcomes]
      | true =>
          cases hends : e.ends id with
          | true =>
              have hcomes : ∀ room, comes e room = [] := by
                intro room
                cases e <;> first | rfl | simp [Event.ends] at hends
              simp [hcomes]
          | false => simp

/-! ### From the beginning -/

/-- No listener is subscribed with a channel. -/
def Vacant (s : Stage) (ch : ChannelId) : Prop :=
  ∀ id, s.broadcaster.subscribers.get? id ≠ some ch

theorem vacant_step {s : Stage} {ch : ChannelId} (h : s.Vacant ch) {e : Event}
    (hmakes : e.makes ch = false) : (s.step e).2.Vacant ch := by
  cases e with
  | register id ch' capacity =>
      have hne : ch' ≠ ch := of_decide_eq_false hmakes
      simp only [step, Broadcaster.register]
      split
      · exact h
      · split
        · exact h
        · split
          · exact h
          · intro x hx
            rw [Table.get?_put] at hx
            split at hx
            · exact hne (Option.some.inj hx)
            · exact h x hx
  | unregister id =>
      simp only [step, Broadcaster.unregister]
      split
      · exact h
      · intro x hx
        rw [Table.get?_erase] at hx
        split at hx
        · simp at hx
        · exact h x hx
  | publish p =>
      intro x hx
      simp only [step, Broadcaster.publish, Table.get?_filter] at hx
      exact h x (Option.filter_eq_some_iff.1 hx).1
  | close =>
      intro x hx
      simp [step, Broadcaster.close] at hx
  | receive ch' =>
      simp only [step]
      split <;> exact h
  | contains id => exact h
  | dropReceiver ch' => exact h

theorem vacant_run {s : Stage} {ch : ChannelId} (h : s.Vacant ch) {es : List Event}
    (hes : ∀ e ∈ es, e.makes ch = false) : (s.run es).Vacant ch := by
  induction es generalizing s with
  | nil => exact h
  | cons e es ih =>
      exact ih (vacant_step h (hes e List.mem_cons_self)) fun e' he' =>
        hes e' (List.mem_cons_of_mem e he')

theorem vacant_new (room : RoomId) (ch : ChannelId) : (new room).Vacant ch := by
  intro id h
  simp [new, Broadcaster.new] at h

/-- The channel with which a listener comes to be registered; its sender is lost at once if the
listener is refused or has another channel already. -/
def made (s : Stage) (id : ListenerId) (capacity : Nat) : Channel Payload :=
  { Channel.new capacity with
    sending := !s.broadcaster.closed && !s.broadcaster.contains id }

/-- A channel just made for a listener is the listener's alone. -/
theorem seated_register_new {s : Stage} (id : ListenerId) {ch : ChannelId} {capacity : Nat}
    (hcapacity : Channel.isCapacity capacity = true) (h : s.Vacant ch) :
    (s.step (.register id ch capacity)).2.Seated id ch (s.made id capacity) := by
  have hdrop : ((s.channels.put ch (Channel.new capacity)).modify ch Channel.dropSender).get? ch =
      some (Channel.new capacity).dropSender := by
    rw [Table.get?_modify, if_pos rfl, Table.get?_put, if_pos rfl]
    rfl
  simp only [step, hcapacity, Bool.not_true, Bool.false_eq_true, if_false, Broadcaster.register,
    made]
  -- the sender is kept only by an open broadcaster to which the listener is new
  cases hclosed : s.broadcaster.closed with
  | true =>
      refine ⟨hdrop, rfl, fun hs => absurd hs (by simp), fun x hx => absurd hx (h x)⟩
  | false =>
      cases hcontains : s.broadcaster.contains id with
      | true =>
          have hsub : s.broadcaster.subscribers.contains id = true := hcontains
          simp only [Bool.false_eq_true, if_false, hsub, if_true]
          refine ⟨hdrop, rfl, fun hs => absurd hs (by simp), fun x hx => absurd hx (h x)⟩
      | false =>
          have hsub : s.broadcaster.subscribers.contains id = false := hcontains
          simp only [Bool.false_eq_true, if_false, hsub]
          refine ⟨?_, rfl, fun _ => ?_, fun x hx => ?_⟩
          · rw [Table.get?_put, if_pos rfl]
            rfl
          · rw [Table.get?_put, if_pos rfl]
          · rw [Table.get?_put] at hx
            split at hx
            case isTrue hid =>
              exact ⟨hid, rfl⟩
            case isFalse => exact absurd hx (h x)

/-! ### A closed broadcaster -/

/-- A broadcaster that has been closed and has no subscribers. -/
def Shut (s : Stage) : Prop :=
  s.broadcaster.closed = true ∧ s.broadcaster.subscribers = Table.empty

theorem shut_step {s : Stage} (h : s.Shut) (e : Event) : (s.step e).2.Shut := by
  obtain ⟨hclosed, hempty⟩ := h
  cases e with
  | register id ch capacity =>
      simp only [step, Broadcaster.register, hclosed, if_true]
      split <;> exact ⟨hclosed, hempty⟩
  | unregister id =>
      simp only [step, Broadcaster.unregister, hempty, Table.get?_empty]
      exact ⟨hclosed, hempty⟩
  | publish p =>
      simp only [step, Broadcaster.publish, hempty]
      exact ⟨hclosed, rfl⟩
  | close => exact ⟨rfl, rfl⟩
  | receive ch =>
      simp only [step]
      split <;> exact ⟨hclosed, hempty⟩
  | contains id => exact ⟨hclosed, hempty⟩
  | dropReceiver ch => exact ⟨hclosed, hempty⟩

theorem shut_run {s : Stage} (h : s.Shut) (es : List Event) : (s.run es).Shut := by
  induction es generalizing s with
  | nil => exact h
  | cons e es ih => exact ih (shut_step h e)

theorem shut_of_close (s : Stage) : (s.step .close).2.Shut := ⟨rfl, rfl⟩

/-! ### The streams -/

/-- The stage on which a listener has just been registered with a channel. -/
def joined (room : RoomId) (before : List Event) (id : ListenerId) (ch : ChannelId)
    (capacity : Nat) : Stage := (((new room).run before).step (.register id ch capacity)).2

/-- The registration of a listener is kept after these events. -/
def Keeps (room : RoomId) (before : List Event) (id : ListenerId) : Prop :=
  ((new room).run before).broadcaster.closed = false ∧
    ((new room).run before).broadcaster.contains id = false

instance (room : RoomId) (before : List Event) (id : ListenerId) :
    Decidable (Keeps room before id) := inferInstanceAs (Decidable (_ ∧ _))

theorem held?_of_seated {s : Stage} {id : ListenerId} {ch : ChannelId} {c : Channel Payload}
    (h : s.Seated id ch c) : s.held? ch = some c := by
  rw [held?, h.channel]
  exact Option.filter_eq_some_iff.2 ⟨rfl, h.receiving⟩

/-- A listener finds its stream at an end when nothing waits and nothing can come. -/
theorem disconnected_iff {s : Stage} {id : ListenerId} {ch : ChannelId} {c : Channel Payload}
    (h : s.Seated id ch c) :
    (s.step (.receive ch)).1 = .received .disconnected ↔ c.sending = false ∧ c.buffer = [] := by
  rw [step_receive h, Answer.received.injEq, Channel.receive_eq_disconnected_iff, and_comm]

/-- A listener's channel after a series of events that begins with its registration. -/
theorem seated_of_joined {room : RoomId} {before after : List Event} (id : ListenerId)
    {ch : ChannelId} {capacity : Nat} (hcapacity : Channel.isCapacity capacity = true)
    (hmakes : ∀ e ∈ before ++ after, e.makes ch = false)
    (hgives : ∀ e ∈ after, e.gives ch = false) :
    let c := ((new room).run before).made id capacity
    ((joined room before id ch capacity).run after).Seated id ch (after.foldl (attend id ch) c) ∧
      (joined room before id ch capacity).received ch after = heard id ch c after ∧
      (joined room before id ch capacity).received ch after ++
          (after.foldl (attend id ch) c).buffer =
        if c.sending then (joined room before id ch capacity).due id ch capacity after else [] := by
  intro c
  have hbefore : ∀ e ∈ before, e.makes ch = false := fun e he =>
    hmakes e (List.mem_append_left _ he)
  have hafter : ∀ e ∈ after, e.makes ch = false ∧ e.gives ch = false := fun e he =>
    ⟨hmakes e (List.mem_append_right _ he), hgives e he⟩
  have hseated : (joined room before id ch capacity).Seated id ch c :=
    seated_register_new id hcapacity (vacant_run (vacant_new room ch) hbefore)
  exact ⟨seated_run hseated hafter, received_eq_heard hseated hafter,
    received_append_buffer hseated hafter⟩

theorem made_of_keeps {room : RoomId} {before : List Event} {id : ListenerId}
    (h : Keeps room before id) (capacity : Nat) :
    ((new room).run before).made id capacity = Channel.new capacity := by
  rw [made, h.1, h.2]
  rfl

/-- Every subscriber whose registration is kept receives, in order, exactly what is published during
its subscription while there is room in its buffer, and is told the end of its stream exactly when
the subscription or the broadcaster has ended and its buffer is empty; other subscribers make no
difference to it. A receiver whose registration is not kept receives nothing and is told the end at
once. A closed broadcaster stays closed and without subscribers. -/
theorem streams_exact {room : RoomId} {before after : List Event} (id : ListenerId)
    {ch : ChannelId} {capacity : Nat} (hcapacity : Channel.isCapacity capacity = true)
    (hmakes : ∀ e ∈ before ++ after, e.makes ch = false)
    (hgives : ∀ e ∈ after, e.gives ch = false) :
    let start := joined room before id ch capacity
    let last := start.run after
    (Keeps room before id →
        ∃ c, last.held? ch = some c ∧
          start.received ch after ++ c.buffer = start.due id ch capacity after ∧
          c.buffer.length ≤ capacity ∧
          ((last.step (.receive ch)).1 = .received .disconnected ↔
            after.any (Event.ends id) = true ∧ c.buffer = []) ∧
          ∀ room' before' after', Keeps room' before' id →
            (∀ e ∈ before' ++ after', e.makes ch = false) →
            (∀ e ∈ after', e.gives ch = false) →
            after'.filter (Event.concerns id ch) = after.filter (Event.concerns id ch) →
            (joined room' before' id ch capacity).received ch after' = start.received ch after ∧
              ((joined room' before' id ch capacity).run after').held? ch = some c) ∧
      (¬ Keeps room before id →
        start.received ch after = [] ∧
          (last.step (.receive ch)).1 = .received .disconnected) ∧
      ∀ earlier later, ((new room).run (earlier ++ .close :: later)).Shut := by
  intro start last
  obtain ⟨hseated, hheard, hlaw⟩ := seated_of_joined id hcapacity hmakes hgives
  refine ⟨fun hkeeps => ?_, fun hrefused => ?_, fun earlier later => ?_⟩
  · rw [made_of_keeps hkeeps] at hseated hheard hlaw
    refine ⟨_, held?_of_seated hseated, hlaw, ?_, ?_, ?_⟩
    · exact length_buffer_foldl_attend_le (c := Channel.new capacity) (Nat.zero_le _) id ch after
    · rw [disconnected_iff hseated, sending_foldl_attend]
      simp [Channel.new]
    · intro room' before' after' hkeeps' hmakes' hgives' hsame
      obtain ⟨hseated', hheard', -⟩ := seated_of_joined id hcapacity hmakes' hgives'
      rw [made_of_keeps hkeeps'] at hseated' hheard'
      refine ⟨?_, ?_⟩
      · rw [hheard', ← heard_filter, hsame, heard_filter]
        exact hheard.symm
      · rw [held?_of_seated hseated', ← foldl_attend_filter, hsame, foldl_attend_filter]
  · have hsending : (((new room).run before).made id capacity).sending = false := by
      cases hclosed : ((new room).run before).broadcaster.closed with
      | true => simp [made, hclosed]
      | false =>
          cases hcontains : ((new room).run before).broadcaster.contains id with
          | true => simp [made, hcontains]
          | false => exact absurd ⟨hclosed, hcontains⟩ hrefused
    rw [hsending, if_neg Bool.false_ne_true] at hlaw
    obtain ⟨hreceived, hbuffer⟩ := List.append_eq_nil_iff.1 hlaw
    refine ⟨hreceived, (disconnected_iff hseated).2 ⟨?_, hbuffer⟩⟩
    rw [sending_foldl_attend, hsending, Bool.false_and]
  · rw [run_append]
    exact shut_run (shut_of_close _) later

/-- What a slow listener, the second of two, lives through. -/
def slowLife : List Event :=
  [.publish "a", .publish "b", .receive ⟨2⟩, .unregister ⟨1⟩, .publish "c", .unregister ⟨2⟩,
    .publish "d"]

/-- With room for one payload it misses what comes while that waits, and what comes after its
subscription. -/
theorem streams_exact_slow :
    Keeps ⟨"r"⟩ [.register ⟨1⟩ ⟨1⟩ 2] ⟨2⟩ ∧
      ∃ c, ((joined ⟨"r"⟩ [.register ⟨1⟩ ⟨1⟩ 2] ⟨2⟩ ⟨2⟩ 1).run slowLife).held? ⟨2⟩ = some c ∧
        (joined ⟨"r"⟩ [.register ⟨1⟩ ⟨1⟩ 2] ⟨2⟩ ⟨2⟩ 1).received ⟨2⟩ slowLife ++ c.buffer =
          ["a", "c"] := by
  have hkeeps : Keeps ⟨"r"⟩ [.register ⟨1⟩ ⟨1⟩ 2] ⟨2⟩ := by decide
  have hcapacity : Channel.isCapacity 1 = true := by decide
  have hmakes : ∀ e ∈ [.register ⟨1⟩ ⟨1⟩ 2] ++ slowLife, e.makes ⟨2⟩ = false := by decide
  obtain ⟨c, hheld, hstream, -⟩ :=
    (streams_exact ⟨2⟩ hcapacity hmakes (by decide)).1 hkeeps
  exact ⟨hkeeps, c, hheld, hstream⟩

end Stage

end ChatServer
