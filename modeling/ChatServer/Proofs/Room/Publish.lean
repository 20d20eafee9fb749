import Mathlib.Data.List.Nodup
import ChatServer.Proofs.Room.Sound
import ChatServer.Proofs.Room.Stream

/-!
A payload goes from subscriber to subscriber. Each is offered it in turn, and those whose receiver
was found gone are taken out after the round. As long as every subscriber has a channel of its own,
what one finds does not depend on who was asked before (`publishIn_eq_publish`), and the round
divides the subscribers into three classes (`publish_account`).
-/

namespace ChatServer

namespace Broadcaster

/-! ### The round -/

/-- How far a payload has got on its way through the subscribers. -/
structure Round where
  report : PublishReport
  /-- Whose receiver was found gone. -/
  gone : List ListenerId
  channels : Channels

/-- Offers the payload to one more subscriber. -/
def Round.visit (p : Payload) (r : Round) (e : ListenerId × ChannelId) : Round :=
  match r.channels.delivery e.2 with
  | .accepted =>
      { r with
        report := { r.report with delivered := r.report.delivered + 1 }
        channels := r.channels.modify e.2 (·.offer p) }
  | .full => { r with report := { r.report with dropped := r.report.dropped + 1 } }
  | .gone => { r with gone := r.gone ++ [e.1] }

/-- Offers a payload to the subscribers in the order given, and takes out those whose receiver was
found gone when all have been asked. -/
def publishIn (order : List (ListenerId × ChannelId)) (b : Broadcaster) (chs : Channels)
    (p : Payload) : PublishReport × Broadcaster × Channels :=
  let r := order.foldl (Round.visit p) ⟨⟨0, 0⟩, [], chs⟩
  (r.report, { b with subscribers := r.gone.foldl Table.erase b.subscribers }, r.channels)

/-- No two subscribers share a channel. -/
def Apart (b : Broadcaster) : Prop :=
  ∀ id id' ch, b.subscribers.get? id = some ch → b.subscribers.get? id' = some ch → id = id'

theorem Sound.apart {b : Broadcaster} (h : b.Sound) : b.Apart := fun id id' ch hid hid' =>
  ListenerId.channel_inj.1 ((h id ch hid).symm.trans (h id' ch hid'))

theorem apart_iff {b : Broadcaster} : b.Apart ↔ b.targets.Nodup := by
  constructor
  · intro h
    refine List.Nodup.map_on (fun e he e' he' hsame => ?_)
      (List.Nodup.of_map _ b.subscribers.nodup)
    have hget : b.subscribers.get? e.1 = some e.2 := Table.mem_entries.1 he
    have hget' : b.subscribers.get? e'.1 = some e.2 := hsame ▸ Table.mem_entries.1 he'
    exact Prod.ext (h e.1 e'.1 e.2 hget hget') hsame
  · intro h id id' ch hget hget'
    have hsame := List.inj_on_of_nodup_map h (Table.mem_entries.2 hget)
      (Table.mem_entries.2 hget') rfl
    exact congrArg Prod.fst hsame

theorem modify_offer_of_ne {chs : Channels} {ch : ChannelId} (h : chs.delivery ch ≠ .accepted)
    (p : Payload) : chs.modify ch (·.offer p) = chs := by
  unfold Table.modify
  cases hget : chs.get? ch with
  | none => rfl
  | some c =>
      have hc : c.delivery ≠ .accepted := by simpa [Channels.delivery, hget] using h
      have hoffer : c.offer p = c := by rw [Channel.offer, if_neg hc]
      dsimp only
      rw [hoffer, Table.put_of_get? hget]

theorem delivery_modify_of_ne {chs : Channels} {ch ch' : ChannelId} (h : ch' ≠ ch)
    (f : Channel Payload → Channel Payload) :
    Channels.delivery (chs.modify ch f) ch' = chs.delivery ch' := by
  rw [Channels.delivery, Table.get?_modify, if_neg h, Channels.delivery]

/-- A visit, told by what the channel answers. -/
theorem visit_eq (p : Payload) (r : Round) (e : ListenerId × ChannelId) :
    r.visit p e =
      { report :=
          { delivered := r.report.delivered +
              if r.channels.delivery e.2 = .accepted then 1 else 0
            dropped := r.report.dropped + if r.channels.delivery e.2 = .full then 1 else 0 }
        gone := r.gone ++ if r.channels.delivery e.2 = .gone then [e.1] else []
        channels := r.channels.modify e.2 (·.offer p) } := by
  have hsame : r.channels.delivery e.2 ≠ .accepted →
      r.channels.modify e.2 (·.offer p) = r.channels := fun hne => modify_offer_of_ne hne p
  unfold Round.visit
  cases hdelivery : r.channels.delivery e.2 with
  | accepted => simp
  | full => simp [hsame (by rw [hdelivery]; simp)]
  | gone => simp [hsame (by rw [hdelivery]; simp)]

/-- A round over channels of which none comes twice: every subscriber finds its channel as it was
before the round. -/
theorem foldl_visit (p : Payload) {order : List (ListenerId × ChannelId)}
    (h : (order.map Prod.snd).Nodup) (r : Round) :
    order.foldl (Round.visit p) r =
      { report :=
          { delivered := r.report.delivered +
              order.countP fun e => r.channels.delivery e.2 = .accepted
            dropped := r.report.dropped + order.countP fun e => r.channels.delivery e.2 = .full }
        gone := r.gone ++ (order.filter fun e => r.channels.delivery e.2 = .gone).map Prod.fst
        channels := (order.map Prod.snd).foldl (fun chs ch => chs.modify ch (·.offer p))
          r.channels } := by
  induction order generalizing r with
  | nil => simp
  | cons e order ih =>
      rw [List.map_cons, List.nodup_cons] at h
      have hothers : ∀ e' ∈ order,
          Channels.delivery (r.channels.modify e.2 (·.offer p)) e'.2 = r.channels.delivery e'.2 :=
        fun e' he' => delivery_modify_of_ne
          (fun hsame => h.1 (List.mem_map.2 ⟨e', he', hsame⟩)) _
      have hcount : ∀ d : Delivery,
          (order.countP fun e' => Channels.delivery (r.channels.modify e.2 (·.offer p)) e'.2 = d) =
            order.countP fun e' => r.channels.delivery e'.2 = d :=
        fun d => List.countP_congr fun e' he' => by rw [hothers e' he']
      have hfilter :
          (order.filter fun e' =>
            Channels.delivery (r.channels.modify e.2 (·.offer p)) e'.2 = .gone) =
            order.filter fun e' => r.channels.delivery e'.2 = .gone :=
        List.filter_congr fun e' he' => by rw [hothers e' he']
      rw [List.foldl_cons, ih h.2, visit_eq]
      simp only [hcount, hfilter, List.countP_cons, List.filter_cons, List.map_cons,
        List.foldl_cons, decide_eq_true_eq]
      cases r.channels.delivery e.2 with
      | accepted => simp [Nat.add_assoc, Nat.add_comm]
      | full => simp [Nat.add_assoc, Nat.add_comm]
      | gone => simp

/-- Taking out those who were found gone leaves the others. -/
theorem foldl_erase_eq_filter (b : Broadcaster) (chs : Channels)
    {order : List (ListenerId × ChannelId)} (horder : order.Perm b.subscribers.entries) :
    ((order.filter fun e => chs.delivery e.2 = .gone).map Prod.fst).foldl Table.erase
      b.subscribers = b.subscribers.filter fun _ ch => chs.delivery ch ≠ .gone := by
  refine Table.eq_of_entries ((Table.entries_foldl_erase _ _).trans ?_)
  refine List.filter_congr fun e he => decide_eq_decide.2 (not_congr ?_)
  simp only [List.mem_map, List.mem_filter, decide_eq_true_eq]
  constructor
  · rintro ⟨e', ⟨hmem, hgone⟩, hid⟩
    have hget : b.subscribers.get? e'.1 = some e'.2 :=
      Table.mem_entries.1 (horder.mem_iff.1 hmem)
    have hget' : b.subscribers.get? e.1 = some e.2 := Table.mem_entries.1 he
    rw [hid, hget'] at hget
    rw [Option.some.inj hget]
    exact hgone
  · exact fun hgone => ⟨e, ⟨horder.mem_iff.2 he, hgone⟩, rfl⟩

/-- In whatever order the subscribers are asked, the outcome is the same. -/
theorem publishIn_eq_publish {b : Broadcaster} (h : b.Apart) (chs : Channels) (p : Payload)
    {order : List (ListenerId × ChannelId)} (horder : order.Perm b.subscribers.entries) :
    b.publishIn order chs p = b.publish chs p := by
  have htargets : (order.map Prod.snd).Perm b.targets := horder.map Prod.snd
  have hnodup : (order.map Prod.snd).Nodup := htargets.nodup_iff.2 (apart_iff.1 h)
  have hcount : ∀ d : Delivery, (order.countP fun e => chs.delivery e.2 = d) =
      b.targets.countP fun ch => chs.delivery ch = d := fun d => by
    rw [targets, List.countP_map]
    exact horder.countP_eq _
  have hchannels : (order.map Prod.snd).foldl (fun chs ch => chs.modify ch (·.offer p)) chs =
      b.targets.foldl (fun chs ch => chs.modify ch (·.offer p)) chs := by
    refine Table.eq_of_keys ?_ fun ch => ?_
    · rw [Table.keys_foldl_modify, Table.keys_foldl_modify]
    · rw [Table.get?_foldl_modify _ hnodup, Table.get?_foldl_modify _ (apart_iff.1 h)]
      simp only [htargets.mem_iff]
  simp only [publishIn, publish, foldl_visit p hnodup, Nat.zero_add, List.nil_append, hcount,
    foldl_erase_eq_filter b chs horder, hchannels]

/-! ### The account -/

/-- Whom a payload reaches: a subscriber whose receiver is held and whose buffer has room. -/
def Reaches (b : Broadcaster) (chs : Channels) (id : ListenerId) : Prop :=
  ∃ ch c, b.subscribers.get? id = some ch ∧ chs.get? ch = some c ∧ c.receiving = true ∧
    c.buffer.length < c.capacity

/-- Whom a payload misses: a subscriber whose receiver is held and whose buffer is full. -/
def Misses (b : Broadcaster) (chs : Channels) (id : ListenerId) : Prop :=
  ∃ ch c, b.subscribers.get? id = some ch ∧ chs.get? ch = some c ∧ c.receiving = true ∧
    c.capacity ≤ c.buffer.length

/-- Who is gone: a subscriber whose receiver nobody holds, whatever is in its buffer. -/
def Deserted (b : Broadcaster) (chs : Channels) (id : ListenerId) : Prop :=
  ∃ ch, b.subscribers.get? id = some ch ∧ ∀ c, chs.get? ch = some c → c.receiving = false

theorem delivery_eq_accepted_iff {chs : Channels} {ch : ChannelId} :
    chs.delivery ch = .accepted ↔
      ∃ c, chs.get? ch = some c ∧ c.receiving = true ∧ c.buffer.length < c.capacity := by
  unfold Channels.delivery
  cases chs.get? ch with
  | none => simp
  | some c => simp [Channel.delivery_eq_accepted_iff]

theorem delivery_eq_full_iff {chs : Channels} {ch : ChannelId} :
    chs.delivery ch = .full ↔
      ∃ c, chs.get? ch = some c ∧ c.receiving = true ∧ c.capacity ≤ c.buffer.length := by
  unfold Channels.delivery
  cases chs.get? ch with
  | none => simp
  | some c => simp [Channel.delivery_eq_full_iff]

theorem delivery_eq_gone_iff {chs : Channels} {ch : ChannelId} :
    chs.delivery ch = .gone ↔ ∀ c, chs.get? ch = some c → c.receiving = false := by
  unfold Channels.delivery
  cases chs.get? ch with
  | none => simp
  | some c => simp [Channel.delivery_eq_gone_iff]

/-- The subscribers whose channels answer alike. -/
def answering (b : Broadcaster) (chs : Channels) (d : Delivery) : List ListenerId :=
  (b.subscribers.entries.filter fun e => chs.delivery e.2 = d).map Prod.fst

theorem mem_answering {b : Broadcaster} {chs : Channels} {d : Delivery} {id : ListenerId} :
    id ∈ b.answering chs d ↔ ∃ ch, b.subscribers.get? id = some ch ∧ chs.delivery ch = d := by
  simp only [answering, List.mem_map, List.mem_filter, decide_eq_true_eq]
  constructor
  · rintro ⟨e, ⟨hmem, hd⟩, rfl⟩
    exact ⟨e.2, Table.mem_entries.1 hmem, hd⟩
  · rintro ⟨ch, hget, hd⟩
    exact ⟨(id, ch), ⟨Table.mem_entries.2 hget, hd⟩, rfl⟩

theorem mem_answering_accepted {b : Broadcaster} {chs : Channels} {id : ListenerId} :
    id ∈ b.answering chs .accepted ↔ b.Reaches chs id := by
  simp only [mem_answering, delivery_eq_accepted_iff, Reaches, exists_and_left]

theorem mem_answering_full {b : Broadcaster} {chs : Channels} {id : ListenerId} :
    id ∈ b.answering chs .full ↔ b.Misses chs id := by
  simp only [mem_answering, delivery_eq_full_iff, Misses, exists_and_left]

theorem mem_answering_gone {b : Broadcaster} {chs : Channels} {id : ListenerId} :
    id ∈ b.answering chs .gone ↔ b.Deserted chs id := by
  simp only [mem_answering, delivery_eq_gone_iff, Deserted]

theorem length_answering (b : Broadcaster) (chs : Channels) (d : Delivery) :
    (b.answering chs d).length = b.targets.countP fun ch => chs.delivery ch = d := by
  rw [answering, List.length_map, ← List.countP_eq_length_filter, targets, List.countP_map]
  rfl

/-- Every channel answers in one of three ways. -/
theorem answering_perm (b : Broadcaster) (chs : Channels) :
    (b.answering chs .accepted ++ (b.answering chs .full ++ b.answering chs .gone)).Perm
      b.subscribers.keys := by
  unfold answering Table.keys
  induction b.subscribers.entries with
  | nil => simp
  | cons e es ih =>
      cases hd : chs.delivery e.2 with
      | accepted => simpa [hd] using ih
      | full => simpa [hd] using List.perm_middle.trans (ih.cons e.1)
      | gone =>
          rw [← List.append_assoc] at ih ⊢
          simpa [hd, -List.append_assoc] using List.perm_middle.trans (ih.cons e.1)

/-- Whom the payload reaches finds it once, after all that was there. -/
theorem get?_publish_of_reaches {b : Broadcaster} (h : b.Apart) {chs : Channels}
    {id : ListenerId} (hid : b.Reaches chs id) (p : Payload) {ch : ChannelId}
    {c : Channel Payload} (hseat : b.subscribers.get? id = some ch)
    (hchannel : chs.get? ch = some c) :
    (b.publish chs p).2.2.get? ch = some { c with buffer := c.buffer ++ [p] } := by
  have hdelivery : c.delivery = .accepted := by
    obtain ⟨ch', c', hseat', hchannel', hroom⟩ := hid
    rw [hseat] at hseat'
    cases hseat'
    rw [hchannel] at hchannel'
    cases hchannel'
    exact Channel.delivery_eq_accepted_iff.2 hroom
  have hmem : ch ∈ b.targets := List.mem_map.2 ⟨(id, ch), Table.mem_entries.2 hseat, rfl⟩
  rw [publish, Table.get?_foldl_modify _ (apart_iff.1 h), if_pos hmem, hchannel, Option.map_some,
    Channel.offer, if_pos hdelivery]

/-- A channel of nobody whom the payload reaches stays as it was. -/
theorem get?_publish_of_not_reaches {b : Broadcaster} (h : b.Apart) {chs : Channels}
    (p : Payload) {ch : ChannelId}
    (hch : ∀ id, b.Reaches chs id → b.subscribers.get? id ≠ some ch) :
    (b.publish chs p).2.2.get? ch = chs.get? ch := by
  rw [publish, Table.get?_foldl_modify _ (apart_iff.1 h)]
  split
  case isTrue hmem =>
    obtain ⟨e, he, rfl⟩ := List.mem_map.1 hmem
    have hseat : b.subscribers.get? e.1 = some e.2 := Table.mem_entries.1 he
    cases hget : chs.get? e.2 with
    | none => rfl
    | some c =>
        have hdelivery : c.delivery ≠ .accepted := fun haccepted =>
          hch e.1 ⟨e.2, c, hseat, hget, Channel.delivery_eq_accepted_iff.1 haccepted⟩ hseat
        rw [Option.map_some, Channel.offer, if_neg hdelivery]
  case isFalse => rfl

/-- Who is gone loses its place, and nobody else does. -/
theorem get?_subscribers_publish (b : Broadcaster) (chs : Channels) (p : Payload)
    (id : ListenerId) :
    (b.publish chs p).2.1.subscribers.get? id =
      if id ∈ b.answering chs .gone then none else b.subscribers.get? id := by
  simp only [publish, Table.get?_filter, mem_answering]
  cases hseat : b.subscribers.get? id with
  | none => simp
  | some ch => by_cases hgone : chs.delivery ch = .gone <;> simp [hgone]

/-- A published payload, in whatever order it is offered to the subscribers, is put once at the end
of the buffers of those who hold their receivers and have room, and changes no other channel. The
report tells how many these are, and how many hold their receivers but have no room and keep their
places. Those whose receivers are gone, with room or without, lose their places and nobody else
does, and with them the report accounts for all subscribers. The room stays the same and as open as
it was. -/
theorem publish_account (b : Broadcaster) (chs : Channels) (p : Payload) (h : b.Apart) :
    (∀ order : List (ListenerId × ChannelId), order.Perm b.subscribers.entries →
      b.publishIn order chs p = b.publish chs p) ∧
    ∃ reached missed gone : List ListenerId,
      (reached ++ (missed ++ gone)).Perm b.subscribers.keys ∧
      (∀ id, id ∈ reached ↔ b.Reaches chs id) ∧
      (∀ id, id ∈ missed ↔ b.Misses chs id) ∧
      (∀ id, id ∈ gone ↔ b.Deserted chs id) ∧
      let (report, b', chs') := b.publish chs p
      (∀ id ∈ reached, ∀ ch c, b.subscribers.get? id = some ch → chs.get? ch = some c →
        chs'.get? ch = some { c with buffer := c.buffer ++ [p] }) ∧
      (∀ ch, (∀ id ∈ reached, b.subscribers.get? id ≠ some ch) → chs'.get? ch = chs.get? ch) ∧
      (∀ id, b'.subscribers.get? id = if id ∈ gone then none else b.subscribers.get? id) ∧
      report.delivered = reached.length ∧
      report.dropped = missed.length ∧
      report.delivered + report.dropped + gone.length = b.count ∧
      b'.room = b.room ∧ b'.closed = b.closed := by
  refine ⟨fun order horder => publishIn_eq_publish h chs p horder, b.answering chs .accepted,
    b.answering chs .full, b.answering chs .gone, answering_perm b chs,
    fun id => mem_answering_accepted, fun id => mem_answering_full, fun id => mem_answering_gone,
    fun id hid ch c => get?_publish_of_reaches h (mem_answering_accepted.1 hid) p,
    fun ch hch => get?_publish_of_not_reaches h p fun id hid =>
      hch id (mem_answering_accepted.2 hid),
    get?_subscribers_publish b chs p, (length_answering b chs .accepted).symm,
    (length_answering b chs .full).symm, ?_, rfl, rfl⟩
  have hlength := (answering_perm b chs).length_eq
  rw [List.length_append, List.length_append, length_answering, length_answering, Table.keys,
    List.length_map] at hlength
  exact (Nat.add_assoc _ _ _).trans hlength

/-- Three subscribers: the first has room, the second has none, and the third's receiver is gone
although its buffer is full. -/
def trio : Broadcaster :=
  { room := ⟨"r"⟩
    subscribers := ((Table.empty.put ⟨0⟩ ⟨10⟩).put ⟨1⟩ ⟨11⟩).put ⟨2⟩ ⟨12⟩
    closed := false }

/-- Their channels. -/
def trioChannels : Channels :=
  ((Table.empty.put ⟨10⟩ ⟨2, ["a"], true, true⟩).put ⟨11⟩ ⟨1, ["a"], true, true⟩).put ⟨12⟩
    ⟨1, ["a"], true, false⟩

/-- Asked from the last to the first, one takes the payload, one misses it and one is taken out. -/
theorem trio_account :
    trio.Apart ∧
      trio.publishIn trio.subscribers.entries.reverse trioChannels "b" =
        (⟨1, 1⟩, { trio with subscribers := (Table.empty.put ⟨0⟩ ⟨10⟩).put ⟨1⟩ ⟨11⟩ },
          trioChannels.put ⟨10⟩ ⟨2, ["a", "b"], true, true⟩) := by
  have hapart : trio.Apart := apart_iff.2 (by decide)
  have horder := (publish_account trio trioChannels "b" hapart).1 _ (List.reverse_perm _)
  exact ⟨hapart, horder.trans (by decide +kernel)⟩

end Broadcaster

/-! ### Channels of their own -/

namespace Stage

/-- Subscribers stay apart when a channel that is made had no subscriber. -/
theorem apart_step {s : Stage} (h : s.broadcaster.Apart) {e : Event}
    (hvacant : ∀ ch, e.makes ch = true → s.Vacant ch) : (s.step e).2.broadcaster.Apart := by
  cases e with
  | register id ch capacity =>
      have hch : s.Vacant ch := hvacant ch (by simp [Event.makes])
      simp only [step, Broadcaster.register]
      split
      · exact h
      · split
        · exact h
        · split
          · exact h
          · intro x x' ch' hx hx'
            rw [Table.get?_put] at hx hx'
            split at hx
            · cases hx
              split at hx'
              case isTrue hid hid' =>
                exact hid.trans hid'.symm
              case isFalse => exact absurd hx' (hch x')
            · split at hx'
              · cases hx'
                exact absurd hx (hch x)
              · exact h x x' ch' hx hx'
  | unregister id =>
      simp only [step, Broadcaster.unregister]
      split
      · exact h
      · exact fun x x' ch hx hx' => h x x' ch (Table.get?_of_erase hx) (Table.get?_of_erase hx')
  | publish p =>
      intro x x' ch hx hx'
      simp only [step, Broadcaster.publish, Table.get?_filter] at hx hx'
      exact h x x' ch (Option.filter_eq_some_iff.1 hx).1 (Option.filter_eq_some_iff.1 hx').1
  | close =>
      intro x x' ch hx
      simp [step, Broadcaster.close] at hx
  | receive ch =>
      simp only [step]
      split <;> exact h
  | contains id => exact h
  | dropReceiver ch => exact h

/-- Subscribers stay apart as long as no channel is made twice. -/
theorem apart_run {s : Stage} (h : s.broadcaster.Apart) {es : List Event}
    (hvacant : ∀ e ∈ es, ∀ ch, e.makes ch = true → s.Vacant ch)
    (honce : es.Pairwise fun e e' => ∀ ch, e.makes ch = true → e'.makes ch = false) :
    (s.run es).broadcaster.Apart := by
  induction es generalizing s with
  | nil => exact h
  | cons e es ih =>
      rw [List.pairwise_cons] at honce
      refine ih (apart_step h (hvacant e List.mem_cons_self)) (fun e' he' ch hmakes => ?_) honce.2
      refine vacant_step (hvacant e' (List.mem_cons_of_mem e he') ch hmakes) ?_
      cases hmade : e.makes ch with
      | false => rfl
      | true => rw [honce.1 e' he' ch hmade] at hmakes; exact hmakes.symm

/-- The subscribers of a broadcaster that is given a new channel for each have channels of their
own at all times. -/
theorem apart_run_new (room : RoomId) {es : List Event}
    (honce : es.Pairwise fun e e' => ∀ ch, e.makes ch = true → e'.makes ch = false) :
    ((new room).run es).broadcaster.Apart :=
  apart_run (fun _ _ _ hget => absurd hget (by simp [new, Broadcaster.new]))
    (fun _ _ ch _ => vacant_new room ch) honce

end Stage

end ChatServer
