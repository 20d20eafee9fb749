import ChatServer.Proofs.Room.Listed

/-!
Rooms under orders. Whatever is done to the rooms and to their listeners' channels is one of a few
orders, and what an order does is said here once: which rooms there are after it, whom they list,
and what has become of the channel of a listener that somebody has been given.
-/

namespace ChatServer.Registry

/-- What rooms are asked to do, and what the holders of listeners do. -/
inductive Order
  | create (room : RoomId)
  | listen (room : RoomId)
  /-- Opens a listener for someone who is no longer there to take it. -/
  | abandon (room : RoomId)
  | close (room : RoomId) (id : ListenerId)
  | delete (room : RoomId)
  | publish (room : RoomId) (p : Payload)
  /-- The holder of a listener takes what comes next. -/
  | receive (id : ListenerId)
  /-- The holder of a listener gives it up. -/
  | drop (id : ListenerId)
  /-- All rooms come to their end, as nobody is left to give orders. -/
  | closeAll
  deriving DecidableEq

def obey (r : Registry) : Order → Registry
  | .create room => r.create room
  | .listen room => (r.openListener room).2
  | .abandon room => r.openAbandoned room
  | .close room id => r.closeListener room id
  | .delete room => (r.delete room).2
  | .publish room p => r.publish room p
  | .receive id => (r.receive id).2
  | .drop id => r.dropReceiver id
  | .closeAll => r.closeAll

def obeyAll (r : Registry) (os : List Order) : Registry := os.foldl obey r

@[simp] theorem obeyAll_nil (r : Registry) : r.obeyAll [] = r := rfl

@[simp] theorem obeyAll_cons (r : Registry) (o : Order) (os : List Order) :
    r.obeyAll (o :: os) = (r.obey o).obeyAll os := rfl

@[simp] theorem obeyAll_append (r : Registry) (os os' : List Order) :
    r.obeyAll (os ++ os') = (r.obeyAll os).obeyAll os' := List.foldl_append

namespace Order

/-- Whether an order brings a room into being, should there be none. -/
def founds (room : RoomId) : Order → Bool
  | .create x | .listen x | .abandon x => x = room
  | _ => false

/-- Whether an order is the end of a room. -/
def ends (room : RoomId) : Order → Bool
  | .delete x => x = room
  | .closeAll => true
  | _ => false

/-- The listeners that an order opens, whether or not anybody takes them. -/
def opened : Order → Nat
  | .listen _ | .abandon _ => 1
  | _ => 0

/-- Whether an order takes a listener out of its room. -/
def undoes (l : Listener) : Order → Bool
  | .close room id => room = l.room ∧ id = l.id
  | o => o.ends l.room

/-- Whether an order takes something of what waits for a listener, or gives all of it up. -/
def takes (id : ListenerId) : Order → Bool
  | .receive id' | .drop id' => id' = id
  | _ => false

@[simp] theorem takes_drop (id : ListenerId) : (drop id).takes id = true := decide_eq_true rfl

end Order

variable {r : Registry}

/-! ### What every order keeps -/

theorem proper_obey (h : r.Proper) (o : Order) : (r.obey o).Proper := by
  cases o with
  | create room => exact proper_create h room
  | listen room => exact (openListener_spec h room).2.1
  | abandon room => exact (spared_openAbandoned h room : Spared (fun _ => False) _ _).proper
  | close room id => exact (closeListener_spec h room id).1
  | delete room => exact (delete_spec h room).1
  | publish room p => exact (publish_spec h room p).1
  | receive id => exact (spared_receive h trivial : Spared (fun _ => True) _ _).proper
  | drop id => exact h.of_channels _
  | closeAll => exact proper_closeAll h

theorem proper_obeyAll (h : r.Proper) (os : List Order) : (r.obeyAll os).Proper := by
  induction os generalizing r with
  | nil => exact h
  | cons o os ih => exact ih (proper_obey h o)

theorem fields_closeListener (r : Registry) (room : RoomId) (id : ListenerId) :
    (r.closeListener room id).next = r.next ∧ (r.closeListener room id).capacity = r.capacity := by
  unfold closeListener
  split <;> exact ⟨rfl, rfl⟩

/-- Numbers are handed out one after the other, and channels are all of one size. -/
theorem fields_obey (r : Registry) (o : Order) :
    (r.obey o).next = r.next + o.opened ∧ (r.obey o).capacity = r.capacity := by
  cases o with
  | abandon room => exact fields_closeListener _ room _
  | close room id => exact fields_closeListener r room id
  | delete room =>
      simp only [obey, delete]
      split <;> exact ⟨rfl, rfl⟩
  | publish room p =>
      simp only [obey, publish]
      split <;> exact ⟨rfl, rfl⟩
  | receive id =>
      simp only [obey, receive]
      split <;> exact ⟨rfl, rfl⟩
  | create room | listen room | drop id | closeAll => exact ⟨rfl, rfl⟩

theorem next_le_obey (r : Registry) (o : Order) : r.next ≤ (r.obey o).next := by
  rw [(fields_obey r o).1]
  exact Nat.le_add_right _ _

theorem next_le_obeyAll (r : Registry) (os : List Order) : r.next ≤ (r.obeyAll os).next := by
  induction os generalizing r with
  | nil => exact Nat.le_refl _
  | cons o os ih => exact Nat.le_trans (next_le_obey r o) (ih _)

/-! ### Which rooms there are -/

/-- A room is there from when it is founded until it comes to its end. -/
theorem isSome_count_put (r : Registry) (x : RoomId) (b : Broadcaster) (channels : Channels)
    (next : Nat) (room : RoomId) :
    (({ r with rooms := r.rooms.put x b, channels, next } : Registry).count room).isSome =
      (decide (x = room) || (r.count room).isSome) := by
  simp only [count, Option.isSome_map, Table.get?_put]
  by_cases hx : room = x
  · simp [hx]
  · simp [hx, Ne.symm hx]

theorem isSome_count_closeListener (r : Registry) (x : RoomId) (id : ListenerId) (room : RoomId) :
    ((r.closeListener x id).count room).isSome = (r.count room).isSome := by
  unfold closeListener
  cases hx : r.rooms.get? x with
  | none => rfl
  | some b =>
      refine (isSome_count_put r x _ _ r.next room).trans ?_
      by_cases heq : x = room
      · subst heq
        simp [count, hx]
      · simp [heq]

theorem isSome_count_obey (r : Registry) (o : Order) (room : RoomId) :
    ((r.obey o).count room).isSome =
      (o.founds room || ((r.count room).isSome && !o.ends room)) := by
  cases o with
  | create x =>
      simp only [obey, Order.founds, Order.ends, Bool.not_false, Bool.and_true]
      rcases create_eq r x with heq | ⟨-, heq⟩
      · have hroom : r.create x = r → (r.count x).isSome = true := by
          intro hsame
          have hput : ((r.create x).rooms.get? x).isSome = true := by
            simp [create, Table.get?_putNew]
          rw [hsame] at hput
          rwa [count, Option.isSome_map]
        rw [heq]
        by_cases hx : x = room
        · simp [← hx, hroom heq]
        · simp [hx]
      · rw [heq]
        exact isSome_count_put r x _ r.channels r.next room
  | listen x =>
      simp only [Order.founds, Order.ends, Bool.not_false, Bool.and_true]
      exact isSome_count_put r x _ _ _ room
  | abandon x =>
      simp only [Order.founds, Order.ends, Bool.not_false, Bool.and_true]
      refine (isSome_count_closeListener _ x _ room).trans ?_
      exact isSome_count_put r x _ _ _ room
  | close x id =>
      simp only [Order.founds, Order.ends, Bool.false_or, Bool.not_false, Bool.and_true]
      exact isSome_count_closeListener r x id room
  | delete x =>
      simp only [obey, delete, Order.founds, Order.ends, Bool.false_or]
      cases hx : r.rooms.get? x with
      | none =>
          by_cases heq : x = room
          · subst heq
            simp [count, hx]
          · simp [heq]
      | some b =>
          simp only [count, Option.isSome_map, Table.get?_erase]
          by_cases heq : room = x
          · simp [heq]
          · simp [heq, Ne.symm heq]
  | publish x p =>
      simp only [obey, publish, Order.founds, Order.ends, Bool.false_or, Bool.not_false,
        Bool.and_true]
      cases hx : r.rooms.get? x with
      | none => rfl
      | some b =>
          refine (isSome_count_put r x _ _ r.next room).trans ?_
          by_cases heq : x = room
          · subst heq
            simp [count, hx]
          · simp [heq]
  | receive id =>
      simp only [obey, receive, Order.founds, Order.ends, Bool.false_or, Bool.not_false,
        Bool.and_true]
      split <;> rfl
  | drop id => simp [obey, dropReceiver, Order.founds, Order.ends, count]
  | closeAll => simp [obey, closeAll, count, Order.founds, Order.ends]

/-! ### Whom rooms list -/

/-- Whether somebody holds a listener. -/
def holds (r : Registry) (id : ListenerId) : Bool :=
  ((r.channel? id).map Channel.receiving).getD false

namespace Order

/-- Whether an order puts a listener on the list of a room, `next` being the next number. -/
def enrols (next : Nat) (room : RoomId) (id : ListenerId) : Order → Bool
  | .listen x => x = room ∧ id = ⟨next⟩
  | _ => false

/-- Whether an order takes a listener off the list of a room; publishing does so to one that nobody
holds. -/
def strikes (held : Bool) (room : RoomId) (id : ListenerId) : Order → Bool
  | .publish x _ => x = room ∧ held = false
  | o => o.undoes ⟨id, room⟩

end Order

theorem delivery_eq_gone_iff (r : Registry) (id : ListenerId) :
    Channels.delivery r.channels id.channel = .gone ↔ r.holds id = false := by
  unfold Channels.delivery holds channel?
  cases r.channels.get? id.channel with
  | none => simp
  | some c =>
      cases hreceiving : c.receiving with
      | false => simp [Channel.delivery, hreceiving]
      | true =>
          simp only [Option.map_some, Option.getD_some, Channel.delivery, hreceiving, Bool.not_true,
            Bool.false_eq_true, if_false]
          split <;> simp

theorem lists_publish (h : r.Proper) (x : RoomId) (p : Payload) (room : RoomId)
    (id : ListenerId) : (r.publish x p).lists room id =
      (r.lists room id && !decide (x = room ∧ r.holds id = false)) := by
  unfold publish
  cases hx : r.rooms.get? x with
  | none =>
      by_cases heq : x = room
      · simp [lists, ← heq, hx]
      · simp [heq]
  | some b =>
      refine (lists_put r x _ _ r.next room id).trans ?_
      by_cases heq : room = x
      · subst heq
        rw [if_pos rfl, lists_of_get? hx]
        simp only [Broadcaster.contains, Table.contains, Table.get?_filter]
        cases hsub : b.subscribers.get? id with
        | none => rfl
        | some ch =>
            obtain rfl := h.sound room b hx id ch hsub
            have hgone := delivery_eq_gone_iff r id
            by_cases hheld : r.holds id = false
            · simp [Option.filter, hgone.2 hheld, hheld]
            · simp [Option.filter, mt hgone.1 hheld, hheld]
      · simp [heq, Ne.symm heq]

theorem lists_obey (h : r.Proper) (o : Order) (room : RoomId) (id : ListenerId) :
    (r.obey o).lists room id =
      (o.enrols r.next room id || (r.lists room id && !o.strikes (r.holds id) room id)) := by
  cases o with
  | create x => simp [obey, Order.enrols, Order.strikes, Order.undoes, Order.ends, lists_create]
  | listen x =>
      obtain ⟨-, -, -, -, hlists, -⟩ := openListener_spec h x
      simp [obey, Order.enrols, Order.strikes, Order.undoes, Order.ends, hlists, Bool.or_comm,
        eq_comm]
  | abandon x =>
      have hspared : Spared (fun _ => False) _ _ := spared_openAbandoned h x
      simp [obey, Order.enrols, Order.strikes, Order.undoes, Order.ends,
        hspared.lists room id not_false]
  | close x id' =>
      obtain ⟨-, -, -, hlists, -⟩ := closeListener_spec h x id'
      simp [obey, Order.enrols, Order.strikes, Order.undoes, hlists, eq_comm]
  | delete x =>
      obtain ⟨-, -, -, hlists, -⟩ := delete_spec h x
      simp [obey, Order.enrols, Order.strikes, Order.undoes, Order.ends, hlists, eq_comm]
  | publish x p => simp [obey, Order.enrols, Order.strikes, lists_publish h]
  | receive id' =>
      have hsame : (r.receive id').2.lists room id = r.lists room id := by
        unfold receive
        split <;> rfl
      simp [obey, Order.enrols, Order.strikes, Order.undoes, Order.ends, hsame]
  | drop id' =>
      have hsame : (r.dropReceiver id').lists room id = r.lists room id := rfl
      simp [obey, Order.enrols, Order.strikes, Order.undoes, Order.ends, hsame]
  | closeAll => simp [obey, Order.enrols, Order.strikes, Order.undoes, Order.ends, lists_closeAll]

/-! ### A listener's channel -/

theorem channel?_closeListener (h : r.Proper) (room : RoomId) (id : ListenerId) :
    (r.closeListener room id).channel? id =
      if r.lists room id then (r.channel? id).map Channel.dropSender else r.channel? id := by
  unfold closeListener
  cases hroom : r.rooms.get? room with
  | none => simp [lists, hroom]
  | some b =>
      rw [lists_of_get? hroom, Broadcaster.contains, Table.contains]
      cases hsub : b.subscribers.get? id with
      | none => simp [channel?, Broadcaster.unregister, hsub]
      | some ch =>
          obtain rfl := h.sound room b hroom id ch hsub
          simp [channel?, Broadcaster.unregister, hsub]

theorem channel?_receive (r : Registry) (id' id : ListenerId) :
    (r.receive id').2.channel? id =
      if id' = id then (r.channel? id).map fun c => c.receive.2 else r.channel? id := by
  unfold receive
  by_cases hid : id' = id
  · subst hid
    cases hc : r.channel? id' with
    | none => simp [hc]
    | some c => simp [channel?]
  · rw [if_neg hid]
    have hch : id.channel ≠ id'.channel := fun heq => hid (ListenerId.channel_inj.1 heq).symm
    cases hc : r.channel? id' with
    | none => rfl
    | some c => simp [channel?, hch]

theorem channel?_dropReceiver (r : Registry) (id' id : ListenerId) :
    (r.dropReceiver id').channel? id =
      if id' = id then (r.channel? id).map Channel.dropReceiver else r.channel? id := by
  simp only [dropReceiver, channel?, Table.get?_modify, ListenerId.channel_inj, eq_comm (a := id)]

namespace Order

/-- What an order makes of a listener's channel, as long as its room lists it and after that. -/
def treats (listed : Bool) (l : Listener) (c : Channel Payload) : Order → Channel Payload
  | .publish room p => if listed && room = l.room then c.offer p else c
  | .receive id => if id = l.id then c.receive.2 else c
  | .drop id => if id = l.id then c.dropReceiver else c
  | o => if listed && o.undoes l then c.dropSender else c

variable (listed : Bool) (l : Listener) (c : Channel Payload) (o : Order)

theorem capacity_treats : (o.treats listed l c).capacity = c.capacity := by
  cases o <;> simp only [treats] <;> split <;> simp [Channel.dropSender, Channel.dropReceiver]

theorem receiving_treats :
    (o.treats listed l c).receiving = (c.receiving && !decide (o = .drop l.id)) := by
  cases o with
  | drop id => by_cases hid : id = l.id <;> simp [treats, hid, Channel.dropReceiver]
  | _ =>
      simp only [treats]
      split <;> simp [Channel.dropSender]

theorem sending_treats :
    (o.treats listed l c).sending = (c.sending && !(listed && o.undoes l)) := by
  cases o with
  | publish room p => simp only [treats, undoes, ends]; split <;> simp
  | receive id => simp only [treats, undoes, ends]; split <;> simp
  | drop id => simp only [treats, undoes, ends]; split <;> simp [Channel.dropReceiver]
  | _ =>
      simp only [treats]
      split
      case isTrue hdone =>
        simp [hdone, Channel.dropSender]
      case isFalse hkept =>
        simp [Bool.not_eq_true _ ▸ hkept]

end Order

/-- A listener that somebody was given, with its channel: no room but its own lists it, and while it
is listed the channel has a sender; should the channel have both its ends, it is listed. -/
structure Known (r : Registry) (l : Listener) (c : Channel Payload) : Prop where
  below : l.id.number < r.next
  home : ∀ room, r.lists room l.id = true → room = l.room
  channel : r.channel? l.id = some c
  capacity : c.capacity = r.capacity
  sender : r.lists l.room l.id = true → c.sending = true
  listed : c.receiving = true → c.sending = true → r.lists l.room l.id = true

variable {l : Listener} {c : Channel Payload}

namespace Known

theorem holds_eq (hk : r.Known l c) : r.holds l.id = c.receiving := by
  rw [holds, hk.channel]
  rfl

theorem lists_eq_false (hk : r.Known l c) {room : RoomId} (hroom : room ≠ l.room) :
    r.lists room l.id = false := by
  cases hlists : r.lists room l.id with
  | false => rfl
  | true => exact absurd (hk.home room hlists) hroom

/-- A listener keeps its place until an order undoes it or its room finds that nobody holds it. -/
theorem lists_obey (hk : r.Known l c) (h : r.Proper) (o : Order) (room : RoomId) :
    (r.obey o).lists room l.id = (r.lists room l.id && !o.strikes c.receiving room l.id) := by
  have hnew : o.enrols r.next room l.id = false := by
    have hne : l.id ≠ ⟨r.next⟩ := by
      intro heq
      have hbelow := hk.below
      rw [heq] at hbelow
      exact Nat.lt_irrefl _ hbelow
    cases o <;> simp [Order.enrols, hne]
  rw [Registry.lists_obey h, hnew, Bool.false_or, hk.holds_eq]

theorem channel_obey (hk : r.Known l c) (h : r.Proper) (o : Order) :
    (r.obey o).channel? l.id = some (o.treats (r.lists l.room l.id) l c) := by
  cases o with
  | create room =>
      have hsame : (r.create room).channel? l.id = r.channel? l.id := rfl
      simp [obey, hsame, hk.channel, Order.treats, Order.undoes, Order.ends]
  | listen room =>
      obtain ⟨-, -, -, -, -, hchannel⟩ := openListener_spec h room
      have hne : l.id ≠ ⟨r.next⟩ := by
        intro heq
        have hbelow := hk.below
        rw [heq] at hbelow
        exact Nat.lt_irrefl _ hbelow
      simp [obey, hchannel, hne, hk.channel, Order.treats, Order.undoes, Order.ends]
  | abandon room =>
      have hspared : Spared (fun _ => False) _ _ := spared_openAbandoned h room
      have hsame := hspared.channel l.id not_false hk.below
      simp [obey, hsame, hk.channel, Order.treats, Order.undoes, Order.ends]
  | close room id =>
      by_cases hid : id = l.id
      · subst hid
        rw [obey, channel?_closeListener h, hk.channel]
        by_cases hroom : room = l.room
        · subst hroom
          cases r.lists l.room l.id <;> simp [Order.treats, Order.undoes]
        · simp [hk.lists_eq_false hroom, Order.treats, Order.undoes, hroom]
      · obtain ⟨-, -, -, -, hchannel⟩ := closeListener_spec h room id
        simp [obey, hchannel l.id (Ne.symm hid), hk.channel, Order.treats, Order.undoes, hid]
  | delete room =>
      obtain ⟨-, -, -, -, hchannel⟩ := delete_spec h room
      rw [obey, hchannel, hk.channel]
      by_cases hroom : room = l.room
      · subst hroom
        cases r.lists l.room l.id <;> simp [Order.treats, Order.undoes, Order.ends]
      · simp [hk.lists_eq_false hroom, Order.treats, Order.undoes, Order.ends, hroom]
  | publish room p =>
      obtain ⟨-, -, -, -, -, hchannel⟩ := publish_spec h room p
      rw [obey, hchannel, hk.channel]
      by_cases hroom : room = l.room
      · subst hroom
        cases r.lists l.room l.id <;> simp [Order.treats]
      · simp [hk.lists_eq_false hroom, Order.treats, hroom]
  | receive id =>
      rw [obey, channel?_receive, hk.channel]
      by_cases hid : id = l.id <;> simp [Order.treats, hid]
  | drop id =>
      rw [obey, channel?_dropReceiver, hk.channel]
      by_cases hid : id = l.id <;> simp [Order.treats, hid]
  | closeAll =>
      rw [obey, channel?_closeAll h, hk.channel]
      cases hlists : r.lists l.room l.id with
      | true =>
          rw [if_pos ((any_contains_iff r l.id).2 ⟨l.room, hlists⟩)]
          rfl
      | false =>
          refine if_neg fun hany => ?_
          obtain ⟨room, hroom⟩ := (any_contains_iff r l.id).1 hany
          rw [hk.home room hroom, hlists] at hroom
          exact absurd hroom (by simp)

theorem obey (hk : r.Known l c) (h : r.Proper) (o : Order) :
    (r.obey o).Known l (o.treats (r.lists l.room l.id) l c) where
  below := Nat.lt_of_lt_of_le hk.below (next_le_obey r o)
  home room hroom := by
    rw [hk.lists_obey h] at hroom
    exact hk.home room (Bool.and_eq_true_iff.1 hroom).1
  channel := hk.channel_obey h o
  capacity := by rw [Order.capacity_treats, hk.capacity, (fields_obey r o).2]
  sender hlists := by
    rw [hk.lists_obey h] at hlists
    obtain ⟨hlisted, hkept⟩ := Bool.and_eq_true_iff.1 hlists
    have hdone : o.undoes l = false := by
      cases o with
      | publish room p => rfl
      | _ => simpa only [Order.strikes, Bool.not_eq_true'] using hkept
    rw [Order.sending_treats, hk.sender hlisted, hdone, Bool.and_false]
    rfl
  listed hreceiving hsending := by
    rw [Order.receiving_treats] at hreceiving
    rw [Order.sending_treats] at hsending
    obtain ⟨hheld, -⟩ := Bool.and_eq_true_iff.1 hreceiving
    obtain ⟨hsent, hkept⟩ := Bool.and_eq_true_iff.1 hsending
    have hlisted := hk.listed hheld hsent
    rw [hlisted, Bool.true_and] at hkept
    rw [hk.lists_obey h, hlisted, hheld, Bool.true_and]
    cases o with
    | publish room p => simp [Order.strikes]
    | _ => exact hkept

end Known

/-- A listener that somebody is given is known. -/
theorem known_openListener (h : r.Proper) (room : RoomId) :
    (r.openListener room).2.Known (r.openListener room).1 (Channel.new r.capacity) := by
  obtain ⟨hlistener, -, hnext, hcapacity, hlists, hchannel⟩ := openListener_spec h room
  have hlisted : (r.openListener room).2.lists room ⟨r.next⟩ = true := by
    rw [hlists]
    simp
  rw [hlistener]
  refine ⟨?_, fun x hx => ?_, ?_, hcapacity.symm, fun _ => rfl, fun _ _ => hlisted⟩
  · rw [hnext]
    exact Nat.lt_succ_self _
  · rw [hlists, h.lists_next] at hx
    simpa using hx
  · rw [hchannel, if_pos rfl]

end ChatServer.Registry
