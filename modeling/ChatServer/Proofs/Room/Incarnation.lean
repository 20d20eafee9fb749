import ChatServer.Proofs.Room.Order

/-!
The incarnations of a room and their listeners. A room is there just if it has been founded since it
last came to its end. A listener stays on the list of its room until an order undoes it, or until
something is published there after it was given up; a listener of an earlier incarnation is on no
list, and has nothing to expect but what waited for it when its room came to its end.
-/

namespace ChatServer

namespace Broadcaster

theorem room_register (b : Broadcaster) (chs : Channels) (id : ListenerId) (ch : ChannelId) :
    (b.register chs id ch).2.1.room = b.room := by
  unfold register
  split
  · rfl
  · split <;> rfl

theorem room_unregister (b : Broadcaster) (chs : Channels) (id : ListenerId) :
    (b.unregister chs id).2.1.room = b.room := by
  unfold unregister
  split <;> rfl

end Broadcaster

namespace Registry

namespace Order

/-- A room has been founded since it last came to its end. -/
def Founded (room : RoomId) (os : List Order) : Prop :=
  ∃ before o after, os = before ++ o :: after ∧ o.founds room = true ∧
    ∀ o' ∈ after, o'.ends room = false

/-- A listener keeps its place: nothing undoes it, and nothing is published in its room after it was
given up. -/
def Stays (l : Listener) (os : List Order) : Prop :=
  (∀ o ∈ os, o.undoes l = false) ∧
    ∀ earlier later, os = earlier ++ .drop l.id :: later → ∀ p, .publish l.room p ∉ later

/-- Whether orders take a listener off the list of its room, `held` telling whether somebody holds
it at first. -/
def struck (l : Listener) : Bool → List Order → Bool
  | _, [] => false
  | held, o :: os => o.strikes held l.room l.id || struck l (held && o ≠ .drop l.id) os

theorem founded_cons {room : RoomId} {o : Order} {os : List Order} :
    Founded room (o :: os) ↔
      (o.founds room = true ∧ ∀ o' ∈ os, o'.ends room = false) ∨ Founded room os := by
  constructor
  · rintro ⟨before, o', after, heq, hfounds, hkept⟩
    rcases List.cons_eq_append_iff.1 heq with ⟨rfl, heq⟩ | ⟨before', rfl, rfl⟩
    · obtain ⟨rfl, rfl⟩ := List.cons.inj heq
      exact .inl ⟨hfounds, hkept⟩
    · exact .inr ⟨before', o', after, rfl, hfounds, hkept⟩
  · rintro (⟨hfounds, hkept⟩ | ⟨before, o', after, rfl, hfounds, hkept⟩)
    · exact ⟨[], o, os, rfl, hfounds, hkept⟩
    · exact ⟨o :: before, o', after, rfl, hfounds, hkept⟩

theorem stays_cons {l : Listener} {o : Order} {os : List Order} :
    Stays l (o :: os) ↔ o.undoes l = false ∧ (o = .drop l.id → ∀ p, .publish l.room p ∉ os) ∧
      Stays l os := by
  constructor
  · rintro ⟨hkept, hquiet⟩
    refine ⟨hkept o List.mem_cons_self, fun heq => hquiet [] os (heq ▸ rfl),
      fun o' ho' => hkept o' (List.mem_cons_of_mem o ho'), fun earlier later heq => ?_⟩
    exact hquiet (o :: earlier) later (congrArg (List.cons o) heq)
  · rintro ⟨hfirst, hdrop, hkept, hquiet⟩
    refine ⟨List.forall_mem_cons.2 ⟨hfirst, hkept⟩, fun earlier later heq => ?_⟩
    rcases List.cons_eq_append_iff.1 heq with ⟨rfl, heq⟩ | ⟨earlier', rfl, rfl⟩
    · obtain ⟨hdropped, rfl⟩ := List.cons.inj heq
      exact hdrop hdropped
    · exact hquiet earlier' later rfl

/-- Publishing strikes a listener off that nobody holds, and nothing else does that undoes none. -/
theorem strikes_eq_false {l : Listener} {held : Bool} {o : Order} :
    o.strikes held l.room l.id = false ↔
      o.undoes l = false ∧ (held = false → ∀ p, o ≠ .publish l.room p) := by
  cases o with
  | publish room p => cases held <;> simp [strikes, undoes, ends]
  | _ => simp [strikes]

/-- A listener that nobody holds keeps its place as long as nothing is published. -/
theorem struck_of_given {l : Listener} {os : List Order} :
    struck l false os = false ↔
      (∀ o ∈ os, o.undoes l = false) ∧ ∀ p, .publish l.room p ∉ os := by
  induction os with
  | nil => simp [struck]
  | cons o os ih =>
      have hmem : ∀ p, .publish l.room p ∉ o :: os ↔
          o ≠ .publish l.room p ∧ .publish l.room p ∉ os := by
        intro p
        rw [List.mem_cons, not_or, ne_comm]
      rw [struck, Bool.or_eq_false_iff, strikes_eq_false, Bool.false_and, ih, List.forall_mem_cons]
      constructor
      · rintro ⟨⟨hfirst, hquiet⟩, hkept, hrest⟩
        exact ⟨⟨hfirst, hkept⟩, fun p => (hmem p).2 ⟨hquiet rfl p, hrest p⟩⟩
      · rintro ⟨⟨hfirst, hkept⟩, hquiet⟩
        exact ⟨⟨hfirst, fun _ p => ((hmem p).1 (hquiet p)).1⟩, hkept,
          fun p => ((hmem p).1 (hquiet p)).2⟩

theorem struck_of_held {l : Listener} {os : List Order} :
    struck l true os = false ↔ Stays l os := by
  induction os with
  | nil => simp [struck, Stays]
  | cons o os ih =>
      rw [struck, Bool.or_eq_false_iff, strikes_eq_false, stays_cons, Bool.true_and]
      by_cases hdrop : o = .drop l.id
      · -- from here on nobody holds the listener
        rw [decide_eq_false (not_not_intro hdrop), struck_of_given]
        constructor
        · rintro ⟨⟨hfirst, -⟩, hkept, hquiet⟩
          refine ⟨hfirst, fun _ => hquiet, hkept, fun earlier later heq p hp => hquiet p ?_⟩
          rw [heq]
          exact List.mem_append_right _ (List.mem_cons_of_mem _ hp)
        · rintro ⟨hfirst, hquiet, hkept, -⟩
          exact ⟨⟨hfirst, by simp⟩, hkept, hquiet hdrop⟩
      · simp [hdrop, ih]

theorem struck_of_undone {l : Listener} {held : Bool} {o : Order} {os : List Order} (ho : o ∈ os)
    (hundoes : o.undoes l = true) : struck l held os = true := by
  cases hstruck : struck l held os with
  | true => rfl
  | false =>
      have hkept : ∀ o ∈ os, o.undoes l = false := by
        cases held with
        | true => exact (struck_of_held.1 hstruck).1
        | false => exact (struck_of_given.1 hstruck).1
      rw [hkept o ho] at hundoes
      exact hundoes

end Order

variable {r : Registry}

/-! ### Rooms -/

/-- A room is there just if it was there and has not come to its end, or has been founded since. -/
theorem isSome_count_obeyAll (r : Registry) (os : List Order) (room : RoomId) :
    ((r.obeyAll os).count room).isSome = true ↔
      Order.Founded room os ∨
        ((r.count room).isSome = true ∧ ∀ o ∈ os, o.ends room = false) := by
  induction os generalizing r with
  | nil => simp [Order.Founded]
  | cons o os ih =>
      rw [obeyAll_cons, ih, isSome_count_obey, Order.founded_cons, List.forall_mem_cons,
        Bool.or_eq_true, Bool.and_eq_true, Bool.not_eq_true']
      grind

/-- Every broadcaster knows its room. -/
def Keyed (r : Registry) : Prop :=
  ∀ room b, r.rooms.get? room = some b → b.room = room

theorem Keyed.put (h : r.Keyed) {room : RoomId} {b : Broadcaster} (hb : b.room = room)
    (channels : Channels) (next : Nat) :
    ({ r with rooms := r.rooms.put room b, channels, next } : Registry).Keyed :=
  Table.forall_get?_put hb h

theorem room_roomOrNew (h : r.Keyed) (room : RoomId) : (r.roomOrNew room).room = room := by
  unfold roomOrNew
  cases hroom : r.rooms.get? room with
  | none => rfl
  | some b => exact h room b hroom

theorem keyed_openListener (h : r.Keyed) (room : RoomId) : (r.openListener room).2.Keyed :=
  h.put ((Broadcaster.room_register _ _ _ _).trans (room_roomOrNew h room)) _ _

theorem keyed_closeListener (h : r.Keyed) (room : RoomId) (id : ListenerId) :
    (r.closeListener room id).Keyed := by
  unfold closeListener
  cases hroom : r.rooms.get? room with
  | none => exact h
  | some b =>
      exact h.put ((b.room_unregister _ _).trans (h room b hroom)) _ r.next

theorem keyed_obey (h : r.Keyed) (o : Order) : (r.obey o).Keyed := by
  cases o with
  | create room =>
      rcases create_eq r room with heq | ⟨-, heq⟩
      · rwa [obey, heq]
      · rw [obey, heq]
        exact h.put (b := Broadcaster.new room) rfl r.channels r.next
  | listen room => exact keyed_openListener h room
  | abandon room =>
      exact keyed_closeListener (r := (r.openListener room).2.dropReceiver _)
        (keyed_openListener h room) room _
  | close room id => exact keyed_closeListener h room id
  | delete room =>
      simp only [obey, delete]
      split
      · exact h
      · exact fun x b hx => h x b (Table.get?_of_erase hx)
  | publish room p =>
      simp only [obey, publish]
      cases hroom : r.rooms.get? room with
      | none => exact h
      | some b =>
          exact h.put (b := (b.publish r.channels p).2.1) (h room b hroom) _ r.next
  | receive id =>
      simp only [obey, receive]
      split <;> exact h
  | drop id => exact h
  | closeAll =>
      intro room b hb
      simp [obey, closeAll] at hb

theorem keyed_obeyAll (h : r.Keyed) (os : List Order) : (r.obeyAll os).Keyed := by
  induction os generalizing r with
  | nil => exact h
  | cons o os ih => exact ih (keyed_obey h o)

theorem keyed_new (capacity : Nat) : (new capacity).Keyed := by
  intro room b hb
  simp [new] at hb

theorem capacity_obeyAll (r : Registry) (os : List Order) :
    (r.obeyAll os).capacity = r.capacity := by
  induction os generalizing r with
  | nil => rfl
  | cons o os ih => exact (ih (r.obey o)).trans (fields_obey r o).2

/-- Closing a listener that is not there changes nothing. -/
theorem closeListener_of_not_lists {room : RoomId} {id : ListenerId}
    (h : r.lists room id = false) : r.closeListener room id = r := by
  unfold closeListener
  cases hroom : r.rooms.get? room with
  | none => rfl
  | some b =>
      have hnone : b.subscribers.get? id = none := by
        rw [lists_of_get? hroom, Broadcaster.contains, Table.contains] at h
        simpa using h
      simp only [Broadcaster.unregister, hnone, Table.put_of_get? hroom]

/-- A room whose last listener is closed is still there, with none. -/
theorem count_close_last (h : r.Proper) {room : RoomId} {id : ListenerId}
    (hone : r.count room = some 1) (hlists : r.lists room id = true) :
    (r.closeListener room id).count room = some 0 := by
  have hsome := isSome_count_closeListener r room id room
  rw [hone] at hsome
  obtain ⟨n, hn⟩ := Option.isSome_iff_exists.1 hsome
  obtain ⟨ids, hnodup, hlength, hmem⟩ := count_eq hone
  obtain ⟨ids', hnodup', hlength', hmem'⟩ := count_eq hn
  obtain ⟨-, -, -, hclosed, -⟩ := closeListener_spec h room id
  obtain ⟨id', rfl⟩ := List.length_eq_one_iff.1 hlength
  obtain rfl := List.mem_singleton.1 ((hmem id).2 hlists)
  -- whoever is still there was there before, and is not the one that was closed
  have hnone : ids' = [] := by
    refine List.eq_nil_iff_forall_not_mem.2 fun x hx => ?_
    have hx' := (hmem' x).1 hx
    rw [hclosed, Bool.and_eq_true, Bool.not_eq_true', decide_eq_false_iff_not] at hx'
    exact hx'.2 ⟨rfl, List.mem_singleton.1 ((hmem x).2 hx'.1)⟩
  rw [hn, ← hlength', hnone]
  rfl

/-! ### Listeners -/

/-- A listener is opened by one of a series of orders, which these others follow. -/
def Opens (r : Registry) (os : List Order) (l : Listener) (after : List Order) : Prop :=
  ∃ before, os = before ++ .listen l.room :: after ∧
    ((r.obeyAll before).openListener l.room).1 = l

variable {l : Listener} {c : Channel Payload} {os after : List Order}

namespace Known

/-- A listener that is known remains so; it is held as long as it is not given up, and it is listed
as long as it is not struck off. -/
theorem obeyAll (hk : r.Known l c) (h : r.Proper) (os : List Order) :
    (∃ c', (r.obeyAll os).Known l c' ∧
        (c'.receiving = true ↔ c.receiving = true ∧ .drop l.id ∉ os)) ∧
      (r.obeyAll os).lists l.room l.id =
        (r.lists l.room l.id && !Order.struck l c.receiving os) := by
  induction os generalizing r c with
  | nil => exact ⟨⟨c, hk, by simp⟩, by simp [Order.struck]⟩
  | cons o os ih =>
      obtain ⟨⟨c', hk', hreceiving⟩, hlists⟩ := ih (hk.obey h o) (proper_obey h o)
      rw [Order.receiving_treats] at hreceiving hlists
      refine ⟨⟨c', hk', ?_⟩, ?_⟩
      · rw [hreceiving, List.mem_cons, not_or, Bool.and_eq_true, Bool.not_eq_true',
          decide_eq_false_iff_not, and_assoc, eq_comm (a := o)]
      · rw [obeyAll_cons, hlists, hk.lists_obey h, Order.struck, Bool.not_or, ← Bool.and_assoc]
        simp

theorem holds_obeyAll (hk : r.Known l c) (h : r.Proper) (os : List Order) :
    (r.obeyAll os).holds l.id = true ↔ r.holds l.id = true ∧ .drop l.id ∉ os := by
  obtain ⟨⟨c', hk', hreceiving⟩, -⟩ := hk.obeyAll h os
  rw [hk'.holds_eq, hk.holds_eq]
  exact hreceiving

/-- A listener that is listed nowhere stays so. -/
theorem lists_obeyAll_of_none (hk : r.Known l c) (h : r.Proper)
    (hnone : r.lists l.room l.id = false) (os : List Order) (room : RoomId) :
    (r.obeyAll os).lists room l.id = false := by
  obtain ⟨⟨c', hk', -⟩, hlists⟩ := hk.obeyAll h os
  by_cases hroom : room = l.room
  · rw [hroom, hlists, hnone, Bool.false_and]
  · exact hk'.lists_eq_false hroom

/-- A listener that has been taken out of its room, or whose room has come to its end, is listed
nowhere. -/
theorem lists_of_undone (hk : r.Known l c) (h : r.Proper) {os : List Order}
    (hundone : ∃ o ∈ os, o.undoes l = true) (room : RoomId) :
    (r.obeyAll os).lists room l.id = false := by
  obtain ⟨⟨c', hk', -⟩, hlists⟩ := hk.obeyAll h os
  obtain ⟨o, ho, hundoes⟩ := hundone
  by_cases hroom : room = l.room
  · rw [hroom, hlists, Order.struck_of_undone ho hundoes, Bool.not_true, Bool.and_false]
  · exact hk'.lists_eq_false hroom

end Known

/-- The stage at which a listener has just been opened. -/
theorem known_of_opens (h : r.Proper) (hopens : r.Opens os l after) :
    ∃ s : Registry, s.Proper ∧ s.Known l (Channel.new r.capacity) ∧ s.lists l.room l.id = true ∧
      r.obeyAll os = s.obeyAll after := by
  obtain ⟨before, rfl, hl⟩ := hopens
  have hproper := proper_obeyAll h before
  have hknown := known_openListener hproper l.room
  rw [hl, capacity_obeyAll] at hknown
  refine ⟨((r.obeyAll before).openListener l.room).2, proper_obey hproper (.listen l.room), hknown,
    hknown.listed rfl rfl, ?_⟩
  rw [obeyAll_append, obeyAll_cons]
  rfl

namespace Opens

theorem append (hopens : r.Opens os l after) (more : List Order) :
    r.Opens (os ++ more) l (after ++ more) := by
  obtain ⟨before, rfl, hl⟩ := hopens
  exact ⟨before, by simp, hl⟩

/-- A listener that has been opened is known ever after, and held until it is given up. -/
theorem known (hopens : r.Opens os l after) (h : r.Proper) :
    ∃ c, (r.obeyAll os).Known l c ∧ (c.receiving = true ↔ .drop l.id ∉ after) := by
  obtain ⟨s, hs, hknown, -, heq⟩ := known_of_opens h hopens
  obtain ⟨⟨c, hc, hreceiving⟩, -⟩ := hknown.obeyAll hs after
  exact ⟨c, heq ▸ hc, hreceiving.trans ⟨And.right, fun hdrop => ⟨rfl, hdrop⟩⟩⟩

theorem lists_iff_stays (hopens : r.Opens os l after) (h : r.Proper) :
    (r.obeyAll os).lists l.room l.id = true ↔ Order.Stays l after := by
  obtain ⟨s, hs, hknown, hlisted, heq⟩ := known_of_opens h hopens
  rw [heq, (hknown.obeyAll hs after).2, hlisted, Bool.true_and, Bool.not_eq_true']
  exact Order.struck_of_held

theorem lists_of_undone (hopens : r.Opens os l after) (h : r.Proper)
    (hundone : ∃ o ∈ after, o.undoes l = true) (room : RoomId) :
    (r.obeyAll os).lists room l.id = false := by
  obtain ⟨s, hs, hknown, -, heq⟩ := known_of_opens h hopens
  rw [heq]
  exact hknown.lists_of_undone hs hundone room

end Opens

/-- Whoever is listed was listed before or has been opened since. -/
theorem opens_of_lists (h : r.Proper) {room : RoomId} {id : ListenerId}
    (hlists : (r.obeyAll os).lists room id = true) :
    r.lists room id = true ∨ ∃ after, r.Opens os ⟨id, room⟩ after := by
  induction os generalizing r with
  | nil => exact .inl hlists
  | cons o os ih =>
      rcases ih (proper_obey h o) hlists with hfirst | ⟨after, before, rfl, hl⟩
      · rw [lists_obey h, Bool.or_eq_true] at hfirst
        rcases hfirst with henrols | hlisted
        · cases o with
          | listen x =>
              obtain ⟨rfl, rfl⟩ := of_decide_eq_true henrols
              exact .inr ⟨os, [], rfl, (openListener_spec h x).1⟩
          | _ => simp [Order.enrols] at henrols
        · exact .inl (Bool.and_eq_true_iff.1 hlisted).1
      · exact .inr ⟨after, o :: before, rfl, hl⟩

/-- From the beginning: a room lists those who were opened there and have kept their place. -/
theorem lists_obeyAll_new {capacity : Nat} {os : List Order} {room : RoomId} {id : ListenerId} :
    ((new capacity).obeyAll os).lists room id = true ↔
      ∃ after, (new capacity).Opens os ⟨id, room⟩ after ∧ Order.Stays ⟨id, room⟩ after := by
  have hproper := proper_new capacity
  constructor
  · intro hlists
    rcases opens_of_lists hproper hlists with hnew | ⟨after, hopens⟩
    · simp [lists, new] at hnew
    · exact ⟨after, hopens, (hopens.lists_iff_stays hproper).1 hlists⟩
  · rintro ⟨after, hopens, hstays⟩
    exact (hopens.lists_iff_stays hproper).2 hstays

/-! ### What a listener receives -/

/-- What waits for a listener. -/
def waiting (r : Registry) (id : ListenerId) : List Payload :=
  ((r.channel? id).map Channel.buffer).getD []

/-- What the holder of a listener takes by an order. -/
def gets (r : Registry) (id : ListenerId) : Order → List Payload
  | .receive id' =>
    match (r.receive id').1 with
    | .item p => if id' = id then [p] else []
    | _ => []
  | _ => []

/-- What the holder of a listener takes by a series of orders. -/
def taken (r : Registry) (id : ListenerId) : List Order → List Payload
  | [] => []
  | o :: os => r.gets id o ++ (r.obey o).taken id os

namespace Known

theorem waiting_eq (hk : r.Known l c) : r.waiting l.id = c.buffer := by
  rw [waiting, hk.channel]
  rfl

/-- What is published in its room reaches a listener that has room for it. -/
theorem waiting_publish (hk : r.Known l c) (h : r.Proper) (hlists : r.lists l.room l.id = true)
    (hreceiving : c.receiving = true) (p : Payload) :
    (r.publish l.room p).waiting l.id =
      r.waiting l.id ++ if (r.waiting l.id).length < r.capacity then [p] else [] := by
  have hchannel := hk.channel_obey h (.publish l.room p)
  rw [Registry.obey, hlists] at hchannel
  rw [waiting, hchannel, hk.waiting_eq, ← hk.capacity]
  simp only [Order.treats, Bool.true_and, decide_true, if_true, Option.map_some, Option.getD_some,
    Channel.buffer_offer, Channel.delivery, hreceiving, Bool.not_true, Bool.false_eq_true, if_false]
  by_cases hfull : c.capacity ≤ c.buffer.length
  · simp [hfull, Nat.not_lt.2 hfull]
  · simp [hfull, Nat.lt_of_not_le hfull]

/-- Nothing comes to a listener that is on no list: an order takes what waits, or leaves it, or
loses it. -/
theorem gets_append_treats (hk : r.Known l c) (hlists : r.lists l.room l.id = false) (o : Order) :
    r.gets l.id o ++ (o.treats (r.lists l.room l.id) l c).buffer <+: c.buffer := by
  cases o with
  | receive id =>
      by_cases hid : id = l.id
      · subst hid
        simp only [gets, receive, hk.channel, Order.treats, if_true, Channel.receive]
        cases hbuffer : c.buffer with
        | nil => cases c.sending <;> simp [hbuffer]
        | cons p rest => simp
      · have hnothing : r.gets l.id (.receive id) = [] := by
          simp only [gets, hid, if_false]
          split <;> rfl
        simp [hnothing, Order.treats, hid]
  | drop id => by_cases hid : id = l.id <;> simp [gets, Order.treats, hid, Channel.dropReceiver]
  | _ => simp [gets, Order.treats, hlists]

/-- A listener that is on no list receives what waits for it and nothing else. -/
theorem taken_append_waiting (hk : r.Known l c) (h : r.Proper)
    (hlists : r.lists l.room l.id = false) (os : List Order) :
    r.taken l.id os ++ (r.obeyAll os).waiting l.id <+: r.waiting l.id := by
  induction os generalizing r c with
  | nil => exact List.prefix_rfl
  | cons o os ih =>
      have hk' : (r.obey o).Known l (o.treats (r.lists l.room l.id) l c) := hk.obey h o
      have hlists' : (r.obey o).lists l.room l.id = false := by
        rw [hk.lists_obey h, hlists, Bool.false_and]
      have hrest := ih hk' (proper_obey h o) hlists'
      rw [hk'.waiting_eq] at hrest
      rw [taken, obeyAll_cons, List.append_assoc, hk.waiting_eq]
      exact ((List.prefix_append_right_inj _).2 hrest).trans (hk.gets_append_treats hlists o)

/-- The deletion of its room leaves a listener what waits for it, and is the end of its place. -/
theorem deleted (hk : r.Known l c) (h : r.Proper) :
    (r.obey (.delete l.room)).lists l.room l.id = false ∧
      (r.obey (.delete l.room)).waiting l.id = r.waiting l.id := by
  have hk' : (r.obey (.delete l.room)).Known l
      (Order.treats (r.lists l.room l.id) l c (.delete l.room)) := hk.obey h _
  refine ⟨?_, ?_⟩
  · rw [hk.lists_obey h]
    simp [Order.strikes, Order.undoes, Order.ends]
  · rw [hk'.waiting_eq, hk.waiting_eq]
    simp only [Order.treats]
    split <;> rfl

end Known

namespace Opens

/-- A listener that nothing has undone and nobody has given up is listed, and everything reaches it
that is published in its room while it has room for it. -/
theorem reached (hopens : r.Opens os l after) (h : r.Proper)
    (hkept : ∀ o ∈ after, o.undoes l = false) (hheld : .drop l.id ∉ after) :
    (r.obeyAll os).lists l.room l.id = true ∧
      ∀ p, ((r.obeyAll os).publish l.room p).lists l.room l.id = true ∧
        ((r.obeyAll os).publish l.room p).waiting l.id = (r.obeyAll os).waiting l.id ++
          if ((r.obeyAll os).waiting l.id).length < r.capacity then [p] else [] := by
  have hproper := proper_obeyAll h os
  obtain ⟨c, hc, hreceiving⟩ := hopens.known h
  have hstays : Order.Stays l after :=
    ⟨hkept, fun earlier later heq => absurd (heq ▸ by simp) hheld⟩
  have hlists := (hopens.lists_iff_stays h).2 hstays
  refine ⟨hlists, fun p => ⟨?_, ?_⟩⟩
  · have hafter := hc.lists_obey hproper (.publish l.room p) l.room
    rw [hlists, hreceiving.2 hheld] at hafter
    exact hafter.trans (by simp [Order.strikes])
  · rw [← capacity_obeyAll r os]
    exact hc.waiting_publish hproper hlists (hreceiving.2 hheld) p

/-- The deletion of its room is the end of a listener: it takes what waits for it by then, and
whoever closes it later does nothing. -/
theorem deleted {before between : List Order} (hopens : r.Opens before l between) (h : r.Proper)
    (later : List Order) :
    let atEnd := r.obeyAll before
    let last := r.obeyAll (before ++ .delete l.room :: later)
    (∀ x, last.closeListener x l.id = last) ∧
      (atEnd.obey (.delete l.room)).taken l.id later ++ last.waiting l.id <+:
        atEnd.waiting l.id := by
  intro atEnd last
  have hbefore : atEnd.Proper := proper_obeyAll h before
  obtain ⟨c, hc, -⟩ := hopens.known h
  obtain ⟨hlists, hwaiting⟩ := hc.deleted hbefore
  have htaken := (hc.obey hbefore (.delete l.room)).taken_append_waiting
    (proper_obey hbefore _) hlists later
  have hlast : last = (atEnd.obey (.delete l.room)).obeyAll later := by
    rw [show last = _ from obeyAll_append r before _, obeyAll_cons]
  refine ⟨fun x => closeListener_of_not_lists ?_, ?_⟩
  · refine (hopens.append (.delete l.room :: later)).lists_of_undone h
      ⟨.delete l.room, by simp, ?_⟩ x
    simp [Order.undoes, Order.ends]
  · rwa [hwaiting, ← hlast] at htaken

end Opens

end Registry

end ChatServer
