import ChatServer.Proofs.Connection.Work

/-!
A connection has a listener registered in the room that it has joined, if that has not been deleted
since, and nowhere else; one that has ended has none. So the number of a room's listeners is that of
the listeners that the user of the server has there and of the connections that hear it.
-/

namespace ChatServer.Hub

/-- A listener that was opened for an owner is registered in a room. -/
def Registered (h : Hub) (subs : List Subscription) (owner : Option Label) (room : RoomId)
    (l : Listener) : Prop :=
  ⟨owner, l⟩ ∈ subs ∧ h.registry.lists room l.id = true

/-- Whether a subscription is one of the user of the server that is registered in a room. -/
def isOwnIn (h : Hub) (room : RoomId) (s : Subscription) : Bool :=
  s.owner.isNone && h.registry.lists room s.listener.id

/-- The identity of the listener that a connection has registered in a room. -/
def idIn? (h : Hub) (room : RoomId) (name : Label) : Option ListenerId :=
  ((h.stream? name).filter fun l => l.room = room ∧ h.registry.lists room l.id = true).map
    Listener.id

variable {h : Hub} {vs : Visitors} {subs : List Subscription}

theorem idIn?_eq_some {room : RoomId} {name : Label} {id : ListenerId} :
    h.idIn? room name = some id ↔
      h.stream? name = some ⟨id, room⟩ ∧ h.registry.lists room id = true := by
  rw [idIn?, Option.map_eq_some_iff]
  constructor
  · rintro ⟨l, hl, rfl⟩
    obtain ⟨hstream, hroom⟩ := Option.filter_eq_some_iff.1 hl
    obtain ⟨rfl, hlists⟩ := of_decide_eq_true hroom
    exact ⟨hstream, hlists⟩
  · rintro ⟨hstream, hlists⟩
    exact ⟨⟨id, room⟩, Option.filter_eq_some_iff.2 ⟨hstream, decide_eq_true ⟨rfl, hlists⟩⟩, rfl⟩

namespace Kept

theorem isSome_idIn? (hk : h.Kept vs subs) (room : RoomId) (name : Label) :
    (h.idIn? room name).isSome = decide ((vs name).hears = some room) := by
  rw [Bool.eq_iff_iff, Option.isSome_iff_exists, decide_eq_true_iff, hk.hears_eq_some]
  constructor
  · rintro ⟨id, hid⟩
    obtain ⟨hstream, hlists⟩ := idIn?_eq_some.1 hid
    exact ⟨_, hstream, rfl, hlists⟩
  · rintro ⟨l, hstream, rfl, hlists⟩
    exact ⟨l.id, idIn?_eq_some.2 ⟨hstream, hlists⟩⟩

/-- The one listener of a connection that can be registered is the one that it has at present. -/
theorem registered_iff (hk : h.Kept vs subs) {name : Label} {room : RoomId} {l : Listener} :
    h.Registered subs (some name) room l ↔
      h.stream? name = some l ∧ l.room = room ∧ h.registry.lists room l.id = true := by
  constructor
  · rintro ⟨hmem, hlists⟩
    rcases hk.listed room l.id hlists with ⟨l', hl', hid⟩ | ⟨name', hl'⟩
    · have heq := hk.eq_of_id hl' hmem hid
      simp at heq
    · have heq := hk.eq_of_id (hk.streams name' _ hl').1 hmem rfl
      obtain ⟨howner, hlistener⟩ := Subscription.mk.inj heq
      obtain rfl := Option.some.inj howner
      exact ⟨hl'.trans (congrArg some hlistener), congrArg Listener.room hlistener.symm, hlists⟩
  · rintro ⟨hstream, -, hlists⟩
    exact ⟨(hk.streams name l hstream).1, hlists⟩

/-- A connection that hears a room has one listener, which is registered there and nowhere else. -/
theorem registered_of_hears (hk : h.Kept vs subs) {name : Label} {room : RoomId}
    (hhears : (vs name).hears = some room) :
    ∃ l, ∀ x l', h.Registered subs (some name) x l' ↔ x = room ∧ l' = l := by
  obtain ⟨l, hstream, rfl, hlists⟩ := hk.hears_eq_some.1 hhears
  refine ⟨l, fun x l' => ?_⟩
  rw [hk.registered_iff, hstream]
  constructor
  · rintro ⟨hl', rfl, -⟩
    obtain rfl := Option.some.inj hl'
    exact ⟨rfl, rfl⟩
  · rintro ⟨rfl, rfl⟩
    exact ⟨rfl, rfl, hlists⟩

theorem not_registered (hk : h.Kept vs subs) {name : Label} (hdeaf : (vs name).hears = none)
    (room : RoomId) (l : Listener) : ¬ h.Registered subs (some name) room l := by
  intro hl
  obtain ⟨hstream, hroom, hlists⟩ := hk.registered_iff.1 hl
  have hhears := hk.hears_eq_some.2 ⟨l, hstream, hroom, hlists⟩
  rw [hdeaf] at hhears
  simp at hhears

/-- Who is not there, or not any more, hears nothing. -/
theorem hears_of_ended (hk : h.Kept vs subs) {name : Label}
    (hended : ∀ c, h.connections.get? name = some c → c.alive = false) :
    (vs name).hears = none := by
  have hnone : h.stream? name = none := by
    cases hc : h.connections.get? name with
    | none => simp [stream?, hc]
    | some c =>
        have hnone : c.stream = none :=
          hk.live name c.presence (by simp [presence?, hc]) (hended c hc)
        simp [stream?, hc, hnone]
  rw [hk.hears, hnone]
  rfl

/-- A room lists the user's own listeners and those of the connections that hear it. -/
theorem count_eq (hk : h.Kept vs subs) (room : RoomId) :
    (h.registry.count room).getD 0 =
      subs.countP (h.isOwnIn room) +
        h.connections.keys.countP fun name => (vs name).hears = some room := by
  have hlisted : ∃ ids : List ListenerId, ids.Nodup ∧
      ids.length = (h.registry.count room).getD 0 ∧
        ∀ id, id ∈ ids ↔ h.registry.lists room id = true := by
    cases hcount : h.registry.count room with
    | some n => exact Registry.count_eq hcount
    | none =>
        refine ⟨[], List.nodup_nil, rfl, fun id => ?_⟩
        simp [Registry.lists_of_count_eq_none hcount]
  obtain ⟨ids, hnodup, hlength, hmem⟩ := hlisted
  -- the same identities, by their owners
  have hown : (((subs.filter (h.isOwnIn room)).map fun s => s.listener.id)).Nodup :=
    hk.fresh.sublist (List.filter_sublist.map _)
  have htheirs : (h.connections.keys.filterMap (h.idIn? room)).Nodup := by
    refine h.connections.nodup.filterMap fun name name' id hid hid' => ?_
    exact hk.apart (idIn?_eq_some.1 hid).1 (idIn?_eq_some.1 hid').1 rfl
  have hboth : ((subs.filter (h.isOwnIn room)).map (fun s => s.listener.id) ++
      h.connections.keys.filterMap (h.idIn? room)).Nodup := by
    refine List.nodup_append.2 ⟨hown, htheirs, ?_⟩
    rintro id hid _ hid' rfl
    obtain ⟨⟨owner, l⟩, hs, rfl⟩ := List.mem_map.1 hid
    obtain ⟨hs, howner⟩ := List.mem_filter.1 hs
    obtain ⟨name, -, hname⟩ := List.mem_filterMap.1 hid'
    obtain rfl : owner = none := Option.isNone_iff_eq_none.1 (Bool.and_eq_true_iff.1 howner).1
    exact hk.not_own (idIn?_eq_some.1 hname).1 ⟨l, hs, rfl⟩
  have hperm : ids.Perm ((subs.filter (h.isOwnIn room)).map (fun s => s.listener.id) ++
      h.connections.keys.filterMap (h.idIn? room)) := by
    refine (List.perm_ext_iff_of_nodup hnodup hboth).2 fun id => ?_
    rw [hmem, List.mem_append, List.mem_map, List.mem_filterMap]
    constructor
    · intro hlists
      rcases hk.listed room id hlists with ⟨l, hl, rfl⟩ | ⟨name, hstream⟩
      · exact .inl ⟨⟨none, l⟩, List.mem_filter.2 ⟨hl, by simpa [isOwnIn] using hlists⟩, rfl⟩
      · obtain ⟨c, hc, -⟩ := Option.bind_eq_some_iff.1 hstream
        exact .inr ⟨name, Table.mem_keys.2 ⟨c, hc⟩, idIn?_eq_some.2 ⟨hstream, hlists⟩⟩
    · rintro (⟨s, hs, rfl⟩ | ⟨name, -, hid⟩)
      · exact (Bool.and_eq_true_iff.1 (List.mem_filter.1 hs).2).2
      · exact (idIn?_eq_some.1 hid).2
  rw [← hlength, hperm.length_eq, List.length_append, List.length_map,
    List.length_filterMap_eq_countP, ← List.countP_eq_length_filter]
  simp only [hk.isSome_idIn?]

end Kept

/-- What is known of every client after a run. -/
def visitors (start : Hub) (ms : List Moment) : Visitors :=
  Visitors.nobody.afterAll (start.log (start.scripts ms))

/-- All subscriptions of a run. -/
def subscriptions (start : Hub) (ms : List Moment) : List Subscription :=
  start.ledger (start.scripts ms)

theorem kept_through (tuning : Tuning) (outages : Outages) (gated : Bool) (wall : Instant)
    (ms : List Moment) :
    ((new tuning outages gated wall).through ms).Kept ((new tuning outages gated wall).visitors ms)
      ((new tuning outages gated wall).subscriptions ms) := by
  have hkept := (kept_new tuning outages gated wall).pieces
    ((new tuning outages gated wall).scripts ms)
  rw [pieces_scripts, List.nil_append] at hkept
  exact hkept

/-- After every run each connection has at most one listener registered: one in the room that it
has joined last, unless it has left since or the room has been deleted since; a connection that has
ended has none, and every room counts the listeners of the user and the connections that hear it. -/
theorem one_listener_each (tuning : Tuning) (outages : Outages) (gated : Bool) (wall : Instant)
    (ms : List Moment) :
    let start := new tuning outages gated wall
    let h := start.through ms
    let vs := start.visitors ms
    let subs := start.subscriptions ms
    (∀ name room, (vs name).hears = some room →
      ∃ l, ∀ x l', h.Registered subs (some name) x l' ↔ x = room ∧ l' = l) ∧
    (∀ name, (vs name).hears = none → ∀ x l, ¬ h.Registered subs (some name) x l) ∧
    (∀ name, (∀ c, h.connections.get? name = some c → c.alive = false) →
      ∀ x l, ¬ h.Registered subs (some name) x l) ∧
    ∀ room, (h.registry.count room).getD 0 =
      subs.countP (h.isOwnIn room) +
        h.connections.keys.countP fun name => (vs name).hears = some room := by
  intro start h vs subs
  have hk : h.Kept vs subs := kept_through tuning outages gated wall ms
  exact ⟨fun _ _ hhears => hk.registered_of_hears hhears, fun _ hdeaf => hk.not_registered hdeaf,
    fun _ hended => hk.not_registered (hk.hears_of_ended hended), hk.count_eq⟩

/-- The user of the server listens to a room that two clients join, one of whom goes away. -/
def threeListeners : List Moment :=
  [Event.listen "l" ⟨"r"⟩, .connect "a" "1", .connect "b" "2",
    .text "a" "\x7b\"type\":\"join\",\"room_id\":\"r\"\x7d",
    .text "b" "\x7b\"type\":\"join\",\"room_id\":\"r\"\x7d",
    .disconnect "b"].map (Moment.mk default)

theorem one_listener_each_departed :
    let start := new Tuning.default Outages.none false default
    let h := start.through threeListeners
    let subs := start.subscriptions threeListeners
    subs.map Subscription.owner = [none, some "a", some "b"] ∧
      (∃ l, ∀ x l', h.Registered subs (some "a") x l' ↔ x = ⟨"r"⟩ ∧ l' = l) ∧
      (∀ x l, ¬ h.Registered subs (some "b") x l) ∧ h.registry.count ⟨"r"⟩ = some 2 := by
  have hears : ((new Tuning.default Outages.none false default).visitors threeListeners "a").hears =
      some ⟨"r"⟩ := by decide +kernel
  have hgone : ((new Tuning.default Outages.none false default).through
      threeListeners).connections.get? "b" = none := by decide +kernel
  obtain ⟨hjoined, -, hended, -⟩ :=
    one_listener_each Tuning.default Outages.none false default threeListeners
  refine ⟨by decide +kernel, hjoined "a" ⟨"r"⟩ hears, hended "b" ?_, by decide +kernel⟩
  intro c hc
  exact absurd (hgone.symm.trans hc) (by simp)

end ChatServer.Hub
