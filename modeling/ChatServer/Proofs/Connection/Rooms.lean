import ChatServer.Proofs.Connection.Orders
import ChatServer.Proofs.Room.Share

/-!
The rooms of a server at every stage of every run, by the orders that they have been given: which
rooms there are, whom they list and what reaches a listener, how many listeners a room counts, and
that none of this depends on what is done to other rooms. Rooms and listeners of the same name that
were there before are told apart by when they were opened.
-/

namespace ChatServer.Hub

open Registry

/-- A room is there just if it has been founded since it last came to its end. -/
theorem isSome_count_iff_founded (capacity : Nat) (os : List Order) (room : RoomId) :
    (((Registry.new capacity).obeyAll os).count room).isSome = true ↔ Order.Founded room os := by
  rw [isSome_count_obeyAll]
  simp [Registry.new, count]

/-- At any stage, a room is there just if it has been created or listened to since it was last
deleted, and it is open and known under its own name; it stays when its last listener is closed. A
listener that has been opened is registered in its room until it is closed or given up or the room
is deleted, and until then everything reaches it that is published there while its channel has
room. Once its room has been deleted it receives nothing but what waited for it by then, and whoever
closes it does nothing to the room of the same name that may have been founded since. -/
theorem rooms_by_orders (tuning : Tuning) (outages : Outages) (gated : Bool) (wall : Instant)
    (ps : List Piece) :
    let start := new tuning outages gated wall
    let first := Registry.new tuning.subscriberBuffer
    let os := start.ordersAll ps
    let r := (start.pieces ps).registry
    r = first.obeyAll os ∧
      (∀ room, (r.count room).isSome = true ↔ Order.Founded room os) ∧
      (∀ room b, r.rooms.get? room = some b → b.room = room ∧ b.closed = false) ∧
      (∀ room id, r.count room = some 1 → r.lists room id = true →
        (r.obey (.close room id)).count room = some 0) ∧
      (∀ room l g, (start.pieces ps).openListener room = (some l, g) →
        l.room = room ∧ first.Opens (os ++ [.listen room]) l [] ∧
          g.registry.lists room l.id = true) ∧
      (∀ l after, first.Opens os l after → (∀ o ∈ after, o.undoes l = false) →
        .drop l.id ∉ after →
          r.lists l.room l.id = true ∧
            ∀ p, (r.obey (.publish l.room p)).lists l.room l.id = true ∧
              (r.obey (.publish l.room p)).waiting l.id = r.waiting l.id ++
                if (r.waiting l.id).length < max tuning.subscriberBuffer 1 then [p] else []) ∧
      ∀ l before between later, os = before ++ .delete l.room :: later →
        first.Opens before l between →
          (∀ x, r.obey (.close x l.id) = r) ∧
            ((first.obeyAll before).obey (.delete l.room)).taken l.id later ++ r.waiting l.id <+:
              (first.obeyAll before).waiting l.id := by
  intro start first os r
  have hfirst : first.Proper := proper_new tuning.subscriberBuffer
  have hr : r = first.obeyAll os := registry_pieces start ps
  have hproper : r.Proper := hr ▸ proper_obeyAll hfirst os
  have hkeyed : r.Keyed := hr ▸ keyed_obeyAll (keyed_new tuning.subscriberBuffer) os
  refine ⟨hr, fun room => ?_, fun room b hb => ⟨hkeyed room b hb, hproper.opened room b hb⟩,
    fun room id => count_close_last hproper, fun room l g hopen => ?_,
    fun l after hopens hkept hheld => ?_, fun l before between later heq hopens => ?_⟩
  · rw [hr]
    exact isSome_count_iff_founded _ os room
  · obtain ⟨hlistener, rfl⟩ := openListener_some hopen
    obtain ⟨hnew, -, -, -, hlists, -⟩ := openListener_spec hproper room
    have hroom : l.room = room := by rw [hlistener, hnew]
    refine ⟨hroom, ⟨os, by rw [hroom], ?_⟩, ?_⟩
    · rw [hroom, ← hr]
      exact hlistener.symm
    · refine (hlists room l.id).trans ?_
      rw [hlistener, hnew]
      simp
  · rw [hr]
    exact hopens.reached hfirst hkept hheld
  · rw [hr, heq]
    exact hopens.deleted hfirst later

/-- A listener is opened, something is said, and the room is created once more. -/
def listened : List Moment :=
  [Event.listen "a" ⟨"r"⟩, .submit ⟨"u"⟩ ⟨"r"⟩ "1", .create ⟨"r"⟩].map (Moment.mk default)

/-- Then the room is deleted, and another one of that name is created. -/
def refounded : List Moment :=
  listened ++ [Event.delete ⟨"r"⟩, .create ⟨"r"⟩].map (Moment.mk default)

theorem rooms_by_orders_refounded :
    let start := new Tuning.default Outages.none false default
    let r := (start.pieces (start.scripts listened)).registry
    let r' := (start.pieces (start.scripts refounded)).registry
    r.lists ⟨"r"⟩ ⟨0⟩ = true ∧ (r.obey (.publish ⟨"r"⟩ "2")).waiting ⟨0⟩ = ["u: 1", "2"] ∧
      (r'.count ⟨"r"⟩).isSome = true ∧ r'.obey (.close ⟨"r"⟩ ⟨0⟩) = r' := by
  intro start r r'
  have hos : start.ordersAll (start.scripts listened) =
      [.listen ⟨"r"⟩, .publish ⟨"r"⟩ "u: 1", .create ⟨"r"⟩] := by decide +kernel
  have hos' : start.ordersAll (start.scripts refounded) =
      [.listen ⟨"r"⟩, .publish ⟨"r"⟩ "u: 1", .create ⟨"r"⟩, .delete ⟨"r"⟩, .create ⟨"r"⟩] := by
    decide +kernel
  obtain ⟨-, -, -, -, -, hstays, -⟩ :=
    rooms_by_orders Tuning.default Outages.none false default (start.scripts listened)
  obtain ⟨-, hthere, -, -, -, -, hgone⟩ :=
    rooms_by_orders Tuning.default Outages.none false default (start.scripts refounded)
  obtain ⟨hlists, hreaches⟩ := hstays ⟨⟨0⟩, ⟨"r"⟩⟩ [.publish ⟨"r"⟩ "u: 1", .create ⟨"r"⟩]
    ⟨[], hos, rfl⟩ (by decide) (by decide)
  refine ⟨hlists, (hreaches "2").2.trans (by decide +kernel), (hthere ⟨"r"⟩).2 ?_, ?_⟩
  · exact ⟨[.listen ⟨"r"⟩, .publish ⟨"r"⟩ "u: 1", .create ⟨"r"⟩, .delete ⟨"r"⟩], .create ⟨"r"⟩, [],
      hos', by decide, by simp⟩
  · exact (hgone ⟨⟨0⟩, ⟨"r"⟩⟩ [.listen ⟨"r"⟩, .publish ⟨"r"⟩ "u: 1", .create ⟨"r"⟩]
      [.publish ⟨"r"⟩ "u: 1", .create ⟨"r"⟩] [.create ⟨"r"⟩] hos' ⟨[], rfl, rfl⟩).1 ⟨"r"⟩

/-- At any stage, the number of listeners that a room is said to have is that of those opened there
since it was last founded that have not been closed under its name nor given up before something
was published in it; and there is none if there is no such room. Closing a listener that the room
does not have changes nothing, be it unknown, of another room, closed before or of a room of that
name that has been deleted. -/
theorem count_by_orders (tuning : Tuning) (outages : Outages) (gated : Bool) (wall : Instant)
    (ps : List Piece) :
    let start := new tuning outages gated wall
    let first := Registry.new tuning.subscriberBuffer
    let os := start.ordersAll ps
    let h := start.pieces ps
    let counted (room : RoomId) (id : ListenerId) : Prop :=
      ∃ after, first.Opens os ⟨id, room⟩ after ∧ Order.Stays ⟨id, room⟩ after
    (∀ room, ∃ n?, (h.react (.count room)).1 = .count n? ∧
      (n? = none ↔ ¬ Order.Founded room os) ∧
      ∀ n, n? = some n → ∃ ids : List ListenerId, ids.Nodup ∧ ids.length = n ∧
        ∀ id, id ∈ ids ↔ counted room id) ∧
    (∀ room id, ¬ counted room id → h.registry.closeListener room id = h.registry) ∧
    ∀ l after room, first.Opens os l after →
      (room ≠ l.room ∨ ∃ o ∈ after, o.undoes l = true) → ¬ counted room l.id := by
  intro start first os h counted
  have hfirst : first.Proper := proper_new tuning.subscriberBuffer
  have hr : h.registry = first.obeyAll os := registry_pieces start ps
  have hlists : ∀ room id, h.registry.lists room id = true ↔ counted room id := by
    intro room id
    rw [hr]
    exact lists_obeyAll_new
  refine ⟨fun room => ⟨h.registry.count room, rfl, ?_, fun n hn => ?_⟩, fun room id hid => ?_,
    fun l after room hopens hundone hcounted => ?_⟩
  · rw [← isSome_count_iff_founded tuning.subscriberBuffer, ← hr, Option.not_isSome_iff_eq_none]
  · obtain ⟨ids, hnodup, hlength, hmem⟩ := Registry.count_eq hn
    exact ⟨ids, hnodup, hlength, fun id => (hmem id).trans (hlists room id)⟩
  · refine closeListener_of_not_lists ?_
    rw [← Bool.not_eq_true, hlists]
    exact hid
  · have hlisted := (hlists room l.id).2 hcounted
    rw [hr] at hlisted
    rcases hundone with hroom | hundone
    · obtain ⟨c, hc, -⟩ := hopens.known hfirst
      exact hroom (hc.home room hlisted)
    · rw [hopens.lists_of_undone hfirst hundone room] at hlisted
      exact Bool.false_ne_true hlisted

/-- Two listeners are opened; one is given up before something is said, and the other is closed
under the name of another room. -/
def strayed : List Moment :=
  [Event.listen "a" ⟨"r"⟩, .listen "b" ⟨"r"⟩, .drop "a", .submit ⟨"u"⟩ ⟨"r"⟩ "1",
    .close "b" (some ⟨"s"⟩)].map (Moment.mk default)

theorem count_by_orders_strayed :
    let start := new Tuning.default Outages.none false default
    let first := Registry.new 10
    let os := start.ordersAll (start.scripts strayed)
    let h := start.pieces (start.scripts strayed)
    (h.react (.count ⟨"r"⟩)).1 = .count (some 1) ∧
      (∃ id after, first.Opens os ⟨id, ⟨"r"⟩⟩ after ∧ Order.Stays ⟨id, ⟨"r"⟩⟩ after) ∧
      h.registry.closeListener ⟨"s"⟩ ⟨1⟩ = h.registry := by
  intro start first os h
  have hos : os = [.listen ⟨"r"⟩, .listen ⟨"r"⟩, .drop ⟨0⟩, .publish ⟨"r"⟩ "u: 1",
      .close ⟨"s"⟩ ⟨1⟩] := by decide +kernel
  have hone : h.registry.count ⟨"r"⟩ = some 1 := by decide +kernel
  obtain ⟨hcount, hclose, hstray⟩ :=
    count_by_orders Tuning.default Outages.none false default (start.scripts strayed)
  obtain ⟨n?, hanswer, -, hids⟩ := hcount ⟨"r"⟩
  have hn : n? = some 1 := (Answer.count.inj hanswer).symm.trans hone
  obtain ⟨ids, -, hlength, hmem⟩ := hids 1 hn
  obtain ⟨id, rfl⟩ := List.length_eq_one_iff.1 hlength
  refine ⟨hn ▸ hanswer, ⟨id, (hmem id).1 (List.mem_singleton.2 rfl)⟩, ?_⟩
  refine hclose ⟨"s"⟩ ⟨1⟩ (hstray ⟨⟨1⟩, ⟨"r"⟩⟩ [.drop ⟨0⟩, .publish ⟨"r"⟩ "u: 1", .close ⟨"s"⟩ ⟨1⟩]
    ⟨"s"⟩ ⟨[.listen ⟨"r"⟩], hos, ?_⟩ (.inl (by decide)))
  decide +kernel

/-- Rooms do not interfere. Whatever is done to the rooms, what can be told of one of them, of all
listeners that were ever opened in it and of what they received is what can be told of it after only
what was done in its name or by the holders of its listeners; so orders with which no room has to do
in common may change places. What a server says of a room is said of its share of the orders. -/
theorem rooms_apart (tuning : Tuning) :
    let first := Registry.new tuning.subscriberBuffer
    (∀ os room, first.account room os = first.account room (share room [] 0 os) ∧
      ∀ id, (first.obeyAll os).lists room id = true → id ∈ made room 0 os) ∧
    (∀ os o₁ o₂, o₁.timely (first.obeyAll os).next = true →
      o₂.timely (first.obeyAll os).next = true →
      (∀ room, ¬ (o₁.about room (made room 0 os) = true ∧
        o₂.about room (made room 0 os) = true)) →
      ∀ room, first.account room (os ++ [o₁, o₂]) = first.account room (os ++ [o₂, o₁])) ∧
    ∀ outages gated wall ps room,
      let start := new tuning outages gated wall
      let os := start.ordersAll ps
      let h := start.pieces ps
      let own := first.account room (share room [] 0 os)
      h.registry = first.obeyAll os ∧ (h.react (.count room)).1 = .count own.count ∧
        (h.react (.roomExists room)).1 = .flag own.count.isSome := by
  intro first
  refine ⟨fun os room => account_share _ room os,
    fun os o₁ o₂ h₁ h₂ hapart room => account_swap _ h₁ h₂ hapart room, ?_⟩
  intro outages gated wall ps room start os h own
  have hr : h.registry = first.obeyAll os := registry_pieces start ps
  have hcount : h.registry.count room = own.count := by
    rw [hr]
    exact congrArg Account.count (account_share _ room os).1
  refine ⟨hr, ?_, ?_⟩
  · rw [← hcount]
    rfl
  · rw [← hcount]
    rfl

/-- Two rooms take turns; a listener of the one is closed under the name of the other, which is
deleted and founded anew. -/
def mingled : List Order :=
  [.listen ⟨"r"⟩, .listen ⟨"s"⟩, .publish ⟨"r"⟩ "1", .publish ⟨"s"⟩ "2", .receive ⟨1⟩,
    .close ⟨"s"⟩ ⟨0⟩, .delete ⟨"s"⟩, .listen ⟨"r"⟩, .listen ⟨"s"⟩]

theorem rooms_apart_mingled :
    let first := Registry.new 10
    share ⟨"s"⟩ [] 0 mingled = [.listen ⟨"s"⟩, .publish ⟨"s"⟩ "2", .receive ⟨0⟩,
        .close ⟨"s"⟩ ⟨1⟩, .delete ⟨"s"⟩, .listen ⟨"s"⟩] ∧
      first.account ⟨"s"⟩ mingled = first.account ⟨"s"⟩ (share ⟨"s"⟩ [] 0 mingled) ∧
      first.account ⟨"s"⟩ mingled = ⟨some 1, [⟨false, some ⟨10, [], false, true⟩, ["2"]⟩,
        ⟨true, some ⟨10, [], true, true⟩, []⟩]⟩ ∧
      first.account ⟨"s"⟩ (mingled ++ [.publish ⟨"s"⟩ "3", .drop ⟨2⟩]) =
        first.account ⟨"s"⟩ (mingled ++ [.drop ⟨2⟩, .publish ⟨"s"⟩ "3"]) := by
  intro first
  obtain ⟨hshare, hswap, -⟩ := rooms_apart Tuning.default
  refine ⟨by decide +kernel, (hshare mingled ⟨"s"⟩).1, by decide +kernel,
    hswap mingled (.publish ⟨"s"⟩ "3") (.drop ⟨2⟩) (by decide +kernel) (by decide +kernel) ?_ ⟨"s"⟩⟩
  rintro room ⟨hpublish, hdrop⟩
  obtain rfl : (⟨"s"⟩ : RoomId) = room := of_decide_eq_true hpublish
  exact absurd hdrop (by decide +kernel)

end ChatServer.Hub
