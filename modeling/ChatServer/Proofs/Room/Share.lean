import ChatServer.Proofs.Room.Incarnation
import Mathlib.Data.List.Nodup

/-!
One room among others. Of all that is done to the rooms, what is done in the name of a room or by
the holders of its listeners is that room's share. A room and its listeners are after a series of
orders what they would be after the room's share alone, where its listeners are numbered as they
were opened there, so that orders with which no room has to do in common may change places.
-/

namespace ChatServer.Registry

namespace Order

/-- Whether an order concerns a room in which these listeners have been opened. The end of all rooms
concerns each of them. -/
def about (room : RoomId) (ids : List ListenerId) : Order → Bool
  | .create x | .listen x | .abandon x | .close x _ | .delete x | .publish x _ => x = room
  | .receive id | .drop id => id ∈ ids
  | .closeAll => true

/-- The listener that an order opens in a room, `next` being the next number. -/
def makes (room : RoomId) (next : Nat) : Order → List ListenerId
  | .listen x | .abandon x => if x = room then [⟨next⟩] else []
  | _ => []

end Order

/-- A listener by its place among those that have been opened; any other has a number that is not
taken yet. -/
def rank (ids : List ListenerId) (id : ListenerId) : ListenerId := ⟨ids.idxOf id⟩

namespace Order

/-- An order by the places that listeners have. -/
def ranked (ids : List ListenerId) : Order → Order
  | .close x id => .close x (rank ids id)
  | .receive id => .receive (rank ids id)
  | .drop id => .drop (rank ids id)
  | o => o

end Order

/-- The listeners that a series of orders opens in a room, `next` being the next number. -/
def made (room : RoomId) (next : Nat) : List Order → List ListenerId
  | [] => []
  | o :: os => o.makes room next ++ made room (next + o.opened) os

/-- What concerns a room in which these listeners have been opened already. -/
def share (room : RoomId) (ids : List ListenerId) (next : Nat) : List Order → List Order
  | [] => []
  | o :: os =>
    (if o.about room ids then [o.ranked ids] else []) ++
      share room (ids ++ o.makes room next) (next + o.opened) os

variable {room : RoomId} {ids : List ListenerId} {id : ListenerId} {o : Order} {r r' : Registry}
  {c : Channel Payload}

/-! ### Places -/

theorem rank_inj (h : id ∈ ids) {id' : ListenerId} : rank ids id' = rank ids id ↔ id' = id := by
  rw [rank, rank, ListenerId.mk.injEq, eq_comm, List.idxOf_inj h, eq_comm]

theorem rank_append (h : id ∈ ids) (more : List ListenerId) :
    rank (ids ++ more) id = rank ids id := by
  rw [rank, rank, List.idxOf_append_of_mem h]

theorem rank_next (h : id ∉ ids) : rank (ids ++ [id]) id = ⟨ids.length⟩ := by
  rw [rank, List.idxOf_append_of_notMem h, List.idxOf_cons_self, Nat.add_zero]

theorem rank_number_lt : (rank ids id).number < ids.length ↔ id ∈ ids := List.idxOf_lt_length_iff

namespace Order

theorem eq_of_mem_makes {next : Nat} (h : id ∈ o.makes room next) : id = ⟨next⟩ := by
  cases o <;> simp_all [makes]

theorem makes_of_not_about (h : o.about room ids = false) (next : Nat) :
    o.makes room next = [] := by
  cases o <;> simp_all [about, makes]

theorem makes_of_opened (h : o.opened = 0) (next : Nat) : o.makes room next = [] := by
  cases o <;> simp_all [opened, makes]

/-- What concerns a room opens no listener but its own. -/
theorem length_makes (h : o.about room ids = true) (next : Nat) :
    (o.makes room next).length = o.opened := by
  cases o <;> simp_all [about, makes, opened]

/-- A listener takes the next place as it takes the next number. -/
theorem makes_ranked {next : Nat} (h : (ids ++ o.makes room next).Nodup) :
    (o.ranked ids).makes room ids.length =
      (o.makes room next).map (rank (ids ++ o.makes room next)) := by
  have hopens : (o.ranked ids).makes room ids.length = o.makes room ids.length := by
    cases o <;> rfl
  rw [hopens]
  cases o with
  | listen x | abandon x =>
      by_cases hx : x = room
      · simp only [makes, hx, if_true] at h ⊢
        have hnew : (⟨next⟩ : ListenerId) ∉ ids := fun hid =>
          (List.nodup_append.1 h).2.2 _ hid _ (List.mem_singleton_self _) rfl
        rw [List.map_singleton, rank_next hnew]
      · simp [makes, hx]
  | _ => rfl

theorem opened_ranked (o : Order) (ids : List ListenerId) : (o.ranked ids).opened = o.opened := by
  cases o <;> rfl

theorem undoes_ranked (h : id ∈ ids) :
    (o.ranked ids).undoes ⟨rank ids id, room⟩ = o.undoes ⟨id, room⟩ := by
  cases o <;> simp [ranked, undoes, ends, rank_inj h]

theorem treats_ranked (h : id ∈ ids) (listed : Bool) :
    (o.ranked ids).treats listed ⟨rank ids id, room⟩ c = o.treats listed ⟨id, room⟩ c := by
  have hundoes : (o.ranked ids).undoes ⟨rank ids id, room⟩ = o.undoes ⟨id, room⟩ :=
    undoes_ranked h
  cases o <;> simp_all [ranked, treats, rank_inj h]

theorem strikes_ranked (h : id ∈ ids) (held : Bool) :
    (o.ranked ids).strikes held room (rank ids id) = o.strikes held room id := by
  have hundoes : (o.ranked ids).undoes ⟨rank ids id, room⟩ = o.undoes ⟨id, room⟩ :=
    undoes_ranked h
  cases o <;> simp_all [ranked, strikes]

theorem treats_of_not_about (h : o.about room ids = false) (hid : id ∈ ids) (listed : Bool) :
    o.treats listed ⟨id, room⟩ c = c := by
  cases o <;> simp_all [about, treats, undoes, ends] <;> grind

theorem strikes_of_not_about (h : o.about room ids = false) (held : Bool) :
    o.strikes held room id = false := by
  cases o <;> simp_all [about, strikes, undoes, ends]

end Order

/-- Whoever is not there to take a listener gives it up and closes it at once. -/
theorem obey_abandon (r : Registry) (x : RoomId) :
    r.obey (.abandon x) = r.obeyAll [.listen x, .drop ⟨r.next⟩, .close x ⟨r.next⟩] := rfl

/-! ### One registry in the mirror of another -/

/-- A room is the same in two registries, but for the numbers that its listeners have in the one and
the places at which they were opened in the other. -/
structure Mirrors (room : RoomId) (ids : List ListenerId) (r r' : Registry) : Prop where
  proper : r.Proper
  proper' : r'.Proper
  nodup : ids.Nodup
  next : r'.next = ids.length
  capacity : r'.capacity = r.capacity
  there : (r'.count room).isSome = (r.count room).isSome
  all : ∀ id, r.lists room id = true → id ∈ ids
  seats : ∀ id ∈ ids, ∃ c, r.Known ⟨id, room⟩ c ∧ r'.Known ⟨rank ids id, room⟩ c ∧
    r'.lists room (rank ids id) = r.lists room id

theorem mirrors_new (capacity : Nat) (room : RoomId) :
    Mirrors room [] (new capacity) (new capacity) where
  proper := proper_new capacity
  proper' := proper_new capacity
  nodup := List.nodup_nil
  next := rfl
  capacity := rfl
  there := rfl
  all id hid := by simp [lists, new] at hid
  seats id hid := absurd hid List.not_mem_nil

namespace Mirrors

/-- What does not concern a room leaves it and its listeners alone. -/
theorem aside (hm : Mirrors room ids r r') (ho : o.about room ids = false) :
    Mirrors room ids (r.obey o) r' where
  proper := proper_obey hm.proper o
  proper' := hm.proper'
  nodup := hm.nodup
  next := hm.next
  capacity := hm.capacity.trans (fields_obey r o).2.symm
  there := by
    have hfounds : o.founds room = false := by cases o <;> simp_all [Order.about, Order.founds]
    have hends : o.ends room = false := by cases o <;> simp_all [Order.about, Order.ends]
    rw [hm.there, isSome_count_obey, hfounds, hends, Bool.false_or, Bool.not_false, Bool.and_true]
  all id hid := by
    have henrols : o.enrols r.next room id = false := by
      cases o <;> simp_all [Order.about, Order.enrols]
    rw [lists_obey hm.proper, henrols, Bool.false_or, Bool.and_eq_true] at hid
    exact hm.all id hid.1
  seats id hid := by
    obtain ⟨c, hk, hk', hlists⟩ := hm.seats id hid
    have hafter := hk.obey hm.proper o
    rw [Order.treats_of_not_about ho hid] at hafter
    refine ⟨c, hafter, hk', ?_⟩
    rw [hlists, hk.lists_obey hm.proper, Order.strikes_of_not_about ho, Bool.not_false,
      Bool.and_true]

/-- An order that opens nothing does in both registries the same. -/
theorem ranked (hm : Mirrors room ids r r') (ho : o.opened = 0) :
    Mirrors room ids (r.obey o) (r'.obey (o.ranked ids)) where
  proper := proper_obey hm.proper o
  proper' := proper_obey hm.proper' _
  nodup := hm.nodup
  next := by
    rw [(fields_obey r' _).1, Order.opened_ranked, ho, hm.next]
    rfl
  capacity := by rw [(fields_obey r' _).2, (fields_obey r o).2, hm.capacity]
  there := by
    have hfounds : (o.ranked ids).founds room = o.founds room := by cases o <;> rfl
    have hends : (o.ranked ids).ends room = o.ends room := by cases o <;> rfl
    rw [isSome_count_obey, isSome_count_obey, hm.there, hfounds, hends]
  all id hid := by
    have henrols : o.enrols r.next room id = false := by
      cases o <;> simp_all [Order.opened, Order.enrols]
    rw [lists_obey hm.proper, henrols, Bool.false_or, Bool.and_eq_true] at hid
    exact hm.all id hid.1
  seats id hid := by
    obtain ⟨c, hk, hk', hlists⟩ := hm.seats id hid
    have hafter := hk'.obey hm.proper' (o.ranked ids)
    rw [Order.treats_ranked hid, hlists] at hafter
    refine ⟨_, hk.obey hm.proper o, hafter, ?_⟩
    rw [hk.lists_obey hm.proper, hk'.lists_obey hm.proper', hlists, Order.strikes_ranked hid]

theorem next_not_mem (hm : Mirrors room ids r r') : (⟨r.next⟩ : ListenerId) ∉ ids := by
  intro hid
  obtain ⟨c, hk, -⟩ := hm.seats _ hid
  exact Nat.lt_irrefl _ hk.below

/-- A listener that is opened takes the next number in the one registry and the next place in the
other. -/
theorem rank_opened (hm : Mirrors room ids r r') :
    rank (ids ++ [⟨r.next⟩]) ⟨r.next⟩ = ⟨r'.next⟩ := by
  rw [rank_next hm.next_not_mem, hm.next]

theorem listen (hm : Mirrors room ids r r') :
    Mirrors room (ids ++ [⟨r.next⟩]) (r.obey (.listen room)) (r'.obey (.listen room)) := by
  refine ⟨proper_obey hm.proper _, proper_obey hm.proper' _, ?_, ?_, ?_, ?_, fun id hid => ?_,
    fun id hid => ?_⟩
  · exact List.nodup_append.2 ⟨hm.nodup, List.nodup_singleton _, by
      rintro x hx y hy rfl
      exact hm.next_not_mem (List.mem_singleton.1 hy ▸ hx)⟩
  · rw [(fields_obey r' _).1, hm.next]
    simp [Order.opened]
  · rw [(fields_obey r' _).2, (fields_obey r _).2, hm.capacity]
  · rw [isSome_count_obey, isSome_count_obey, hm.there]
  · rw [lists_obey hm.proper, Bool.or_eq_true, Bool.and_eq_true] at hid
    rcases hid with henrols | ⟨hlists, -⟩
    · simp only [Order.enrols, true_and, decide_eq_true_eq] at henrols
      exact List.mem_append_right _ (henrols ▸ List.mem_singleton_self _)
    · exact List.mem_append_left _ (hm.all id hlists)
  · rcases List.mem_append.1 hid with hold | hnext
    · obtain ⟨c, hk, hk', hlists⟩ := hm.seats id hold
      have hafter := hk.obey hm.proper (.listen room)
      have hafter' := hk'.obey hm.proper' (.listen room)
      rw [rank_append hold]
      refine ⟨_, hafter, by simpa [Order.treats, Order.undoes, Order.ends] using hafter', ?_⟩
      rw [hk.lists_obey hm.proper, hk'.lists_obey hm.proper', hlists]
      rfl
    · obtain rfl := List.mem_singleton.1 hnext
      have hknown := known_openListener hm.proper room
      have hknown' := known_openListener hm.proper' room
      rw [hm.capacity] at hknown'
      rw [hm.rank_opened]
      exact ⟨_, hknown, hknown', (hknown'.listed rfl rfl).trans (hknown.listed rfl rfl).symm⟩

theorem abandon (hm : Mirrors room ids r r') :
    Mirrors room (ids ++ [⟨r.next⟩]) (r.obey (.abandon room)) (r'.obey (.abandon room)) := by
  have hdropped := hm.listen.ranked (o := .drop ⟨r.next⟩) rfl
  have hclosed := hdropped.ranked (o := .close room ⟨r.next⟩) rfl
  rw [Order.ranked, Order.ranked, hm.rank_opened] at hclosed
  rw [obey_abandon, obey_abandon]
  exact hclosed

/-- The step of a room is made by its share of it. -/
theorem obey (hm : Mirrors room ids r r') (o : Order) :
    Mirrors room (ids ++ o.makes room r.next) (r.obey o)
      (r'.obeyAll (if o.about room ids then [o.ranked ids] else [])) := by
  cases ho : o.about room ids with
  | false =>
      rw [Order.makes_of_not_about ho, List.append_nil]
      exact hm.aside ho
  | true =>
      rw [if_pos rfl]
      cases o with
      | listen x =>
          obtain rfl : x = room := of_decide_eq_true ho
          simpa [Order.makes, Order.ranked] using hm.listen
      | abandon x =>
          obtain rfl : x = room := of_decide_eq_true ho
          simpa [Order.makes, Order.ranked] using hm.abandon
      | _ =>
          rw [Order.makes_of_opened rfl, List.append_nil]
          exact hm.ranked rfl

/-- A room is made by its share of all that is done. -/
theorem obeyAll (hm : Mirrors room ids r r') (os : List Order) :
    Mirrors room (ids ++ made room r.next os) (r.obeyAll os)
      (r'.obeyAll (share room ids r.next os)) := by
  induction os generalizing r r' ids with
  | nil =>
      rw [made, List.append_nil]
      exact hm
  | cons o os ih =>
      have hrest := ih (hm.obey o)
      rw [(fields_obey r o).1, List.append_assoc] at hrest
      rw [made, share, obeyAll_cons, obeyAll_append]
      exact hrest

end Mirrors

/-! ### What listeners receive -/

/-- Numbers that are not taken yet have no channels. -/
def Fresh (r : Registry) : Prop := ∀ id : ListenerId, r.next ≤ id.number → r.channel? id = none

theorem fresh_new (capacity : Nat) : (new capacity).Fresh := fun _ _ => rfl

theorem fresh_obey_of_kept (h : r.Proper) (hf : r.Fresh) (ho : ∀ x, o ≠ .abandon x) :
    (r.obey o).Fresh := by
  intro id hid
  have hnone : r.channel? id = none := hf id (Nat.le_trans (next_le_obey r o) hid)
  rw [(fields_obey r o).1] at hid
  cases o with
  | create x => exact hnone
  | listen x =>
      have hne : id ≠ ⟨r.next⟩ := by
        rintro rfl
        exact Nat.lt_irrefl _ hid
      obtain ⟨-, -, -, -, -, hchannel⟩ := openListener_spec h x
      rw [Registry.obey, hchannel, if_neg hne, hnone]
  | abandon x => exact absurd rfl (ho x)
  | close x id' =>
      by_cases hid' : id = id'
      · rw [Registry.obey, ← hid', channel?_closeListener h, hnone]
        simp
      · obtain ⟨-, -, -, -, hchannel⟩ := closeListener_spec h x id'
        rw [Registry.obey, hchannel id hid', hnone]
  | delete x =>
      obtain ⟨-, -, -, -, hchannel⟩ := delete_spec h x
      rw [Registry.obey, hchannel, hnone]
      simp
  | publish x p =>
      obtain ⟨-, -, -, -, -, hchannel⟩ := publish_spec h x p
      rw [Registry.obey, hchannel, hnone]
      simp
  | receive id' => simp [Registry.obey, channel?_receive, hnone]
  | drop id' => simp [Registry.obey, channel?_dropReceiver, hnone]
  | closeAll => simp [Registry.obey, channel?_closeAll h, hnone]

theorem fresh_obey (h : r.Proper) (hf : r.Fresh) (o : Order) : (r.obey o).Fresh := by
  cases o with
  | abandon x =>
      rw [obey_abandon, obeyAll_cons, obeyAll_cons, obeyAll_cons, obeyAll_nil]
      have hlisten := proper_obey h (.listen x)
      have hdrop := proper_obey hlisten (.drop ⟨r.next⟩)
      refine fresh_obey_of_kept hdrop (fresh_obey_of_kept hlisten ?_ (by simp)) (by simp)
      exact fresh_obey_of_kept h hf (by simp)
  | _ => exact fresh_obey_of_kept h hf (by simp)

/-- Nothing is received before there is a channel. -/
theorem gets_of_channel?_eq_none (h : r.channel? id = none) (o : Order) : r.gets id o = [] := by
  cases o with
  | receive id' =>
      by_cases hid : id' = id
      · subst hid
        simp [gets, receive, h]
      · simp only [gets, hid, if_false]
        split <;> rfl
  | _ => rfl

/-- What others receive is not what a listener receives. -/
theorem gets_receive_of_ne {id' : ListenerId} (h : id' ≠ id) : r.gets id (.receive id') = [] := by
  simp only [gets, h, if_false]
  split <;> rfl

theorem taken_append (r : Registry) (id : ListenerId) (os os' : List Order) :
    r.taken id (os ++ os') = r.taken id os ++ (r.obeyAll os).taken id os' := by
  induction os generalizing r with
  | nil => rfl
  | cons o os ih => rw [List.cons_append, taken, taken, ih, obeyAll_cons, List.append_assoc]

theorem next_le_of_mem_made {next : Nat} {os : List Order} (h : id ∈ made room next os) :
    next ≤ id.number := by
  induction os generalizing next with
  | nil => exact absurd h List.not_mem_nil
  | cons o os ih =>
      rcases List.mem_append.1 h with hfirst | hrest
      · exact Nat.le_of_eq (congrArg ListenerId.number (Order.eq_of_mem_makes hfirst)).symm
      · exact Nat.le_trans (Nat.le_add_right _ _) (ih hrest)

/-- A listener that is yet to be opened receives nothing, and nor does a place that nobody has. -/
theorem gets_of_fresh (hf : r.Fresh) (hnext : r.next ≤ id.number) {place : ListenerId}
    (hplace : ids.length ≤ place.number) (o : Order) :
    r.gets id o = r'.taken place (if o.about room ids then [o.ranked ids] else []) := by
  rw [gets_of_channel?_eq_none (hf id hnext)]
  split
  case isTrue habout =>
    cases o with
    | receive id' =>
        have hne : rank ids id' ≠ place := by
          rintro rfl
          exact Nat.not_lt.2 hplace (rank_number_lt.2 (of_decide_eq_true habout))
        rw [Order.ranked, taken, gets_receive_of_ne hne]
        rfl
    | _ => rfl
  case isFalse => rfl

namespace Mirrors

/-- A listener that has been opened receives by an order what it receives by the room's share. -/
theorem gets (hm : Mirrors room ids r r') (hid : id ∈ ids) (o : Order) :
    r.gets id o =
      r'.taken (rank ids id) (if o.about room ids then [o.ranked ids] else []) := by
  cases o with
  | receive id' =>
      by_cases hid' : id' = id
      · subst hid'
        obtain ⟨c, hk, hk', -⟩ := hm.seats id' hid
        simp only [Order.about, hid, decide_true, if_true, Order.ranked, taken, Registry.gets,
          receive, hk.channel, hk'.channel, List.append_nil]
      · rw [gets_receive_of_ne hid']
        split
        · have hrank : rank ids id' ≠ rank ids id := fun heq => hid' ((rank_inj hid).1 heq)
          rw [Order.ranked, taken, gets_receive_of_ne hrank]
          rfl
        · rfl
  | _ => split <;> rfl

/-- What the listeners of a room receive they receive by the room's share. -/
theorem taken (hm : Mirrors room ids r r') (hf : r.Fresh) (os : List Order) :
    ∀ id ∈ ids ++ made room r.next os, r.taken id os =
      r'.taken (rank (ids ++ made room r.next os) id) (share room ids r.next os) := by
  induction os generalizing r r' ids with
  | nil => exact fun id _ => rfl
  | cons o os ih =>
      intro id hid
      have hrest := ih (hm.obey o) (fresh_obey hm.proper hf o) id
      rw [(fields_obey r o).1, List.append_assoc] at hrest
      rw [made] at hid
      rw [made, share, Registry.taken, taken_append, hrest hid]
      congr 1
      by_cases hold : id ∈ ids
      · rw [rank_append hold]
        exact hm.gets hold o
      · have hmade : id ∈ made room r.next (o :: os) := (List.mem_append.1 hid).resolve_left hold
        refine gets_of_fresh hf (next_le_of_mem_made hmade) ?_ o
        rw [rank, List.idxOf_append_of_notMem hold]
        exact Nat.le_add_right _ _

end Mirrors

/-! ### The account of a room -/

/-- What can be told of a listener. -/
structure Place where
  listed : Bool
  channel : Option (Channel Payload)
  /-- What its holder has received, oldest first. -/
  received : List Payload
  deriving DecidableEq

/-- What can be told of a room: how many listeners it has, if it is there, and what has become of
each that was ever opened in it, in that order. -/
structure Account where
  count : Option Nat
  places : List Place
  deriving DecidableEq

/-- What can be told of a room after a series of orders. -/
def account (r : Registry) (room : RoomId) (os : List Order) : Account where
  count := (r.obeyAll os).count room
  places := (made room r.next os).map fun id =>
    ⟨(r.obeyAll os).lists room id, (r.obeyAll os).channel? id, r.taken id os⟩

/-- A room counts those whom it lists among all who may be listed. -/
theorem count_eq_countP (hthere : (r.count room).isSome = true) (hnodup : ids.Nodup)
    (hall : ∀ id, r.lists room id = true → id ∈ ids) :
    r.count room = some (ids.countP (r.lists room)) := by
  obtain ⟨n, hn⟩ := Option.isSome_iff_exists.1 hthere
  obtain ⟨listed, hlisted, rfl, hmem⟩ := count_eq hn
  have hperm : listed.Perm (ids.filter (r.lists room)) := by
    refine (List.perm_ext_iff_of_nodup hlisted (hnodup.filter _)).2 fun id => ?_
    rw [hmem, List.mem_filter]
    exact ⟨fun hid => ⟨hall id hid, hid⟩, And.right⟩
  rw [hn, hperm.length_eq, List.countP_eq_length_filter]

/-- A room's share opens the listeners of the room at their places. -/
theorem made_share {next : Nat} {os : List Order} (h : (ids ++ made room next os).Nodup) :
    made room ids.length (share room ids next os) =
      (made room next os).map (rank (ids ++ made room next os)) := by
  induction os generalizing ids next with
  | nil => rfl
  | cons o os ih =>
      rw [made, ← List.append_assoc] at h
      have hrest := ih h
      rw [List.append_assoc] at hrest
      cases ho : o.about room ids with
      | false =>
          have hmakes := Order.makes_of_not_about ho next
          rw [hmakes, List.append_nil, List.nil_append] at hrest
          rw [share, made, hmakes, List.append_nil, List.nil_append, ho]
          exact hrest
      | true =>
          have hfirst := Order.makes_ranked (List.nodup_append.1 h).1
          have hlength : (ids ++ o.makes room next).length = ids.length + o.opened := by
            rw [List.length_append, Order.length_makes ho]
          have hplaces : (o.makes room next).map
                (rank (ids ++ (o.makes room next ++ made room (next + o.opened) os))) =
              (o.makes room next).map (rank (ids ++ o.makes room next)) := by
            refine List.map_congr_left fun id hid => ?_
            rw [← List.append_assoc, rank_append (List.mem_append_right ids hid)]
          rw [hlength] at hrest
          rw [share, ho, if_pos rfl, List.singleton_append, made, Order.opened_ranked, hfirst,
            hrest, made, List.map_append, hplaces]

namespace Mirrors

theorem count (hm : Mirrors room ids r r') : r'.count room = r.count room := by
  cases hthere : (r.count room).isSome with
  | false =>
      have hthere' := hm.there.trans hthere
      rw [Option.not_isSome_iff_eq_none.1 (Bool.eq_false_iff.1 hthere),
        Option.not_isSome_iff_eq_none.1 (Bool.eq_false_iff.1 hthere')]
  | true =>
      have hnodup : (ids.map (rank ids)).Nodup :=
        hm.nodup.map_on fun x _ y hy heq => (rank_inj hy).1 heq
      have hall : ∀ id, r'.lists room id = true → id ∈ ids.map (rank ids) := by
        intro id hid
        have hbelow : id.number < ids.length := hm.next ▸ hm.proper'.below room id hid
        refine List.mem_map.2 ⟨ids[id.number], List.getElem_mem hbelow, ?_⟩
        rw [rank, hm.nodup.idxOf_getElem]
      rw [count_eq_countP hthere hm.nodup hm.all,
        count_eq_countP (hm.there.trans hthere) hnodup hall, List.countP_map]
      refine congrArg some (List.countP_congr fun id hid => ?_)
      obtain ⟨c, -, -, hlists⟩ := hm.seats id hid
      rw [Function.comp_apply, hlists]

end Mirrors

/-- What can be told of a room after a series of orders can be told after its share of them, and no
listener is on its list but those opened in it. -/
theorem account_share (capacity : Nat) (room : RoomId) (os : List Order) :
    (new capacity).account room os = (new capacity).account room (share room [] 0 os) ∧
      ∀ id, ((new capacity).obeyAll os).lists room id = true → id ∈ made room 0 os := by
  have hm := (mirrors_new capacity room).obeyAll os
  have htaken := (mirrors_new capacity room).taken (fresh_new capacity) os
  have hnodup : ([] ++ made room 0 os).Nodup := hm.nodup
  have hmade : made room 0 (share room [] 0 os) = (made room 0 os).map (rank (made room 0 os)) :=
    made_share hnodup
  refine ⟨?_, hm.all⟩
  simp only [account, Account.mk.injEq]
  refine ⟨hm.count.symm, ?_⟩
  have hnext : (new capacity).next = 0 := rfl
  rw [hnext, hmade, List.map_map]
  refine List.map_congr_left fun id hid => ?_
  obtain ⟨c, hk, hk', hlists⟩ := hm.seats id hid
  simp only [Function.comp_apply, Place.mk.injEq]
  exact ⟨hlists.symm, hk.channel.trans hk'.channel.symm, htaken id hid⟩

/-! ### Orders that change places -/

namespace Order

/-- An order can be given when there are fewer than `next` listeners: its giver holds one of them if
it takes a holder to give it. -/
def timely (next : Nat) : Order → Bool
  | .receive id | .drop id => id.number < next
  | _ => true

/-- Whether an order concerns a room does not depend on listeners that are yet to be opened. -/
theorem about_append {next : Nat} (h : o.timely next = true) (o' : Order) :
    o.about room (ids ++ o'.makes room next) = o.about room ids := by
  cases o with
  | receive id | drop id =>
      have hnew : id ∉ o'.makes room next := by
        intro hmem
        have hid : id.number < next := of_decide_eq_true h
        rw [eq_of_mem_makes hmem] at hid
        exact Nat.lt_irrefl _ hid
      simp [about, hnew]
  | _ => rfl

end Order

theorem share_append (r : Registry) (room : RoomId) (ids : List ListenerId)
    (os os' : List Order) : share room ids r.next (os ++ os') =
      share room ids r.next os ++
        share room (ids ++ made room r.next os) (r.obeyAll os).next os' := by
  induction os generalizing r ids with
  | nil => simp [share, made]
  | cons o os ih =>
      have hrest := ih (r.obey o) (ids ++ o.makes room r.next)
      rw [(fields_obey r o).1] at hrest
      rw [List.cons_append, share, hrest, share, made, obeyAll_cons, List.append_assoc,
        List.append_assoc]

/-- Two orders with which a room has not both to do have the same share in it either way. -/
theorem share_pair {next : Nat} {o₁ o₂ : Order} (h₁ : o₁.timely next = true)
    (h₂ : o₂.timely next = true) (h : ¬ (o₁.about room ids = true ∧ o₂.about room ids = true)) :
    share room ids next [o₁, o₂] = share room ids next [o₂, o₁] := by
  -- the one that does not concern the room opens no listener in it
  have hleft : ∀ {o o' : Order}, o'.timely next = true → o.about room ids = false → ∀ n,
      share room ids next [o, o'] = share room ids n [o'] := by
    intro o o' _ ho n
    simp [share, ho, Order.makes_of_not_about ho]
  have hright : ∀ {o o' : Order}, o.timely next = true → o.about room ids = false → ∀ n,
      share room ids next [o', o] = share room ids n [o'] := by
    intro o o' hnew ho n
    simp [share, Order.about_append hnew, ho]
  cases ho : o₁.about room ids with
  | false => rw [hleft h₂ ho next, hright h₁ ho next]
  | true =>
      have ho' : o₂.about room ids = false := Bool.eq_false_iff.2 fun ho' => h ⟨ho, ho'⟩
      rw [hright h₂ ho' next, hleft h₁ ho' next]

/-- Orders with which no room has to do in common may change places: no room can tell. -/
theorem account_swap (capacity : Nat) {os : List Order} {o₁ o₂ : Order}
    (h₁ : o₁.timely ((new capacity).obeyAll os).next = true)
    (h₂ : o₂.timely ((new capacity).obeyAll os).next = true)
    (h : ∀ room, ¬ (o₁.about room (made room 0 os) = true ∧
      o₂.about room (made room 0 os) = true)) (room : RoomId) :
    (new capacity).account room (os ++ [o₁, o₂]) =
      (new capacity).account room (os ++ [o₂, o₁]) := by
  have hshare : share room [] 0 (os ++ [o₁, o₂]) = share room [] 0 (os ++ [o₂, o₁]) := by
    have hsplit := share_append (new capacity) room [] os
    rw [show (new capacity).next = 0 from rfl, List.nil_append] at hsplit
    rw [hsplit, hsplit, share_pair h₁ h₂ (h room)]
  rw [(account_share capacity room _).1, hshare, ← (account_share capacity room _).1]

end ChatServer.Registry
