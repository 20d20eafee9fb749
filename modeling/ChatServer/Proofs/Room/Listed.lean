import ChatServer.Proofs.Room.Rest

/-!
Who is registered where. A room lists the identities of its listeners; every operation on the rooms
is described here by what it does to the lists and to the listeners' channels, in rooms that know
their listeners and are open. What is done in the name of some listeners spares all others.
-/

namespace ChatServer

/-- What is done to the channels of all subscribers is done once to the channel of each, and to no
other channel of a listener. -/
theorem Broadcaster.get?_foldl_targets {b : Broadcaster} (h : b.Sound)
    (f : Channel Payload → Channel Payload) (chs : Channels) (id : ListenerId) :
    (b.targets.foldl (fun chs ch => chs.modify ch f) chs).get? id.channel =
      if b.contains id then (chs.get? id.channel).map f else chs.get? id.channel := by
  cases hsub : b.subscribers.get? id with
  | none =>
      have hnone : id.channel ∉ b.targets := Table.not_mem_values fun id' hid' => by
        rw [ListenerId.channel_inj.1 (h id' _ hid'), hid'] at hsub
        simp at hsub
      simp [Table.get?_foldl_modify_of_not_mem f hnone, contains, Table.contains, hsub]
  | some ch =>
      obtain rfl := h id ch hsub
      obtain ⟨vs, vs', htargets, hvs, hvs'⟩ := Table.values_of_unique hsub fun id' hid' =>
        (ListenerId.channel_inj.1 (h id' _ hid')).symm
      rw [targets, htargets, Table.get?_foldl_modify_of_once f hvs hvs']
      simp [contains, Table.contains, hsub]

/-- A broadcaster with a further subscriber, who has a channel. -/
def Broadcaster.enlist (b : Broadcaster) (id : ListenerId) : Broadcaster :=
  { b with subscribers := b.subscribers.put id id.channel }

theorem Broadcaster.contains_enlist (b : Broadcaster) (id x : ListenerId) :
    (b.enlist id).contains x = (b.contains x || decide (x = id)) := by
  simp only [enlist, contains, Table.contains, Table.get?_put]
  by_cases hx : x = id <;> simp [hx]

namespace Registry

/-- Whether a listener is registered in a room. -/
def lists (r : Registry) (room : RoomId) (id : ListenerId) : Bool :=
  ((r.rooms.get? room).map fun b => b.contains id).getD false

/-- Rooms that know their listeners and are open, with channels that hold something. -/
structure Proper (r : Registry) : Prop where
  sound : r.Sound
  opened : ∀ room b, r.rooms.get? room = some b → b.closed = false
  below : ∀ room id, r.lists room id = true → id.number < r.next
  capacity : 0 < r.capacity

theorem lists_of_get? {r : Registry} {room : RoomId} {b : Broadcaster}
    (h : r.rooms.get? room = some b) (id : ListenerId) : r.lists room id = b.contains id := by
  simp [lists, h]

/-- The next number is on no list. -/
theorem Proper.lists_next {r : Registry} (h : r.Proper) (room : RoomId) :
    r.lists room ⟨r.next⟩ = false := by
  cases hl : r.lists room ⟨r.next⟩ with
  | false => rfl
  | true => exact absurd (h.below room ⟨r.next⟩ hl) (Nat.lt_irrefl _)

theorem proper_new (capacity : Nat) : (new capacity).Proper where
  sound := sound_new capacity
  opened room b h := by simp [new] at h
  below room id h := by simp [lists, new] at h
  capacity := Nat.lt_of_lt_of_le Nat.zero_lt_one (Nat.le_max_right _ _)

/-- Another room or other channels in an otherwise unchanged registry. -/
theorem lists_put (r : Registry) (room : RoomId) (b : Broadcaster) (channels : Channels)
    (next : Nat) (x : RoomId) (id : ListenerId) :
    ({ r with rooms := r.rooms.put room b, channels, next } : Registry).lists x id =
      if x = room then b.contains id else r.lists x id := by
  simp only [lists, Table.get?_put]
  split <;> rfl

theorem Proper.put {r : Registry} (h : r.Proper) {b : Broadcaster} (hb : b.Sound)
    (hopen : b.closed = false) {next : Nat} (hnext : r.next ≤ next)
    (hbelow : ∀ id, b.contains id = true → id.number < next) (room : RoomId)
    (channels : Channels) :
    ({ r with rooms := r.rooms.put room b, channels, next } : Registry).Proper where
  sound := sound_put h.sound hb room channels next
  opened := Table.forall_get?_put hopen h.opened
  below x id hx := by
    rw [lists_put] at hx
    split at hx
    · exact hbelow id hx
    · exact Nat.lt_of_lt_of_le (h.below x id hx) hnext
  capacity := h.capacity

theorem Proper.of_channels {r : Registry} (h : r.Proper) (channels : Channels) :
    ({ r with channels } : Registry).Proper :=
  ⟨h.sound, h.opened, h.below, h.capacity⟩

/-- The broadcaster that a room has or would have. -/
theorem contains_roomOrNew (r : Registry) (room : RoomId) (id : ListenerId) :
    (r.roomOrNew room).contains id = r.lists room id := by
  unfold roomOrNew lists
  cases r.rooms.get? room <;> rfl

theorem closed_roomOrNew {r : Registry} (h : r.Proper) (room : RoomId) :
    (r.roomOrNew room).closed = false := by
  unfold roomOrNew
  cases hroom : r.rooms.get? room with
  | none => rfl
  | some b => exact h.opened room b hroom

/-! ### One operation -/

theorem create_eq (r : Registry) (room : RoomId) :
    r.create room = r ∨
      r.rooms.get? room = none ∧
        r.create room = { r with rooms := r.rooms.put room (Broadcaster.new room) } := by
  unfold create Table.putNew
  split
  case isTrue => exact .inl rfl
  case isFalse hroom =>
    exact .inr ⟨by simpa [Table.contains] using hroom, rfl⟩

theorem proper_create {r : Registry} (h : r.Proper) (room : RoomId) : (r.create room).Proper := by
  rcases create_eq r room with heq | ⟨-, heq⟩
  · rw [heq]
    exact h
  · rw [heq]
    exact h.put (Broadcaster.sound_new room) rfl (Nat.le_refl _) (by
      intro id hid
      simp [Broadcaster.contains, Broadcaster.new, Table.contains] at hid) room r.channels

theorem lists_create (r : Registry) (room x : RoomId) (id : ListenerId) :
    (r.create room).lists x id = r.lists x id := by
  rcases create_eq r room with heq | ⟨hnone, heq⟩
  · rw [heq]
  · rw [heq, lists_put]
    split
    case isTrue hx =>
      simp [lists, hx, hnone, Broadcaster.contains, Broadcaster.new, Table.contains]
    case isFalse => rfl

/-- Where its number is new a listener is put on the list of its room. -/
theorem openListener_eq {r : Registry} (h : r.Proper) (room : RoomId) :
    r.openListener room = (⟨⟨r.next⟩, room⟩, { r with
      rooms := r.rooms.put room ((r.roomOrNew room).enlist ⟨r.next⟩)
      channels := r.channels.put (ListenerId.channel ⟨r.next⟩) (Channel.new r.capacity)
      next := r.next + 1 }) := by
  have hclosed := closed_roomOrNew h room
  have hnew : (r.roomOrNew room).subscribers.contains ⟨r.next⟩ = false :=
    (contains_roomOrNew r room ⟨r.next⟩).trans (h.lists_next room)
  simp [openListener, Broadcaster.register, Broadcaster.enlist, hclosed, hnew]

/-- A listener that is opened gets a new number, its room's list and an empty channel. -/
theorem openListener_spec {r : Registry} (h : r.Proper) (room : RoomId) :
    (r.openListener room).1 = ⟨⟨r.next⟩, room⟩ ∧ (r.openListener room).2.Proper ∧
      (r.openListener room).2.next = r.next + 1 ∧
      (r.openListener room).2.capacity = r.capacity ∧
      (∀ x id, (r.openListener room).2.lists x id =
        (r.lists x id || decide (x = room ∧ id = ⟨r.next⟩))) ∧
      ∀ id, (r.openListener room).2.channel? id =
        if id = ⟨r.next⟩ then some (Channel.new r.capacity) else r.channel? id := by
  have hsound := grown_openListener h.sound room
  rw [openListener_eq h] at hsound ⊢
  have hcontains : ∀ id, ((r.roomOrNew room).enlist ⟨r.next⟩).contains id =
      (r.lists room id || decide (id = ⟨r.next⟩)) := by
    intro id
    rw [Broadcaster.contains_enlist, contains_roomOrNew]
  refine ⟨rfl, ?_, rfl, rfl, fun x id => ?_, fun id => ?_⟩
  · have hput : (r.rooms.put room ((r.roomOrNew room).enlist ⟨r.next⟩)).get? room =
        some ((r.roomOrNew room).enlist ⟨r.next⟩) := by
      rw [Table.get?_put, if_pos rfl]
    refine h.put (hsound.sound room _ hput) (closed_roomOrNew h room) (Nat.le_succ _)
      (fun id hid => ?_) room _
    rcases Bool.or_eq_true_iff.1 ((hcontains id).symm.trans hid) with hid | hid
    · exact Nat.lt_succ_of_lt (h.below room id hid)
    · rw [of_decide_eq_true hid]
      exact Nat.lt_succ_self _
  · rw [lists_put, hcontains]
    by_cases hx : x = room <;> simp [hx]
  · simp only [channel?, Table.get?_put, ListenerId.channel_inj]

theorem closeListener_spec {r : Registry} (h : r.Proper) (room : RoomId) (id : ListenerId) :
    (r.closeListener room id).Proper ∧ (r.closeListener room id).next = r.next ∧
      (r.closeListener room id).capacity = r.capacity ∧
      (∀ x id', (r.closeListener room id).lists x id' =
        (r.lists x id' && !decide (x = room ∧ id' = id))) ∧
      ∀ id', id' ≠ id → (r.closeListener room id).channel? id' = r.channel? id' := by
  have htouched := touched_closeListener h.sound room id
  unfold closeListener at htouched ⊢
  cases hroom : r.rooms.get? room with
  | none =>
      refine ⟨h, rfl, rfl, fun x id' => ?_, fun _ _ => rfl⟩
      by_cases hx : x = room
      · simp [lists, hx, hroom]
      · simp [hx]
  | some b =>
      rw [hroom] at htouched
      have hcontains : ∀ id', (b.unregister r.channels id).2.1.contains id' =
          (b.contains id' && !decide (id' = id)) := by
        intro id'
        unfold Broadcaster.unregister
        cases hsub : b.subscribers.get? id with
        | none =>
            by_cases hid : id' = id
            · simp [Broadcaster.contains, Table.contains, hid, hsub]
            · simp [hid]
        | some ch => by_cases hid : id' = id <;> simp [Broadcaster.contains, Table.contains, hid]
      have hclosed : (b.unregister r.channels id).2.1.closed = false := by
        have hopen := h.opened room b hroom
        unfold Broadcaster.unregister
        split <;> exact hopen
      refine ⟨?_, rfl, rfl, fun x id' => ?_, htouched.channel⟩
      · refine h.put (Broadcaster.sound_unregister (h.sound room b hroom) _ id) hclosed
          (Nat.le_refl _) (fun id' hid' => ?_) room _
        rw [hcontains] at hid'
        exact h.below room id' ((lists_of_get? hroom id').trans (Bool.and_eq_true_iff.1 hid').1)
      · rw [lists_put]
        split
        case isTrue hx =>
          simp [hcontains, hx, lists_of_get? hroom]
        case isFalse hx =>
          simp [hx]

theorem delete_spec {r : Registry} (h : r.Proper) (room : RoomId) :
    (r.delete room).2.Proper ∧ (r.delete room).2.next = r.next ∧
      (r.delete room).2.capacity = r.capacity ∧
      (∀ x id, (r.delete room).2.lists x id = (r.lists x id && !decide (x = room))) ∧
      ∀ id, (r.delete room).2.channel? id =
        if r.lists room id then (r.channel? id).map Channel.dropSender else r.channel? id := by
  unfold delete
  cases hroom : r.rooms.get? room with
  | none =>
      refine ⟨h, rfl, rfl, fun x id => ?_, fun id => ?_⟩
      · by_cases hx : x = room
        · simp [lists, hx, hroom]
        · simp [hx]
      · simp [lists, hroom]
  | some b =>
      have hlists : ∀ x id, ({ r with
          rooms := r.rooms.erase room, channels := (b.close r.channels).2 } : Registry).lists x id =
            (r.lists x id && !decide (x = room)) := by
        intro x id
        simp only [lists, Table.get?_erase]
        by_cases hx : x = room <;> simp [hx]
      refine ⟨⟨?_, fun x b' hx => ?_, fun x id hx => ?_, h.capacity⟩, rfl, rfl, hlists,
        fun id => ?_⟩
      · have hgrown := grown_delete h.sound room
        simp only [delete, hroom] at hgrown
        exact hgrown.sound
      · exact h.opened x b' (Table.get?_of_erase hx)
      · rw [hlists] at hx
        exact h.below x id (Bool.and_eq_true_iff.1 hx).1
      · rw [lists_of_get? hroom]
        exact Broadcaster.get?_foldl_targets (h.sound room b hroom) Channel.dropSender r.channels id

/-- Publishing offers the payload to all who are listed, and takes those without receiver off the
list. -/
theorem publish_spec {r : Registry} (h : r.Proper) (room : RoomId) (p : Payload) :
    (r.publish room p).Proper ∧ (r.publish room p).next = r.next ∧
      (r.publish room p).capacity = r.capacity ∧
      (∀ x id, (r.publish room p).lists x id = true → r.lists x id = true) ∧
      (∀ x id c, r.channel? id = some c → c.receiving = true →
        (r.publish room p).lists x id = r.lists x id) ∧
      ∀ id, (r.publish room p).channel? id =
        if r.lists room id then (r.channel? id).map (·.offer p) else r.channel? id := by
  unfold publish
  cases hroom : r.rooms.get? room with
  | none => exact ⟨h, rfl, rfl, fun _ _ hx => hx, fun _ _ _ _ _ => rfl, by simp [lists, hroom]⟩
  | some b =>
      have hsound := h.sound room b hroom
      have hfewer : ∀ id, (b.publish r.channels p).2.1.contains id = true →
          b.contains id = true := by
        intro id hid
        simp only [Broadcaster.contains, Table.contains, Broadcaster.publish, Table.get?_filter,
          Option.isSome_iff_exists] at hid ⊢
        obtain ⟨ch, hch⟩ := hid
        exact ⟨ch, (Option.filter_eq_some_iff.1 hch).1⟩
      refine ⟨?_, rfl, rfl, fun x id hx => ?_, fun x id c hc hreceiving => ?_, fun id => ?_⟩
      · exact h.put (Broadcaster.sound_publish hsound _ p) (h.opened room b hroom)
          (Nat.le_refl _) (fun id hid => h.below room id
            ((lists_of_get? hroom id).trans (hfewer id hid))) room _
      · rw [lists_put] at hx
        split at hx
        case isTrue heq =>
          rw [heq, lists_of_get? hroom]
          exact hfewer id hx
        case isFalse => exact hx
      · rw [lists_put]
        split
        case isTrue heq =>
          rw [heq, lists_of_get? hroom]
          simp only [Broadcaster.contains, Table.contains, Broadcaster.publish, Table.get?_filter]
          cases hsub : b.subscribers.get? id with
          | none => rfl
          | some ch =>
              -- the listener's channel has a receiver, so it keeps its place
              obtain rfl := hsound id ch hsub
              have hdelivery : Channels.delivery r.channels id.channel ≠ .gone := by
                have hget : r.channels.get? id.channel = some c := hc
                simp only [Channels.delivery, hget, Option.map_some, Option.getD_some,
                  Channel.delivery, hreceiving, Bool.not_true, Bool.false_eq_true, if_false]
                split <;> simp
              simp [Option.filter, hdelivery]
        case isFalse => rfl
      · rw [lists_of_get? hroom]
        exact Broadcaster.get?_foldl_targets hsound (·.offer p) r.channels id

theorem lists_closeAll (r : Registry) (room : RoomId) (id : ListenerId) :
    r.closeAll.lists room id = false := by
  simp [closeAll, lists]

theorem proper_closeAll {r : Registry} (h : r.Proper) : r.closeAll.Proper where
  sound := grown_closeAll.sound
  opened room b hb := by simp [closeAll] at hb
  below room id hid := by
    rw [lists_closeAll] at hid
    exact absurd hid (by simp)
  capacity := h.capacity

/-- Where broadcasters are closed, channels of those whom one of them contains lose their sender. -/
theorem get?_foldl_close {bs : List Broadcaster} (h : ∀ b ∈ bs, b.Sound) (chs : Channels)
    (id : ListenerId) :
    (bs.foldl (fun chs b => (b.close chs).2) chs).get? id.channel =
      if bs.any (·.contains id) then (chs.get? id.channel).map Channel.dropSender
      else chs.get? id.channel := by
  induction bs generalizing chs with
  | nil => rfl
  | cons b bs ih =>
      have hone : (b.close chs).2.get? id.channel =
          if b.contains id then (chs.get? id.channel).map Channel.dropSender
          else chs.get? id.channel :=
        Broadcaster.get?_foldl_targets (h b List.mem_cons_self) Channel.dropSender chs id
      -- a sender that is lost twice is lost
      have htwice : ∀ c : Option (Channel Payload),
          (c.map Channel.dropSender).map Channel.dropSender = c.map Channel.dropSender :=
        fun c => by cases c <;> rfl
      rw [List.foldl_cons, ih fun b' hb' => h b' (List.mem_cons_of_mem b hb'), hone, List.any_cons]
      cases b.contains id <;> cases bs.any (·.contains id) <;> simp [htwice]

theorem channel?_closeAll {r : Registry} (h : r.Proper) (id : ListenerId) :
    r.closeAll.channel? id =
      if (r.rooms.entries.map Prod.snd).any (·.contains id) then
        (r.channel? id).map Channel.dropSender
      else r.channel? id := by
  refine get?_foldl_close (fun b hb => ?_) r.channels id
  obtain ⟨⟨room, b'⟩, hmem, rfl⟩ := List.mem_map.1 hb
  exact h.sound room b' (Table.mem_entries.1 hmem)

/-- A broadcaster contains whom its room lists. -/
theorem any_contains_iff (r : Registry) (id : ListenerId) :
    (r.rooms.entries.map Prod.snd).any (·.contains id) = true ↔ ∃ room, r.lists room id = true := by
  rw [List.any_eq_true]
  constructor
  · rintro ⟨b, hb, hid⟩
    obtain ⟨⟨room, b'⟩, hmem, rfl⟩ := List.mem_map.1 hb
    exact ⟨room, (lists_of_get? (Table.mem_entries.1 hmem) id).trans hid⟩
  · rintro ⟨room, hid⟩
    cases hroom : r.rooms.get? room with
    | none => simp [lists, hroom] at hid
    | some b =>
        exact ⟨b, List.mem_map.2 ⟨(room, b), Table.mem_entries.2 hroom, rfl⟩,
          (lists_of_get? hroom id).symm.trans hid⟩

/-! ### In the name of some listeners -/

/-- Something has been done in the name of some listeners: nobody has come to be registered, and all
others are registered where they were and have the channels that they had. -/
structure Spared (mine : ListenerId → Prop) (r r' : Registry) : Prop where
  proper : r'.Proper
  next : r.next ≤ r'.next
  capacity : r'.capacity = r.capacity
  fewer : ∀ room id, r'.lists room id = true → r.lists room id = true
  lists : ∀ room id, ¬ mine id → r'.lists room id = r.lists room id
  channel : ∀ id, ¬ mine id → id.number < r.next → r'.channel? id = r.channel? id

variable {mine : ListenerId → Prop}

theorem Spared.refl {r : Registry} (h : r.Proper) : Spared mine r r :=
  ⟨h, Nat.le_refl _, rfl, fun _ _ hl => hl, fun _ _ _ => rfl, fun _ _ _ => rfl⟩

theorem Spared.trans {r s t : Registry} (hrs : Spared mine r s) (hst : Spared mine s t) :
    Spared mine r t where
  proper := hst.proper
  next := Nat.le_trans hrs.next hst.next
  capacity := hst.capacity.trans hrs.capacity
  fewer room id hl := hrs.fewer room id (hst.fewer room id hl)
  lists room id hid := (hst.lists room id hid).trans (hrs.lists room id hid)
  channel id hid hnext :=
    (hst.channel id hid (Nat.lt_of_lt_of_le hnext hrs.next)).trans (hrs.channel id hid hnext)

theorem Spared.mono {mine' : ListenerId → Prop} {r r' : Registry} (h : Spared mine r r')
    (hmine : ∀ id, mine id → mine' id) : Spared mine' r r' where
  proper := h.proper
  next := h.next
  capacity := h.capacity
  fewer := h.fewer
  lists room id hid := h.lists room id fun hm => hid (hmine id hm)
  channel id hid hnext := h.channel id (fun hm => hid (hmine id hm)) hnext

theorem spared_create {r : Registry} (h : r.Proper) (room : RoomId) :
    Spared mine r (r.create room) := by
  have hlists := lists_create r room
  refine ⟨proper_create h room, Nat.le_refl _, rfl, fun x id hx => ?_, fun x id _ => hlists x id,
    fun _ _ _ => rfl⟩
  rw [← hlists]
  exact hx

theorem spared_closeListener {r : Registry} (h : r.Proper) (room : RoomId) {id : ListenerId}
    (hid : mine id) : Spared mine r (r.closeListener room id) := by
  obtain ⟨hproper, hnext, hcapacity, hlists, hchannel⟩ := closeListener_spec h room id
  have hne : ∀ {id'}, ¬ mine id' → id' ≠ id := fun hnot heq => hnot (heq ▸ hid)
  refine ⟨hproper, Nat.le_of_eq hnext.symm, hcapacity, fun x id' hx => ?_, fun x id' hnot => ?_,
    fun id' hnot _ => hchannel id' (hne hnot)⟩
  · rw [hlists] at hx
    exact (Bool.and_eq_true_iff.1 hx).1
  · simp [hlists, hne hnot]

theorem spared_dropReceiver {r : Registry} (h : r.Proper) {id : ListenerId} (hid : mine id) :
    Spared mine r (r.dropReceiver id) := by
  have htouched := touched_dropReceiver h.sound id
  exact ⟨h.of_channels _, Nat.le_refl _, rfl, fun _ _ hl => hl, fun _ _ _ => rfl,
    fun id' hnot _ => htouched.channel id' fun heq => hnot (heq ▸ hid)⟩

/-- Another channel in the place of one listener's. -/
theorem spared_put_channel {r : Registry} (h : r.Proper) {id : ListenerId} (hid : mine id)
    (c : Channel Payload) :
    Spared mine r { r with channels := r.channels.put id.channel c } := by
  refine ⟨h.of_channels _, Nat.le_refl _, rfl, fun _ _ hl => hl, fun _ _ _ => rfl,
    fun id' hnot _ => ?_⟩
  have hch : id'.channel ≠ id.channel := fun heq => hnot (ListenerId.channel_inj.1 heq ▸ hid)
  rw [channel?, Table.get?_put, if_neg hch]
  rfl

theorem spared_receive {r : Registry} (h : r.Proper) {id : ListenerId} (hid : mine id) :
    Spared mine r (r.receive id).2 := by
  unfold receive
  cases r.channel? id with
  | none => exact Spared.refl h
  | some c => exact spared_put_channel h hid _

/-- Whoever is not there to take a listener leaves nobody registered. -/
theorem spared_openAbandoned {r : Registry} (h : r.Proper) (room : RoomId) :
    Spared mine r (r.openAbandoned room) := by
  obtain ⟨hlistener, hopen, hnext, hcapacity, hlists, hchannel⟩ := openListener_spec h room
  have hdrop : Spared (· = ⟨r.next⟩) _ _ := spared_dropReceiver hopen rfl
  have hclose : Spared (· = ⟨r.next⟩) _ _ := spared_closeListener hdrop.proper room rfl
  have hboth := hdrop.trans hclose
  obtain ⟨-, -, -, hclosed, -⟩ := closeListener_spec hdrop.proper room ⟨r.next⟩
  have heq : r.openAbandoned room =
      ((r.openListener room).2.dropReceiver ⟨r.next⟩).closeListener room ⟨r.next⟩ := by
    simp only [openAbandoned, hlistener]
  have hsame : ∀ x id, (r.openAbandoned room).lists x id = r.lists x id := by
    intro x id
    have hkept : ((r.openListener room).2.dropReceiver ⟨r.next⟩).lists x id =
        (r.openListener room).2.lists x id := rfl
    rw [heq, hclosed, hkept, hlists]
    by_cases hnew : x = room ∧ id = ⟨r.next⟩
    · obtain ⟨rfl, rfl⟩ := hnew
      simp [h.lists_next]
    · simp [hnew]
  refine ⟨heq ▸ hboth.proper, ?_, ?_, fun x id hx => (hsame x id).symm.trans hx,
    fun x id _ => hsame x id, fun id _ hbelow => ?_⟩
  · rw [heq]
    exact Nat.le_trans (by rw [hnext]; exact Nat.le_succ _) hboth.next
  · rw [heq]
    exact hboth.capacity.trans hcapacity
  · have hne : id ≠ ⟨r.next⟩ := by
      rintro rfl
      exact Nat.lt_irrefl _ hbelow
    have hbelow' : id.number < (r.openListener room).2.next := by
      rw [hnext]
      exact Nat.lt_succ_of_lt hbelow
    rw [heq, hboth.channel id hne hbelow', hchannel, if_neg hne]

theorem spared_closeAll {r : Registry} (h : r.Proper)
    (hall : ∀ room id, r.lists room id = true → mine id) : Spared mine r r.closeAll := by
  have hnone : ∀ {id}, ¬ mine id → ∀ room, r.lists room id = false := by
    intro id hid room
    cases hl : r.lists room id with
    | false => rfl
    | true => exact absurd (hall room id hl) hid
  refine ⟨proper_closeAll h, Nat.le_refl _, rfl, fun room id hl => ?_, fun room id hid => ?_,
    fun id hid _ => ?_⟩
  · rw [lists_closeAll] at hl
    exact absurd hl (by simp)
  · rw [lists_closeAll, hnone hid]
  · refine (channel?_closeAll h id).trans (if_neg fun hany => ?_)
    obtain ⟨room, hl⟩ := (any_contains_iff r id).1 hany
    rw [hnone hid] at hl
    exact absurd hl (by simp)

/-! ### Counting -/

/-- A room counts those whom it lists. -/
theorem count_eq {r : Registry} {room : RoomId} {n : Nat} (h : r.count room = some n) :
    ∃ ids : List ListenerId, ids.Nodup ∧ ids.length = n ∧
      ∀ id, id ∈ ids ↔ r.lists room id = true := by
  obtain ⟨b, hroom, rfl⟩ := Option.map_eq_some_iff.1 h
  refine ⟨b.subscribers.keys, b.subscribers.nodup, List.length_map _, fun id => ?_⟩
  rw [Table.mem_keys, lists_of_get? hroom, Broadcaster.contains, Table.contains,
    Option.isSome_iff_exists]

theorem lists_of_count_eq_none {r : Registry} {room : RoomId} (h : r.count room = none)
    (id : ListenerId) : r.lists room id = false := by
  simp [lists, Option.map_eq_none_iff.1 h]

end Registry

namespace Pump

variable {mine : ListenerId → Prop}

theorem spared_stop {r : Registry} (h : r.Proper) {p : Pump} (hp : mine p.listener.id)
    (how : StreamEnd) : Registry.Spared mine r (p.stop r how).2 := by
  have hclose := Registry.spared_closeListener h p.listener.room hp
  cases how with
  | roomClosed => exact Registry.spared_dropReceiver h hp
  | cancelled => exact hclose.trans (Registry.spared_dropReceiver hclose.proper hp)
  | consumerGone => exact hclose.trans (Registry.spared_dropReceiver hclose.proper hp)

theorem spared_turn {p p' : Pump} {r r' : Registry} (h : r.Proper) (hp : mine p.listener.id)
    (hturn : p.turn r true = some (p', r')) :
    p'.listener = p.listener ∧ Registry.Spared mine r r' := by
  obtain ⟨-, ⟨payload, -, -, rfl, rfl⟩ | ⟨payload, -, hreceive, rfl⟩ | ⟨how, hstop, -⟩⟩ :=
    turn_cases hturn
  · exact ⟨rfl, Registry.Spared.refl h⟩
  · have hspared := Registry.spared_receive h hp
    rw [hreceive] at hspared
    exact ⟨rfl, hspared⟩
  · obtain ⟨rfl, rfl⟩ := Prod.mk.inj hstop
    exact ⟨rfl, spared_stop h hp how⟩

/-- A pump works in its listener's name. -/
theorem spared_run {r : Registry} (h : r.Proper) {p : Pump} (hp : mine p.listener.id) :
    (p.run r).1.listener = p.listener ∧ Registry.Spared mine r (p.run r).2 := by
  have hfuel : ∀ (fuel : Nat) {p : Pump} {r : Registry}, r.Proper → mine p.listener.id →
      (p.runFor r fuel).1.listener = p.listener ∧ Registry.Spared mine r (p.runFor r fuel).2 := by
    intro fuel
    induction fuel with
    | zero => exact fun h _ => ⟨rfl, Registry.Spared.refl h⟩
    | succ fuel ih =>
        intro p r h hp
        cases hturn : p.turn r true with
        | none =>
            rw [runFor, hturn]
            exact ⟨rfl, Registry.Spared.refl h⟩
        | some moved =>
            obtain ⟨p', r'⟩ := moved
            obtain ⟨hlistener, hspared⟩ := spared_turn h hp hturn
            obtain ⟨hlistener', hrest⟩ := ih hspared.proper (hlistener ▸ hp)
            rw [runFor, hturn]
            exact ⟨hlistener'.trans hlistener, hspared.trans hrest⟩
  exact hfuel _ h hp

end Pump

end ChatServer
