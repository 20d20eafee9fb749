import ChatServer.Proofs.Table
import ChatServer.Room.Registry

/-!
Rooms know their listeners by the channels that bear the listeners' numbers. While that is so, what
is done in the name of one listener touches no other listener's channel.
-/

namespace ChatServer

theorem ListenerId.channel_inj {id id' : ListenerId} : id.channel = id'.channel ↔ id = id' := by
  obtain ⟨n⟩ := id
  obtain ⟨n'⟩ := id'
  simp [ListenerId.channel]

namespace Broadcaster

/-- Every subscriber is subscribed with its own channel. -/
def Sound (b : Broadcaster) : Prop :=
  ∀ id ch, b.subscribers.get? id = some ch → ch = id.channel

theorem sound_new (room : RoomId) : (new room).Sound := by
  intro id ch h
  simp [new] at h

theorem sound_register {b : Broadcaster} (h : b.Sound) (chs : Channels) (id : ListenerId) :
    (b.register chs id id.channel).2.1.Sound := by
  unfold register
  split
  · exact h
  · split
    · exact h
    · exact Table.forall_get?_put rfl h

theorem sound_unregister {b : Broadcaster} (h : b.Sound) (chs : Channels) (id : ListenerId) :
    (b.unregister chs id).2.1.Sound := by
  unfold unregister
  split
  · exact h
  · intro x ch hx
    rw [Table.get?_erase] at hx
    split at hx
    · simp at hx
    · exact h x ch hx

theorem sound_publish {b : Broadcaster} (h : b.Sound) (chs : Channels) (p : Payload) :
    (b.publish chs p).2.1.Sound := by
  intro x ch hx
  simp only [publish, Table.get?_filter] at hx
  exact h x ch (Option.filter_eq_some_iff.1 hx).1

end Broadcaster

namespace Registry

/-- Every listener of every room is subscribed with its own channel. -/
def Sound (r : Registry) : Prop :=
  ∀ room b, r.rooms.get? room = some b → b.Sound

theorem sound_new (capacity : Nat) : (new capacity).Sound := by
  intro room b h
  simp [new] at h

/-- Rooms stay sound when a sound one is put in. -/
theorem sound_put {r : Registry} (h : r.Sound) {b : Broadcaster} (hb : b.Sound) (room : RoomId)
    (channels : Channels) (next : Nat) :
    ({ r with rooms := r.rooms.put room b, channels, next } : Registry).Sound :=
  Table.forall_get?_put hb h

theorem sound_roomOrNew {r : Registry} (h : r.Sound) (room : RoomId) :
    (r.roomOrNew room).Sound := by
  unfold roomOrNew
  cases hroom : r.rooms.get? room with
  | none => exact Broadcaster.sound_new room
  | some b => exact h room b hroom

/-- A registry after an operation: still sound, and no number is handed out twice. -/
structure Grown (r r' : Registry) : Prop where
  sound : r'.Sound
  next : r.next ≤ r'.next

theorem Grown.refl {r : Registry} (h : r.Sound) : Grown r r := ⟨h, Nat.le_refl _⟩

theorem grown_channels {r : Registry} (h : r.Sound) (channels : Channels) :
    Grown r { r with channels } := ⟨h, Nat.le_refl _⟩

theorem grown_create {r : Registry} (h : r.Sound) (room : RoomId) :
    Grown r (r.create room) := by
  unfold create Table.putNew
  split
  · exact Grown.refl h
  · exact ⟨sound_put h (Broadcaster.sound_new room) room r.channels r.next, Nat.le_refl _⟩

theorem grown_openListener {r : Registry} (h : r.Sound) (room : RoomId) :
    Grown r (r.openListener room).2 :=
  ⟨sound_put h (Broadcaster.sound_register (sound_roomOrNew h room) _ _) room _ _,
    Nat.le_succ _⟩

theorem grown_closeListener {r : Registry} (h : r.Sound) (room : RoomId) (id : ListenerId) :
    Grown r (r.closeListener room id) := by
  unfold closeListener
  cases hroom : r.rooms.get? room with
  | none => exact Grown.refl h
  | some b =>
      exact ⟨sound_put h (Broadcaster.sound_unregister (h room b hroom) _ id) room _ _,
        Nat.le_refl _⟩

theorem grown_dropReceiver {r : Registry} (h : r.Sound) (id : ListenerId) :
    Grown r (r.dropReceiver id) := grown_channels h _

theorem Grown.trans {r s t : Registry} (hrs : Grown r s) (hst : Grown s t) : Grown r t :=
  ⟨hst.sound, Nat.le_trans hrs.next hst.next⟩

theorem grown_openAbandoned {r : Registry} (h : r.Sound) (room : RoomId) :
    Grown r (r.openAbandoned room) := by
  have hopen := grown_openListener h room
  have hdrop := grown_dropReceiver hopen.sound (r.openListener room).1.id
  exact (hopen.trans hdrop).trans (grown_closeListener hdrop.sound room _)

theorem grown_delete {r : Registry} (h : r.Sound) (room : RoomId) :
    Grown r (r.delete room).2 := by
  unfold delete
  cases hroom : r.rooms.get? room with
  | none => exact Grown.refl h
  | some b =>
      refine ⟨fun x b' hx => ?_, Nat.le_refl _⟩
      rw [Table.get?_erase] at hx
      split at hx
      · simp at hx
      · exact h x b' hx

theorem grown_publish {r : Registry} (h : r.Sound) (room : RoomId) (p : Payload) :
    Grown r (r.publish room p) := by
  unfold publish
  cases hroom : r.rooms.get? room with
  | none => exact Grown.refl h
  | some b =>
      exact ⟨sound_put h (Broadcaster.sound_publish (h room b hroom) _ p) room _ _,
        Nat.le_refl _⟩

theorem grown_receive {r : Registry} (h : r.Sound) (id : ListenerId) :
    Grown r (r.receive id).2 := by
  unfold receive
  cases r.channel? id with
  | none => exact Grown.refl h
  | some c => exact grown_channels h _

theorem grown_closeAll {r : Registry} : Grown r r.closeAll := by
  refine ⟨fun room b h => ?_, Nat.le_refl _⟩
  simp [closeAll] at h

/-! ### In the name of one listener -/

/-- Nothing has been done but in the name of one listener. -/
structure Touched (id : ListenerId) (r r' : Registry) : Prop where
  grown : Grown r r'
  channel : ∀ id', id' ≠ id → r'.channel? id' = r.channel? id'

theorem Touched.refl {r : Registry} (h : r.Sound) (id : ListenerId) : Touched id r r :=
  ⟨Grown.refl h, fun _ _ => rfl⟩

theorem Touched.trans {r s t : Registry} {id : ListenerId} (hrs : Touched id r s)
    (hst : Touched id s t) : Touched id r t :=
  ⟨hrs.grown.trans hst.grown,
    fun id' hne => (hst.channel id' hne).trans (hrs.channel id' hne)⟩

theorem touched_receive {r : Registry} (h : r.Sound) (id : ListenerId) :
    Touched id r (r.receive id).2 := by
  refine ⟨grown_receive h id, fun id' hne => ?_⟩
  have hch : id'.channel ≠ id.channel := fun heq => hne (ListenerId.channel_inj.1 heq)
  unfold receive
  cases r.channel? id with
  | none => rfl
  | some c =>
      simp only [channel?]
      rw [Table.get?_put, if_neg hch]

theorem touched_dropReceiver {r : Registry} (h : r.Sound) (id : ListenerId) :
    Touched id r (r.dropReceiver id) := by
  refine ⟨grown_dropReceiver h id, fun id' hne => ?_⟩
  have hch : id'.channel ≠ id.channel := fun heq => hne (ListenerId.channel_inj.1 heq)
  simp only [dropReceiver, channel?]
  rw [Table.get?_modify, if_neg hch]

/-- A listener is taken out of whatever room by its own channel. -/
theorem touched_closeListener {r : Registry} (h : r.Sound) (room : RoomId) (id : ListenerId) :
    Touched id r (r.closeListener room id) := by
  refine ⟨grown_closeListener h room id, fun id' hne => ?_⟩
  have hch : id'.channel ≠ id.channel := fun heq => hne (ListenerId.channel_inj.1 heq)
  unfold closeListener
  cases hroom : r.rooms.get? room with
  | none => rfl
  | some b =>
      simp only [channel?, Broadcaster.unregister]
      cases hsub : b.subscribers.get? id with
      | none => rfl
      | some ch =>
          rw [h room b hroom id ch hsub]
          dsimp only
          rw [Table.get?_modify, if_neg hch]

end Registry

end ChatServer
