import ChatServer.Proofs.Connection.Deed
import ChatServer.Proofs.Room.Listed
import Mathlib.Data.List.Nodup

/-!
Who owns which listener. A listener is opened once, by the user of the server or for a connection,
and whatever is done with it afterwards is done in its owner's name. The invariant ties the lists of
the rooms to what the connections hold and to what the clients know of themselves; each kind of
change that a piece of work can make keeps it.
-/

namespace ChatServer

/-- What matters of a connection to the room that it has joined. -/
structure Presence where
  session : Session
  stream : Option Listener
  alive : Bool
  deriving DecidableEq

def Connection.presence (c : Connection) : Presence := ⟨c.session, c.stream, c.alive⟩

/-- What a visitor is to the connection itself. -/
def Visitor.session (v : Visitor) : Session := ⟨v.user, v.room⟩

@[simp] theorem Visitor.session_without (v : Visitor) (room : RoomId) :
    (v.without room).session = v.session := by
  unfold without
  split <;> rfl

/-- Rooms after a connection has given up the listener that it has, if it has one. -/
def Registry.release (r : Registry) : Option Listener → Registry
  | none => r
  | some l => (r.closeListener l.room l.id).dropReceiver l.id

namespace Hub

def presence? (h : Hub) (name : Label) : Option Presence :=
  (h.connections.get? name).map Connection.presence

theorem stream?_eq (h : Hub) (name : Label) :
    h.stream? name = (h.presence? name).bind Presence.stream := by
  unfold stream? presence?
  cases h.connections.get? name <;> rfl

theorem stream?_congr {h h' : Hub} {name : Label} (hp : h'.presence? name = h.presence? name) :
    h'.stream? name = h.stream? name := by
  rw [stream?_eq, stream?_eq, hp]

/-- The identity of the listener that a connection has at present. -/
def IsStream (h : Hub) (name : Label) (id : ListenerId) : Prop :=
  ∃ l, h.stream? name = some l ∧ l.id = id

/-- The listeners that the user of the server can still do something with. -/
def Handles (h : Hub) (l : Listener) : Prop :=
  (∃ name, h.opened.get? name = some l) ∨ (∃ name, h.held.get? name = some l) ∨
    ∃ name p, h.pumps.get? name = some p ∧ p.listener = l

end Hub

/-- The identities of the listeners that the user of the server has opened. -/
def Own (subs : List Subscription) (id : ListenerId) : Prop :=
  ∃ l, (⟨none, l⟩ : Subscription) ∈ subs ∧ l.id = id

namespace Hub

/-- Every listener on a list was opened by the user of the server or is the one that a connection
has at present; a connection has one if and only if its client ought to hear something. -/
structure Kept (h : Hub) (vs : Visitors) (subs : List Subscription) : Prop where
  proper : h.registry.Proper
  fresh : (subs.map fun s => s.listener.id).Nodup
  below : ∀ s ∈ subs, s.listener.id.number < h.registry.next
  handled : ∀ l, h.Handles l → ⟨none, l⟩ ∈ subs
  streams : ∀ name l, h.stream? name = some l →
    ⟨some name, l⟩ ∈ subs ∧ h.registry.canOpen = true ∧
      ∃ c, h.registry.channel? l.id = some c ∧ c.receiving = true ∧ 0 < c.capacity ∧
        c.sending = h.registry.lists l.room l.id
  listed : ∀ room id, h.registry.lists room id = true →
    Own subs id ∨ ∃ name, h.stream? name = some ⟨id, room⟩
  live : ∀ name p, h.presence? name = some p → p.alive = false → p.stream = none
  faithful : ∀ name p, h.presence? name = some p → p.alive = true → p.session = (vs name).session
  hears : ∀ name, (vs name).hears =
    ((h.stream? name).filter fun l => h.registry.lists l.room l.id).map Listener.room

variable {h h' : Hub} {vs vs' : Visitors} {subs : List Subscription}

theorem Kept.eq_of_id (hk : h.Kept vs subs) {s s' : Subscription} (hs : s ∈ subs) (hs' : s' ∈ subs)
    (hid : s.listener.id = s'.listener.id) : s = s' :=
  List.inj_on_of_nodup_map hk.fresh hs hs' hid

/-- The listener of a connection is not one that the user of the server has opened. -/
theorem Kept.not_own (hk : h.Kept vs subs) {name : Label} {l : Listener}
    (hl : h.stream? name = some l) : ¬ Own subs l.id := by
  rintro ⟨l', hl', hid⟩
  have heq := hk.eq_of_id hl' (hk.streams name l hl).1 hid
  simp at heq

theorem Kept.below_stream (hk : h.Kept vs subs) {name : Label} {l : Listener}
    (hl : h.stream? name = some l) : l.id.number < h.registry.next :=
  hk.below _ (hk.streams name l hl).1

/-- Nor is it the one that is opened next. -/
theorem Kept.ne_next (hk : h.Kept vs subs) {name : Label} {l : Listener}
    (hl : h.stream? name = some l) : l.id ≠ ⟨h.registry.next⟩ := by
  intro heq
  have hbelow := hk.below_stream hl
  rw [heq] at hbelow
  exact Nat.lt_irrefl _ hbelow

/-- Two connections have different listeners. -/
theorem Kept.apart (hk : h.Kept vs subs) {name name' : Label} {l l' : Listener}
    (hl : h.stream? name = some l) (hl' : h.stream? name' = some l') (hid : l.id = l'.id) :
    name = name' := by
  have heq := hk.eq_of_id (hk.streams name l hl).1 (hk.streams name' l' hl').1 hid
  simpa using (Subscription.mk.inj heq).1

theorem Kept.not_isStream (hk : h.Kept vs subs) {name name' : Label} {l : Listener}
    (hl : h.stream? name = some l) (hne : name ≠ name') : ¬ h.IsStream name' l.id := by
  rintro ⟨l', hl', hid⟩
  exact hne (hk.apart hl hl' hid.symm)

/-- The listener of a connection is registered nowhere but in its room. -/
theorem Kept.room_of_lists (hk : h.Kept vs subs) {name : Label} {l : Listener}
    (hl : h.stream? name = some l) {room : RoomId} (hroom : h.registry.lists room l.id = true) :
    l.room = room := by
  rcases hk.listed room l.id hroom with hown | ⟨name', hl'⟩
  · exact absurd hown (hk.not_own hl)
  · have heq := hk.eq_of_id (hk.streams name l hl).1 (hk.streams name' _ hl').1 rfl
    rw [(Subscription.mk.inj heq).2]

/-- A client that ought to hear a room has a listener registered there. -/
theorem Kept.hears_eq_some (hk : h.Kept vs subs) {name : Label} {room : RoomId} :
    (vs name).hears = some room ↔
      ∃ l, h.stream? name = some l ∧ l.room = room ∧ h.registry.lists room l.id = true := by
  rw [hk.hears name]
  constructor
  · intro hsome
    obtain ⟨l, hl, rfl⟩ := Option.map_eq_some_iff.1 hsome
    obtain ⟨hstream, hlists⟩ := Option.filter_eq_some_iff.1 hl
    exact ⟨l, hstream, rfl, hlists⟩
  · rintro ⟨l, hstream, rfl, hlists⟩
    exact Option.map_eq_some_iff.2 ⟨l, Option.filter_eq_some_iff.2 ⟨hstream, hlists⟩, rfl⟩

/-! ### Changes that keep it -/

/-- What clients hear is the same where connections and their listeners' places are. -/
theorem hears_congr {name : Label} (hs : h'.stream? name = h.stream? name)
    (hl : ∀ l, h.stream? name = some l →
      h'.registry.lists l.room l.id = h.registry.lists l.room l.id) :
    ((h'.stream? name).filter fun l => h'.registry.lists l.room l.id) =
      (h.stream? name).filter fun l => h.registry.lists l.room l.id := by
  rw [hs]
  cases hstream : h.stream? name with
  | none => rfl
  | some l => simp [Option.filter, hl l hstream]

/-- Listeners of connections keep their places and the ends of their channels. -/
theorem Kept.renew (hk : h.Kept vs subs) (hproper : h'.registry.Proper)
    (hnext : h.registry.next ≤ h'.registry.next)
    (hcapacity : h'.registry.capacity = h.registry.capacity)
    (hfewer : ∀ room id, h'.registry.lists room id = true → h.registry.lists room id = true)
    (hstreams : ∀ name l c, h.stream? name = some l → h.registry.channel? l.id = some c →
      c.receiving = true → h'.registry.lists l.room l.id = h.registry.lists l.room l.id ∧
        ∃ c', h'.registry.channel? l.id = some c' ∧ c'.receiving = c.receiving ∧
          c'.capacity = c.capacity ∧ c'.sending = c.sending)
    (hs : ∀ name, h'.stream? name = h.stream? name)
    (hlive : ∀ name p, h'.presence? name = some p → p.alive = false → p.stream = none)
    (hfaithful : ∀ name p, h'.presence? name = some p → p.alive = true →
      p.session = (vs' name).session)
    (hh : ∀ l, h'.Handles l → ⟨none, l⟩ ∈ subs) (hv : ∀ name, (vs' name).hears = (vs name).hears) :
    h'.Kept vs' subs := by
  have hplace : ∀ {name l}, h.stream? name = some l →
      h'.registry.lists l.room l.id = h.registry.lists l.room l.id := by
    intro name l hl
    obtain ⟨-, -, c, hc, hreceiving, -⟩ := hk.streams name l hl
    exact (hstreams name l c hl hc hreceiving).1
  refine ⟨hproper, hk.fresh, fun s hs => Nat.lt_of_lt_of_le (hk.below s hs) hnext,
    hh, fun name l hl => ?_, fun room id hid => ?_, hlive,
    hfaithful, fun name => ?_⟩
  · rw [hs] at hl
    obtain ⟨hmem, hcan, c, hc, hreceiving, hroom, hsending⟩ := hk.streams name l hl
    obtain ⟨hlist, c', hc', hreceiving', hcapacity', hsending'⟩ :=
      hstreams name l c hl hc hreceiving
    refine ⟨hmem, ?_, c', hc', hreceiving'.trans hreceiving, ?_, ?_⟩
    · rwa [Registry.canOpen, hcapacity]
    · rwa [hcapacity']
    · rw [hsending', hsending, hlist]
  · rcases hk.listed room id (hfewer room id hid) with hown | ⟨name, hl⟩
    · exact .inl hown
    · exact .inr ⟨name, (hs name).trans hl⟩
  · rw [hv, hears_congr (hs name) fun l hl => hplace hl]
    exact hk.hears name

/-- Where connections are as they were. -/
theorem Kept.renew_of_presence (hk : h.Kept vs subs) (hproper : h'.registry.Proper)
    (hnext : h.registry.next ≤ h'.registry.next)
    (hcapacity : h'.registry.capacity = h.registry.capacity)
    (hfewer : ∀ room id, h'.registry.lists room id = true → h.registry.lists room id = true)
    (hstreams : ∀ name l c, h.stream? name = some l → h.registry.channel? l.id = some c →
      c.receiving = true → h'.registry.lists l.room l.id = h.registry.lists l.room l.id ∧
        ∃ c', h'.registry.channel? l.id = some c' ∧ c'.receiving = c.receiving ∧
          c'.capacity = c.capacity ∧ c'.sending = c.sending)
    (hp : ∀ name, h'.presence? name = h.presence? name)
    (hh : ∀ l, h'.Handles l → ⟨none, l⟩ ∈ subs) : h'.Kept vs subs :=
  hk.renew hproper hnext hcapacity hfewer hstreams (fun name => stream?_congr (hp name))
    (fun name p hp' => hk.live name p ((hp name).symm.trans hp'))
    (fun name p hp' => hk.faithful name p ((hp name).symm.trans hp')) hh fun _ => rfl

/-- Whatever is done in the name of listeners that the user of the server has opened. -/
theorem Kept.spared (hk : h.Kept vs subs) (hr : h.registry.Spared (Own subs) h'.registry)
    (hp : ∀ name, h'.presence? name = h.presence? name)
    (hh : ∀ l, h'.Handles l → ⟨none, l⟩ ∈ subs) : h'.Kept vs subs := by
  refine hk.renew_of_presence hr.proper hr.next hr.capacity hr.fewer (fun name l c hl hc _ => ?_)
    hp hh
  have hnot := hk.not_own hl
  exact ⟨hr.lists l.room l.id hnot, c,
    (hr.channel l.id hnot (hk.below_stream hl)).trans hc, rfl, rfl, rfl⟩

/-- A line is published in a room. -/
theorem Kept.publish (hk : h.Kept vs subs) {room : RoomId} {line : Payload}
    (hr : h'.registry = h.registry.publish room line)
    (hp : ∀ name, h'.presence? name = h.presence? name)
    (hh : ∀ l, h'.Handles l → ⟨none, l⟩ ∈ subs) : h'.Kept vs subs := by
  obtain ⟨hproper, hnext, hcapacity, hfewer, hkept, hchannel⟩ :=
    Registry.publish_spec hk.proper room line
  rw [← hr] at hproper hnext hcapacity hfewer hkept hchannel
  refine hk.renew_of_presence hproper (Nat.le_of_eq hnext.symm) hcapacity hfewer
    (fun name l c hl hc hreceiving => ?_) hp hh
  refine ⟨hkept l.room l.id c hc hreceiving,
    if h.registry.lists room l.id then c.offer line else c, ?_, ?_⟩
  · rw [hchannel, hc]
    split <;> rfl
  · unfold Channel.offer
    split
    · split <;> exact ⟨rfl, rfl, rfl⟩
    · exact ⟨rfl, rfl, rfl⟩

/-- A connection passes on what has been published. -/
theorem Kept.forward (hk : h.Kept vs subs) {id : ListenerId} {c : Channel Payload}
    (hc : h.registry.channel? id = some c)
    (hr : h'.registry = { h.registry with
      channels := h.registry.channels.put id.channel { c with buffer := [] } })
    (hp : ∀ name, h'.presence? name = h.presence? name)
    (hh : ∀ l, h'.Handles l → ⟨none, l⟩ ∈ subs) : h'.Kept vs subs := by
  refine hk.renew_of_presence (by rw [hr]; exact hk.proper.of_channels _)
    (Nat.le_of_eq (by rw [hr])) (by rw [hr]) (fun room x hx => by rwa [hr] at hx)
    (fun name l c' hl hc' _ => ?_) hp hh
  refine ⟨by rw [hr]; rfl, ?_⟩
  rw [hr]
  simp only [Registry.channel?, Table.get?_put]
  split
  case isTrue hid =>
    rw [ListenerId.channel_inj.1 hid, hc] at hc'
    obtain rfl := Option.some.inj hc'
    exact ⟨_, rfl, rfl, rfl, rfl⟩
  case isFalse => exact ⟨c', hc', rfl, rfl, rfl⟩

/-- A connection names its user. -/
theorem Kept.identify (hk : h.Kept vs subs) {name : Label} {p : Presence}
    (hold : h.presence? name = some p) {session : Session} (hr : h'.registry = h.registry)
    (hp : ∀ n, h'.presence? n = if n = name then some { p with session } else h.presence? n)
    (hh : ∀ l, h'.Handles l → ⟨none, l⟩ ∈ subs) (hv : ∀ n, n ≠ name → vs' n = vs n)
    (hself : (vs' name).hears = (vs name).hears) (hsession : session = (vs' name).session) :
    h'.Kept vs' subs := by
  refine hk.renew (by rw [hr]; exact hk.proper) (Nat.le_of_eq (by rw [hr])) (by rw [hr])
    (fun room x hx => by rwa [hr] at hx)
    (fun n l c hl hc _ => ⟨by rw [hr], c, by rw [hr, hc], rfl, rfl, rfl⟩) (fun n => ?_)
    (fun n q hq ha => ?_) (fun n q hq ha => ?_) hh fun n => ?_
  · rw [stream?_eq, stream?_eq, hp]
    by_cases hn : n = name
    · rw [if_pos hn, hn, hold]
      rfl
    · rw [if_neg hn]
  · rw [hp] at hq
    split at hq
    · rw [← Option.some.inj hq] at ha ⊢
      exact hk.live name p hold ha
    · exact hk.live n q hq ha
  · rw [hp] at hq
    split at hq
    case isTrue hn =>
      rw [← Option.some.inj hq, hn]
      exact hsession
    case isFalse hn =>
      rw [hv n hn]
      exact hk.faithful n q hq ha
  · by_cases hn : n = name
    · rw [hn, hself]
    · rw [hv n hn]

/-- Who has heard a room hears nothing once it is deleted, and the others what they have heard. -/
theorem hears_delete {v : Visitor} {l : Option Listener} {r r' : Registry} {room : RoomId}
    (hhears : v.hears = (l.filter fun l => r.lists l.room l.id).map Listener.room)
    (hlists : ∀ x id, r'.lists x id = (r.lists x id && !decide (x = room))) :
    (v.without room).hears = (l.filter fun l => r'.lists l.room l.id).map Listener.room := by
  unfold Visitor.without
  cases l with
  | none => simp [hhears]
  | some l =>
      cases hlisted : r.lists l.room l.id with
      | false => simp [hhears, hlists, hlisted, Option.filter]
      | true =>
          by_cases heq : l.room = room
          · subst heq
            simp [hhears, hlists, hlisted, Option.filter]
          · simp [hhears, hlists, hlisted, heq, Option.filter]

/-- A room is deleted: nobody hears it any more. -/
theorem Kept.delete (hk : h.Kept vs subs) {room : RoomId}
    (hr : h'.registry = (h.registry.delete room).2)
    (hp : ∀ name, h'.presence? name = h.presence? name)
    (hh : ∀ l, h'.Handles l → ⟨none, l⟩ ∈ subs) :
    h'.Kept (fun name => (vs name).without room) subs := by
  obtain ⟨hproper, hnext, hcapacity, hlists, hchannel⟩ := Registry.delete_spec hk.proper room
  rw [← hr] at hproper hnext hcapacity hlists hchannel
  have hfewer : ∀ {x id}, h'.registry.lists x id = true → h.registry.lists x id = true := by
    intro x id hid
    rw [hlists] at hid
    exact (Bool.and_eq_true_iff.1 hid).1
  refine ⟨hproper, hk.fresh, fun s hs => ?_, hh,
    fun name l hl => ?_, fun x id hid => ?_, fun name p hp' => hk.live name p ?_,
    fun name p hp' ha => ?_, fun name => ?_⟩
  · rw [hnext]
    exact hk.below s hs
  · rw [stream?_congr (hp name)] at hl
    obtain ⟨hmem, hcan, c, hc, hreceiving, hroom, hsending⟩ := hk.streams name l hl
    refine ⟨hmem, ?_, if h.registry.lists room l.id then c.dropSender else c, ?_, ?_⟩
    · rwa [Registry.canOpen, hcapacity]
    · rw [hchannel, hc]
      split <;> rfl
    · -- a listener that the room had on its list has no other room
      rw [hlists]
      split
      case isTrue hlisted =>
        have heq := hk.room_of_lists hl hlisted
        exact ⟨hreceiving, hroom, by simp [Channel.dropSender, heq]⟩
      case isFalse hlisted =>
        refine ⟨hreceiving, hroom, ?_⟩
        by_cases heq : l.room = room
        · rw [heq] at hsending ⊢
          simpa [hlisted] using hsending
        · simpa [heq] using hsending
  · rcases hk.listed x id (hfewer hid) with hown | ⟨name, hl⟩
    · exact .inl hown
    · exact .inr ⟨name, (stream?_congr (hp name)).trans hl⟩
  · exact (hp name).symm.trans hp'
  · rw [Visitor.session_without]
    exact hk.faithful name p ((hp name).symm.trans hp') ha
  · rw [stream?_congr (hp name)]
    exact hears_delete (hk.hears name) hlists

/-- The number of a listener that is opened next is new. -/
theorem Kept.fresh_open (hk : h.Kept vs subs) {s : Subscription}
    (hs : s.listener.id = ⟨h.registry.next⟩) :
    ((subs ++ [s]).map fun s => s.listener.id).Nodup ∧
      ∀ s' ∈ subs ++ [s], s'.listener.id.number < h.registry.next + 1 := by
  refine ⟨?_, fun s' hs' => ?_⟩
  · rw [List.map_append, List.nodup_append]
    refine ⟨hk.fresh, List.nodup_singleton _, fun id hid id' hid' => ?_⟩
    obtain ⟨s', hs', rfl⟩ := List.mem_map.1 hid
    rw [(List.mem_singleton.1 hid').trans hs]
    intro heq
    have hbelow := hk.below s' hs'
    rw [heq] at hbelow
    exact Nat.lt_irrefl _ hbelow
  · rcases List.mem_append.1 hs' with hs' | hs'
    · exact Nat.lt_succ_of_lt (hk.below s' hs')
    · rw [List.mem_singleton.1 hs', hs]
      exact Nat.lt_succ_self _

/-- What has been opened before stays where it is when another listener is opened. -/
theorem Kept.stream_open (hk : h.Kept vs subs) {room : RoomId}
    (hr : h'.registry = (h.registry.openListener room).2) {name : Label} {l : Listener}
    (hl : h.stream? name = some l) :
    h'.registry.lists l.room l.id = h.registry.lists l.room l.id ∧
      h'.registry.channel? l.id = h.registry.channel? l.id := by
  obtain ⟨-, -, -, -, hlists, hchannel⟩ := Registry.openListener_spec hk.proper room
  have hne := hk.ne_next hl
  exact ⟨by simp [hr, hlists, hne], by simp [hr, hchannel, hne]⟩

/-- The user of the server opens a listener. -/
theorem Kept.listen (hk : h.Kept vs subs) {room : RoomId}
    (hr : h'.registry = (h.registry.openListener room).2)
    (hp : ∀ name, h'.presence? name = h.presence? name)
    (hh : ∀ l, h'.Handles l → ⟨none, l⟩ ∈ subs) :
    h'.Kept vs (subs ++ [⟨none, ⟨⟨h.registry.next⟩, room⟩⟩]) := by
  obtain ⟨-, hproper, hnext, hcapacity, hlists, -⟩ := Registry.openListener_spec hk.proper room
  rw [← hr] at hproper hnext hcapacity hlists
  obtain ⟨hfresh, hbelow⟩ :=
    hk.fresh_open (s := ⟨none, ⟨⟨h.registry.next⟩, room⟩⟩) rfl
  refine ⟨hproper, hfresh, by rw [hnext]; exact hbelow, fun l hl => ?_, fun name l hl => ?_,
    fun x id hid => ?_, fun name p hp' => hk.live name p ?_,
    fun name p hp' => hk.faithful name p ?_, fun name => ?_⟩
  · exact List.mem_append_left _ (hh l hl)
  · rw [stream?_congr (hp name)] at hl
    obtain ⟨hmem, hcan, c, hc, hreceiving, hroom, hsending⟩ := hk.streams name l hl
    obtain ⟨hlist, hchannel⟩ := hk.stream_open hr hl
    refine ⟨List.mem_append_left _ hmem, ?_, c, hchannel.trans hc, hreceiving, hroom,
      hsending.trans hlist.symm⟩
    rwa [Registry.canOpen, hcapacity]
  · rw [hlists] at hid
    rcases Bool.or_eq_true_iff.1 hid with hid | hid
    · rcases hk.listed x id hid with ⟨l, hl, heq⟩ | ⟨name, hl⟩
      · exact .inl ⟨l, List.mem_append_left _ hl, heq⟩
      · exact .inr ⟨name, (stream?_congr (hp name)).trans hl⟩
    · refine .inl ⟨⟨⟨h.registry.next⟩, room⟩,
        List.mem_append_right _ (List.mem_singleton.2 rfl), ?_⟩
      exact (of_decide_eq_true hid).2.symm
  · exact (hp name).symm.trans hp'
  · exact (hp name).symm.trans hp'
  · rw [hears_congr (stream?_congr (hp name)) fun l hl => (hk.stream_open hr hl).1]
    exact hk.hears name

/-- A connection opens a listener and has none so far. -/
theorem Kept.join (hk : h.Kept vs subs) {name : Label} {room : RoomId} {p : Presence}
    (hnone : h.stream? name = none) (hcan : h.registry.canOpen = true)
    (hr : h'.registry = (h.registry.openListener room).2)
    (hp : ∀ n, h'.presence? n = if n = name then some p else h.presence? n)
    (hstream : p.stream = some ⟨⟨h.registry.next⟩, room⟩) (halive : p.alive = true)
    (hh : ∀ l, h'.Handles l → ⟨none, l⟩ ∈ subs)
    (hv : ∀ n, n ≠ name → vs' n = vs n)
    (hself : (vs' name).hears = some room) (hsession : p.session = (vs' name).session) :
    h'.Kept vs' (subs ++ [⟨some name, ⟨⟨h.registry.next⟩, room⟩⟩]) := by
  obtain ⟨-, hproper, hnext, hcapacity, hlists, hchannel⟩ :=
    Registry.openListener_spec hk.proper room
  rw [← hr] at hproper hnext hcapacity hlists hchannel
  obtain ⟨hfresh, hbelow⟩ :=
    hk.fresh_open (s := ⟨some name, ⟨⟨h.registry.next⟩, room⟩⟩) rfl
  have hothers : ∀ {n}, n ≠ name → h'.presence? n = h.presence? n := by
    intro n hn
    rw [hp, if_neg hn]
  have hmine : h'.stream? name = some ⟨⟨h.registry.next⟩, room⟩ := by
    rw [stream?_eq, hp, if_pos rfl]
    exact hstream
  have hregistered : h'.registry.lists room ⟨h.registry.next⟩ = true := by
    rw [hlists]
    simp
  refine ⟨hproper, hfresh, by rw [hnext]; exact hbelow,
    fun l hl => List.mem_append_left _ (hh l hl), fun n l hl => ?_,
    fun x id hid => ?_, fun n q hq ha => ?_, fun n q hq ha => ?_, fun n => ?_⟩
  · have hcan' : h'.registry.canOpen = true := by rwa [Registry.canOpen, hcapacity]
    by_cases hn : n = name
    · subst hn
      obtain rfl := Option.some.inj (hmine.symm.trans hl)
      refine ⟨List.mem_append_right _ (List.mem_singleton.2 rfl), hcan',
        Channel.new h.registry.capacity, by rw [hchannel, if_pos rfl], rfl, hk.proper.capacity,
        hregistered.symm⟩
    · rw [stream?_congr (hothers hn)] at hl
      obtain ⟨hmem, -, c, hc, hreceiving, hroom, hsending⟩ := hk.streams n l hl
      obtain ⟨hlist, hsame⟩ := hk.stream_open hr hl
      exact ⟨List.mem_append_left _ hmem, hcan', c, hsame.trans hc, hreceiving, hroom,
        hsending.trans hlist.symm⟩
  · rw [hlists] at hid
    rcases Bool.or_eq_true_iff.1 hid with hid | hid
    · rcases hk.listed x id hid with ⟨l, hl, heq⟩ | ⟨n, hl⟩
      · exact .inl ⟨l, List.mem_append_left _ hl, heq⟩
      · have hn : n ≠ name := by
          rintro rfl
          rw [hnone] at hl
          simp at hl
        exact .inr ⟨n, (stream?_congr (hothers hn)).trans hl⟩
    · obtain ⟨rfl, rfl⟩ := of_decide_eq_true hid
      exact .inr ⟨name, hmine⟩
  · by_cases hn : n = name
    · rw [hp, if_pos hn] at hq
      rw [← Option.some.inj hq, halive] at ha
      exact absurd ha (by simp)
    · exact hk.live n q ((hothers hn).symm.trans hq) ha
  · by_cases hn : n = name
    · rw [hp, if_pos hn] at hq
      rw [← Option.some.inj hq, hn]
      exact hsession
    · rw [hv n hn]
      exact hk.faithful n q ((hothers hn).symm.trans hq) ha
  · by_cases hn : n = name
    · subst hn
      rw [hself, hmine]
      simp [Option.filter, hregistered]
    · rw [hv n hn, hears_congr (stream?_congr (hothers hn)) fun l hl => (hk.stream_open hr hl).1]
      exact hk.hears n

/-- Giving up a listener takes it off the list of its room and touches nothing else. -/
theorem spared_release {r : Registry} (h : r.Proper) (l : Option Listener) :
    r.Spared (fun id => ∃ l', l = some l' ∧ l'.id = id) (r.release l) ∧
      ∀ l', l = some l' → (r.release l).lists l'.room l'.id = false := by
  cases l with
  | none => exact ⟨Registry.Spared.refl h, fun l' hl' => by simp at hl'⟩
  | some l =>
      have hmine : ∃ l', some l = some l' ∧ l'.id = l.id := ⟨l, rfl, rfl⟩
      have hclose : r.Spared (fun id => ∃ l', some l = some l' ∧ l'.id = id) _ :=
        Registry.spared_closeListener h l.room hmine
      refine ⟨hclose.trans (Registry.spared_dropReceiver hclose.proper hmine), fun l' hl' => ?_⟩
      obtain rfl := Option.some.inj hl'
      obtain ⟨-, -, -, hlists, -⟩ := Registry.closeListener_spec h l.room l.id
      exact (hlists l.room l.id).trans (by simp)

/-- A connection has a listener no longer. -/
theorem Kept.leave (hk : h.Kept vs subs) {name : Label} {p : Option Presence}
    (hspared : h.registry.Spared (h.IsStream name) h'.registry)
    (hgone : ∀ l, h.stream? name = some l → h'.registry.lists l.room l.id = false)
    (hp : ∀ n, h'.presence? n = if n = name then p else h.presence? n)
    (hstream : ∀ q, p = some q → q.stream = none)
    (hh : ∀ l, h'.Handles l → ⟨none, l⟩ ∈ subs)
    (hv : ∀ n, n ≠ name → vs' n = vs n) (hself : (vs' name).hears = none)
    (hsession : ∀ q, p = some q → q.alive = true → q.session = (vs' name).session) :
    h'.Kept vs' subs := by
  have hothers : ∀ {n}, n ≠ name → h'.presence? n = h.presence? n := by
    intro n hn
    rw [hp, if_neg hn]
  have hmine : h'.stream? name = none := by
    rw [stream?_eq, hp, if_pos rfl]
    cases p with
    | none => rfl
    | some q => exact hstream q rfl
  refine ⟨hspared.proper, hk.fresh, fun s hs => Nat.lt_of_lt_of_le (hk.below s hs) hspared.next,
    hh, fun n l hl => ?_, fun x id hid => ?_, fun n q hq ha => ?_,
    fun n q hq ha => ?_, fun n => ?_⟩
  · have hn : n ≠ name := by
      rintro rfl
      rw [hmine] at hl
      simp at hl
    rw [stream?_congr (hothers hn)] at hl
    obtain ⟨hmem, hcan, c, hc, hreceiving, hroom, hsending⟩ := hk.streams n l hl
    refine ⟨hmem, ?_, c, ?_, hreceiving, hroom, ?_⟩
    · rwa [Registry.canOpen, hspared.capacity]
    · rw [hspared.channel l.id (hk.not_isStream hl hn) (hk.below_stream hl), hc]
    · rw [hspared.lists l.room l.id (hk.not_isStream hl hn), hsending]
  · rcases hk.listed x id (hspared.fewer x id hid) with hown | ⟨n, hl⟩
    · exact .inl hown
    · have hn : n ≠ name := by
        rintro rfl
        rw [hgone _ hl] at hid
        exact absurd hid (by simp)
      exact .inr ⟨n, (stream?_congr (hothers hn)).trans hl⟩
  · by_cases hn : n = name
    · rw [hp, if_pos hn] at hq
      exact hstream q hq
    · exact hk.live n q ((hothers hn).symm.trans hq) ha
  · by_cases hn : n = name
    · rw [hp, if_pos hn] at hq
      rw [hn]
      exact hsession q hq ha
    · rw [hv n hn]
      exact hk.faithful n q ((hothers hn).symm.trans hq) ha
  · by_cases hn : n = name
    · subst hn
      rw [hself, hmine]
      rfl
    · rw [hv n hn, hears_congr (stream?_congr (hothers hn)) fun l hl =>
        hspared.lists l.room l.id (hk.not_isStream hl hn)]
      exact hk.hears n

end Hub

end ChatServer
