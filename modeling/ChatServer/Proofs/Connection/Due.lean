import ChatServer.Proofs.Connection.Work

/-!
What a client is due: the frames of its streams that it has been sent and has not read, and those
that its listener has received and that have not been passed on. Where nobody is due anything, a
change makes due exactly what its deed gives to hear; where nothing is done, passing frames on
takes none away and adds none.
-/

namespace ChatServer

/-- What a channel still has for its receiver, in frames. -/
def Channel.backlog (c : Channel Payload) (room : RoomId) : List Frame :=
  c.buffer.map (Frame.message room.text) ++ if c.sending then [] else [Frame.roomClosed room.text]

@[simp] theorem Channel.backlog_eq_nil {c : Channel Payload} {room : RoomId} :
    c.backlog room = [] ↔ c.buffer = [] ∧ c.sending = true := by
  rw [backlog, List.append_eq_nil_iff, List.map_eq_nil_iff]
  cases c.sending <;> simp

namespace Hub

/-- Frames that are on their way to a client from the room that it has joined. -/
def pending (h : Hub) (name : Label) : List Frame :=
  match h.stream? name with
  | none => []
  | some l => ((h.registry.channel? l.id).map fun c => c.backlog l.room).getD []

def due (h : Hub) (name : Label) : List Frame := h.shown name ++ h.pending name

variable {h h' : Hub} {vs : Visitors} {subs opened : List Subscription} {n name : Label}

theorem pending_of_no_stream (hs : h.stream? n = none) : h.pending n = [] := by
  rw [pending, hs]

theorem pending_of_stream {l : Listener} {c : Channel Payload} (hs : h.stream? n = some l)
    (hc : h.registry.channel? l.id = some c) : h.pending n = c.backlog l.room := by
  rw [pending, hs]
  simp only [hc]
  rfl

/-- Nothing changes for whom neither the listener nor its channel does. -/
theorem pending_congr (hs : h'.stream? n = h.stream? n)
    (hc : ∀ l, h.stream? n = some l → h'.registry.channel? l.id = h.registry.channel? l.id) :
    h'.pending n = h.pending n := by
  rw [pending, pending, hs]
  cases hl : h.stream? n with
  | none => rfl
  | some l => simp only [hc l hl]

/-- A listener of a connection is registered in the room that its client hears, if in any. -/
theorem Kept.lists_iff_hears (hk : h.Kept vs subs) {l : Listener} (hl : h.stream? n = some l)
    (room : RoomId) : h.registry.lists room l.id = true ↔ (vs n).hears = some room := by
  rw [hk.hears_eq_some, hl]
  constructor
  · intro hlists
    exact ⟨l, rfl, hk.room_of_lists hl hlists, hlists⟩
  · rintro ⟨l', hl', -, hlists⟩
    obtain rfl := Option.some.inj hl'
    exact hlists

/-- What is done in the name of others changes nothing. -/
theorem Kept.pending_spared (hk : h.Kept vs subs) {mine : ListenerId → Prop}
    (hspared : h.registry.Spared mine h'.registry) (hs : h'.stream? n = h.stream? n)
    (hnot : ∀ l, h.stream? n = some l → ¬ mine l.id) : h'.pending n = h.pending n :=
  pending_congr hs fun l hl => hspared.channel l.id (hnot l hl) (hk.below_stream hl)

/-- Nor does what is done in the name of another connection. -/
theorem Kept.pending_other (hk : h.Kept vs subs)
    (hspared : h.registry.Spared (h.IsStream name) h'.registry)
    (hn : n ≠ name) (hs : h'.stream? n = h.stream? n) : h'.pending n = h.pending n :=
  hk.pending_spared hspared hs fun _ hl => hk.not_isStream hl hn

/-! ### Passing on -/

/-- What passing on does to a connection's listener: it is left with nothing, or nothing happens. -/
theorem Kept.pending_forwarded (hk : h.Kept vs subs) {l : Listener} {c : Channel Payload}
    (hl : h.stream? name = some l) (hsending : c.sending = true)
    (hr : h'.registry = { h.registry with
      channels := h.registry.channels.put l.id.channel { c with buffer := [] } })
    (hs : ∀ n, h'.stream? n = h.stream? n) (n : Label) :
    h'.pending n = if n = name then [] else h.pending n := by
  have hchannel : ∀ id, h'.registry.channel? id =
      if id = l.id then some { c with buffer := [] } else h.registry.channel? id := by
    intro id
    simp only [hr, Registry.channel?, Table.get?_put, ListenerId.channel_inj]
  split
  case isTrue hn =>
    rw [pending_of_stream ((hs n).trans (hn ▸ hl)) (by rw [hchannel, if_pos rfl]),
      Channel.backlog_eq_nil]
    exact ⟨rfl, hsending⟩
  case isFalse hn =>
    refine pending_congr (hs n) fun l' hl' => ?_
    rw [hchannel, if_neg fun hid => hn (hk.apart hl' hl hid)]

/-- A change by which nothing is done leaves everybody due what they were due. -/
theorem Kept.due_quiet (hk : h.Kept vs subs) (hc : Change h vs [] opened h') (n : Label) :
    h'.due n = h.due n := by
  cases hc with
  | still registry rest same silent =>
      have hpending : h'.pending n = h.pending n :=
        hk.pending_spared registry (stream?_congr (rest.presence n)) fun l hl hmine =>
          hk.not_own hl (hk.own_of_handled hmine)
      rw [due, due, rest.shown, hpending]
  | @listened room _ registry presence shown handles =>
      have hpending : h'.pending n = h.pending n := by
        refine pending_congr (stream?_congr (presence n)) fun l hl => ?_
        obtain ⟨-, -, hnext, -⟩ := Registry.openListener_spec hk.proper room
        have hbelow : l.id.number < (h.registry.openListener room).2.next := by
          rw [hnext]
          exact Nat.lt_succ_of_lt (hk.below_stream hl)
        rw [registry.channel l.id (fun hmine => hk.not_own hl (hk.own_of_handled hmine)) hbelow]
        have hopen : ({ h with registry := (h.registry.openListener room).2 } : Hub).registry =
          (h.registry.openListener room).2 := rfl
        exact (hk.stream_open hopen hl).2
      rw [due, due, shown, hpending]
  | forwarded stream channel sending registry presence shown handles =>
      rw [due, due, shown, hk.pending_forwarded stream sending registry
        (fun n => stream?_congr (presence n)) n]
      split
      case isTrue hn =>
        rw [hn, pending_of_stream stream channel, Channel.backlog, sending, if_pos rfl,
          List.append_assoc]
      case isFalse => rw [List.append_nil]
  | @ended name l c p _ old stream channel ended registry presence shown handles =>
      rw [due, due, shown, List.append_assoc]
      congr 1
      split
      case isTrue hn =>
        have hnone : h'.stream? n = none := by
          rw [stream?_eq, presence, if_pos hn]
          rfl
        rw [pending_of_no_stream hnone, List.append_nil, hn, pending_of_stream stream channel,
          Channel.backlog, ended]
        rfl
      case isFalse hn =>
        rw [List.nil_append]
        have hs : h'.stream? n = h.stream? n :=
          stream?_congr (by rw [presence, if_neg hn])
        exact hk.pending_spared registry hs fun l' hl' hid => hn (hk.apart hl' stream hid)
  | dismissed nobody registry rest =>
      have hnone := hk.stream_eq_none nobody n
      rw [due, due, rest.shown, pending_of_no_stream hnone,
        pending_of_no_stream ((stream?_congr (rest.presence n)).trans hnone)]

/-- Nor does it take back what has been sent. -/
theorem Change.prefix_shown (hc : Change h vs [] opened h') (n : Label) :
    h.shown n <+: h'.shown n := by
  cases hc with
  | still registry rest same silent =>
      have hsame : h.shown n = h'.shown n := (rest.shown n).symm
      exact hsame ▸ List.prefix_rfl
  | listened registry presence shown handles =>
      have hsame : h.shown n = h'.shown n := (shown n).symm
      exact hsame ▸ List.prefix_rfl
  | forwarded stream channel sending registry presence shown handles =>
      rw [shown]
      exact List.prefix_append _ _
  | ended old stream channel ended registry presence shown handles =>
      rw [shown]
      exact List.prefix_append _ _
  | dismissed nobody registry rest =>
      have hsame : h.shown n = h'.shown n := (rest.shown n).symm
      exact hsame ▸ List.prefix_rfl

theorem Kept.pending_quiet (hk : h.Kept vs subs) (hc : Change h vs [] opened h')
    (hnone : h.pending n = []) : h'.pending n = [] := by
  have hdue := hk.due_quiet hc n
  -- what is due does not change and what is shown does not shrink, so nothing is left to come
  obtain ⟨more, hmore⟩ := hc.prefix_shown n
  rw [due, due, hnone, ← hmore, List.append_assoc] at hdue
  exact (List.append_eq_nil_iff.1 (List.append_cancel_left hdue)).2

/-- Nobody dies of it. -/
theorem Change.dead_before (hc : Change h vs [] opened h') {p : Presence}
    (hp : h'.presence? n = some p) (ha : p.alive = false) :
    ∃ q, h.presence? n = some q ∧ q.alive = false := by
  cases hc with
  | still registry rest same silent => exact ⟨p, (rest.presence n).symm.trans hp, ha⟩
  | listened registry presence shown handles => exact ⟨p, (presence n).symm.trans hp, ha⟩
  | forwarded stream channel sending registry presence shown handles =>
      exact ⟨p, (presence n).symm.trans hp, ha⟩
  | @ended name l c q _ old stream channel ended registry presence shown handles =>
      rw [presence] at hp
      split at hp
      case isTrue hn =>
        rw [← Option.some.inj hp] at ha
        exact ⟨q, hn ▸ old, ha⟩
      case isFalse => exact ⟨p, hp, ha⟩
  | dismissed nobody registry rest => exact ⟨p, (rest.presence n).symm.trans hp, ha⟩

/-! ### Deeds -/

theorem due_eq_nil : h.due n = [] ↔ h.shown n = [] ∧ h.pending n = [] := List.append_eq_nil_iff

/-- Where nobody is due anything a connection's channel is empty and open. -/
theorem Kept.channel_of_nothing_due (hk : h.Kept vs subs) (hnone : h.due n = []) {l : Listener}
    (hl : h.stream? n = some l) :
    ∃ c, h.registry.channel? l.id = some c ∧ c.buffer = [] ∧ c.sending = true ∧
      c.receiving = true ∧ 0 < c.capacity := by
  obtain ⟨-, -, c, hc, hreceiving, hroom, -⟩ := hk.streams n l hl
  have hpending := (due_eq_nil.1 hnone).2
  rw [pending_of_stream hl hc, Channel.backlog_eq_nil] at hpending
  exact ⟨c, hc, hpending.1, hpending.2, hreceiving, hroom⟩

theorem Kept.hears_of_no_stream (hk : h.Kept vs subs) (hl : h.stream? n = none) :
    (vs n).hears = none := by
  rw [hk.hears, hl]
  rfl

/-- A line is on its way to those who hear the room. -/
theorem Kept.pending_said (hk : h.Kept vs subs) (hnone : h.due n = []) {room : RoomId}
    {line : Payload} (hr : h'.registry = h.registry.publish room line)
    (hs : h'.stream? n = h.stream? n) :
    h'.pending n = if (vs n).hears = some room then [Frame.message room.text line] else [] := by
  cases hl : h.stream? n with
  | none =>
      rw [pending_of_no_stream (hs.trans hl), hk.hears_of_no_stream hl]
      simp
  | some l =>
      obtain ⟨c, hc, hbuffer, hsending, hreceiving, hroom⟩ := hk.channel_of_nothing_due hnone hl
      obtain ⟨-, -, -, -, -, hchannel⟩ := Registry.publish_spec hk.proper room line
      rw [← hr] at hchannel
      have hheard := hk.lists_iff_hears hl room
      by_cases hears : (vs n).hears = some room
      · have hlists := hheard.2 hears
        -- an empty buffer has place for a line, whatever its capacity
        have hfits : c.delivery = .accepted := by
          simp only [Channel.delivery, hreceiving, hbuffer, List.length_nil]
          simp [Nat.not_le.2 hroom]
        have hc' : h'.registry.channel? l.id = some (c.offer line) := by
          rw [hchannel, if_pos hlists, hc]
          rfl
        rw [pending_of_stream (hs.trans hl) hc', if_pos hears, ← hk.room_of_lists hl hlists]
        simp [Channel.backlog, Channel.offer, hfits, hbuffer, hsending]
      · have hlists : ¬ h.registry.lists room l.id = true := fun hlists => hears (hheard.1 hlists)
        have hc' : h'.registry.channel? l.id = some c := by
          rw [hchannel, if_neg hlists, hc]
        rw [pending_of_stream (hs.trans hl) hc', if_neg hears, Channel.backlog_eq_nil]
        exact ⟨hbuffer, hsending⟩

/-- The end of a room is on its way to those who hear it. -/
theorem Kept.pending_deleted (hk : h.Kept vs subs) (hnone : h.due n = []) {room : RoomId}
    (hr : h'.registry = (h.registry.delete room).2) (hs : h'.stream? n = h.stream? n) :
    h'.pending n = if (vs n).hears = some room then [Frame.roomClosed room.text] else [] := by
  cases hl : h.stream? n with
  | none =>
      rw [pending_of_no_stream (hs.trans hl), hk.hears_of_no_stream hl]
      simp
  | some l =>
      obtain ⟨c, hc, hbuffer, hsending, -⟩ := hk.channel_of_nothing_due hnone hl
      obtain ⟨-, -, -, -, hchannel⟩ := Registry.delete_spec hk.proper room
      rw [← hr] at hchannel
      have hheard := hk.lists_iff_hears hl room
      by_cases hears : (vs n).hears = some room
      · have hlists := hheard.2 hears
        have hc' : h'.registry.channel? l.id = some c.dropSender := by
          rw [hchannel, if_pos hlists, hc]
          rfl
        rw [pending_of_stream (hs.trans hl) hc', if_pos hears, ← hk.room_of_lists hl hlists]
        simp [Channel.backlog, Channel.dropSender, hbuffer]
      · have hlists : ¬ h.registry.lists room l.id = true := fun hlists => hears (hheard.1 hlists)
        have hc' : h'.registry.channel? l.id = some c := by
          rw [hchannel, if_neg hlists, hc]
        rw [pending_of_stream (hs.trans hl) hc', if_neg hears, Channel.backlog_eq_nil]
        exact ⟨hbuffer, hsending⟩

/-- A connection that joins a room has nothing coming yet, and nobody gets anything by it. -/
theorem Kept.pending_joined (hk : h.Kept vs subs) {room : RoomId} {p : Presence}
    (hr : h'.registry = ((h.registry.release (h.stream? name)).openListener room).2)
    (hp : ∀ n, h'.presence? n = if n = name then some p else h.presence? n)
    (hstream : p.stream = some ⟨⟨h.registry.next⟩, room⟩) (n : Label) :
    h'.pending n = if n = name then [] else h.pending n := by
  obtain ⟨hspared, -⟩ := spared_release hk.proper (h.stream? name)
  obtain ⟨-, -, -, -, -, hchannel⟩ := Registry.openListener_spec hspared.proper room
  rw [← hr, next_release] at hchannel
  split
  case isTrue hn =>
    have hs : h'.stream? n = some ⟨⟨h.registry.next⟩, room⟩ := by
      rw [stream?_eq, hp, if_pos hn]
      exact hstream
    rw [pending_of_stream hs (by rw [hchannel, if_pos rfl]), Channel.backlog_eq_nil]
    exact ⟨rfl, rfl⟩
  case isFalse hn =>
    refine pending_congr (stream?_congr (by rw [hp, if_neg hn])) fun l hl => ?_
    rw [hchannel, if_neg (hk.ne_next hl),
      hspared.channel l.id (hk.not_isStream hl hn) (hk.below_stream hl)]

theorem Kept.pending_quits {d : Deed} {p : Presence} (hk : h.Kept vs subs)
    (hq : Quits h vs name d p h')
    (hspared : h.registry.Spared (h.IsStream name) h'.registry)
    (n : Label) : h'.pending n = if n = name then [] else h.pending n := by
  split
  case isTrue hn =>
    refine pending_of_no_stream ?_
    rw [stream?_eq, hq.presence, if_pos hn]
    exact hq.stream
  case isFalse hn =>
    exact hk.pending_other hspared hn (stream?_congr (by rw [hq.presence, if_neg hn]))

/-- Where nobody is due anything nobody has been sent anything by a change. -/
theorem Kept.shown_change (hk : h.Kept vs subs) {ds : List Deed} (hnone : ∀ n, h.due n = [])
    (hc : Change h vs ds opened h') (n : Label) : h'.shown n = [] := by
  have hshown : ∀ n, h.shown n = [] := fun n => (due_eq_nil.1 (hnone n)).1
  have hquits : ∀ {name d p}, Quits h vs name d p h' → h'.shown n = [] := by
    intro name d p hq
    by_cases hn : n = name
    · rcases hq.kept with hkept | hkept
      · rw [hn, hkept, hshown]
      · rw [hn, hkept]
    · rw [hq.shown n hn, hshown]
  cases hc with
  | still registry rest same silent => rw [rest.shown, hshown]
  | said registry rest same line kept => rw [rest.shown, hshown]
  | deleted registry rest same line gone => rw [rest.shown, hshown]
  | listened registry presence shown handles => rw [shown, hshown]
  | joined can old alive registry presence shown handles => rw [shown, hshown]
  | quit quits registry => exact hquits quits
  | barred quits cannot registry => exact hquits quits
  | identified old alive registry presence shown handles => rw [shown, hshown]
  | @forwarded name l c _ stream channel sending registry presence shown handles =>
      obtain ⟨c', hc', hbuffer, -⟩ := hk.channel_of_nothing_due (hnone name) stream
      obtain rfl := Option.some.inj (channel.symm.trans hc')
      rw [shown, hshown, hbuffer]
      simp
  | @ended name l c p _ old stream channel ended registry presence shown handles =>
      obtain ⟨c', hc', -, hsending, -⟩ := hk.channel_of_nothing_due (hnone name) stream
      obtain rfl := Option.some.inj (channel.symm.trans hc')
      rw [ended] at hsending
      simp at hsending
  | dismissed nobody registry rest => rw [rest.shown, hshown]

/-- Where nobody is due anything a change makes due what its deed gives to hear. -/
theorem Kept.due_change (hk : h.Kept vs subs) {ds : List Deed} (hnone : ∀ n, h.due n = [])
    (hc : Change h vs ds opened h') (n : Label) : h'.due n = vs.heard n ds := by
  rw [due, hk.shown_change hnone hc n, List.nil_append]
  have hpending : ∀ n, h.pending n = [] := fun n => (due_eq_nil.1 (hnone n)).2
  have hquiet : ∀ {opened}, Change h vs [] opened h' → h'.pending n = [] := fun hc =>
    hk.pending_quiet hc (hpending n)
  cases hc with
  | still registry rest same silent =>
      rw [silent]
      exact hquiet (.still registry rest rfl fun _ => rfl)
  | @said d room line' _ registry rest same line kept =>
      rw [hk.pending_said (hnone n) registry (stream?_congr (rest.presence n)), Visitors.heard,
        Visitors.heard_nil, List.append_nil, Deed.heardBy, line, kept]
      cases (vs n).hears with
      | none => rfl
      | some r =>
          by_cases hroom : room = r
          · simp [hroom, Option.filter]
          · simp [hroom, Ne.symm hroom, Option.filter]
  | @deleted d room _ registry rest same line gone =>
      rw [hk.pending_deleted (hnone n) registry (stream?_congr (rest.presence n)), Visitors.heard,
        Visitors.heard_nil, List.append_nil, Deed.heardBy, line, gone]
      cases (vs n).hears with
      | none => rfl
      | some r =>
          by_cases hroom : room = r
          · simp [hroom]
          · simp [hroom, Ne.symm hroom]
  | @joined name room request p _ can old alive registry presence shown handles =>
      have hsilent : (Deed.answered name request (.joined room)).heardBy vs n = [] :=
        heardBy_of_silent (by cases request <;> rfl) rfl n
      rw [hk.pending_joined registry presence rfl n, hpending, ite_self, Visitors.heard, hsilent]
      rfl
  | @quit name d p _ quits registry =>
      obtain ⟨hspared, -⟩ := spared_release hk.proper (h.stream? name)
      rw [← registry] at hspared
      rw [hk.pending_quits quits hspared n, hpending, ite_self, Visitors.heard, quits.silent]
      rfl
  | @barred name d p _ quits cannot registry =>
      have hno : h'.stream? n = none := by
        by_cases hn : n = name
        · rw [stream?_eq, quits.presence, if_pos hn]
          exact quits.stream
        · have hs : h'.stream? n = h.stream? n :=
            stream?_congr (by rw [quits.presence, if_neg hn])
          exact hs.trans (hk.stream_eq_none (.inl cannot) n)
      rw [pending_of_no_stream hno, Visitors.heard, quits.silent]
      rfl
  | @identified name user request p _ old alive registry presence shown handles =>
      have hs : h'.stream? n = h.stream? n := by
        rw [stream?_eq, stream?_eq, presence]
        by_cases hn : n = name
        · rw [if_pos hn, hn, old]
          rfl
        · rw [if_neg hn]
      have hsilent : (Deed.answered name request (.identified user)).heardBy vs n = [] :=
        heardBy_of_silent (by cases request <;> rfl) rfl n
      rw [pending_congr hs (fun l _ => by rw [registry]), hpending, Visitors.heard, hsilent]
      rfl
  | listened registry presence shown handles =>
      exact hquiet (.listened registry presence shown handles)
  | forwarded stream channel sending registry presence shown handles =>
      exact hquiet (.forwarded stream channel sending registry presence shown handles)
  | ended old stream channel ended registry presence shown handles =>
      exact hquiet (.ended old stream channel ended registry presence shown handles)
  | dismissed nobody registry rest => exact hquiet (.dismissed nobody registry rest)

end Hub

end ChatServer
