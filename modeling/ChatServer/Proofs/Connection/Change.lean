import ChatServer.Proofs.Connection.Kept

/-!
What a piece of work can do to the connections and their listeners, said once for all pieces: a
change is of one of a dozen kinds, each told by the lists of the rooms, by what the connections are
afterwards and by the frames of their streams. Whatever is to be kept by a run has to be kept by
these kinds of change only.
-/

namespace ChatServer.Hub

/-- The identities of the listeners that the user of the server can still do something with. -/
def Handled (h : Hub) (id : ListenerId) : Prop := ∃ l, h.Handles l ∧ l.id = id

/-- Frames of its streams that a connection has been sent and that have not been collected. -/
def shown (h : Hub) (name : Label) : List Frame :=
  ((h.connections.get? name).map fun c => c.outbox.filter Frame.isStream).getD []

/-- Connections are as they were, but for their inboxes and for answers that they have been sent. -/
structure Undisturbed (h h' : Hub) : Prop where
  presence : ∀ name, h'.presence? name = h.presence? name
  shown : ∀ name, h'.shown name = h.shown name
  handles : ∀ l, h'.Handles l → h.Handles l

/-- A connection is replaced by one without a listener, or that can be taken for it. -/
structure Quits (h : Hub) (vs : Visitors) (name : Label) (d : Deed) (p : Presence) (h' : Hub) :
    Prop where
  presence : ∀ n, h'.presence? n = if n = name then some p else h.presence? n
  stream : p.stream = none
  shown : ∀ n, n ≠ name → h'.shown n = h.shown n
  kept : h'.shown name = h.shown name ∨ h'.shown name = []
  handles : ∀ l, h'.Handles l → h.Handles l
  others : ∀ n, n ≠ name → vs.after d n = vs n
  deaf : (vs.after d name).hears = none
  session : p.alive = true → p.session = (vs.after d name).session
  silent : ∀ n, d.heardBy vs n = []

/-- All that a piece of work can do. -/
inductive Change (h : Hub) (vs : Visitors) : List Deed → List Subscription → Hub → Prop
  | still {ds : List Deed} {h' : Hub} (registry : h.registry.Spared h.Handled h'.registry)
      (rest : Undisturbed h h') (same : vs.afterAll ds = vs)
      (silent : ∀ n, vs.heard n ds = []) : Change h vs ds [] h'
  | said {d : Deed} {room : RoomId} {line : Payload} {h' : Hub}
      (registry : h'.registry = h.registry.publish room line) (rest : Undisturbed h h')
      (same : vs.after d = vs) (line : d.line? vs = some (room, line))
      (kept : d.deleted? = none) : Change h vs [d] [] h'
  | deleted {d : Deed} {room : RoomId} {h' : Hub}
      (registry : h'.registry = (h.registry.delete room).2) (rest : Undisturbed h h')
      (same : vs.meet d = vs) (line : d.line? vs = none) (gone : d.deleted? = some room) :
      Change h vs [d] [] h'
  | listened {room : RoomId} {h' : Hub}
      (registry : (h.registry.openListener room).2.Spared h.Handled h'.registry)
      (presence : ∀ n, h'.presence? n = h.presence? n) (shown : ∀ n, h'.shown n = h.shown n)
      (handles : ∀ l, h'.Handles l → h.Handles l ∨ l = ⟨⟨h.registry.next⟩, room⟩) :
      Change h vs [] [⟨none, ⟨⟨h.registry.next⟩, room⟩⟩] h'
  | joined {name : Label} {room : String} {request : Request} {p : Presence} {h' : Hub}
      (can : h.registry.canOpen = true) (old : h.presence? name = some p)
      (alive : p.alive = true)
      (registry : h'.registry =
        ((h.registry.release (h.stream? name)).openListener ⟨room⟩).2)
      (presence : ∀ n, h'.presence? n = if n = name then
        some ⟨{ p.session with joined := some ⟨room⟩ }, some ⟨⟨h.registry.next⟩, ⟨room⟩⟩, true⟩
          else h.presence? n)
      (shown : ∀ n, h'.shown n = h.shown n) (handles : ∀ l, h'.Handles l → h.Handles l) :
      Change h vs [.answered name request (.joined room)]
        [⟨some name, ⟨⟨h.registry.next⟩, ⟨room⟩⟩⟩] h'
  | quit {name : Label} {d : Deed} {p : Presence} {h' : Hub} (quits : Quits h vs name d p h')
      (registry : h'.registry = h.registry.release (h.stream? name)) : Change h vs [d] [] h'
  /-- No listener can be opened at all, and a connection that asked for one ends. -/
  | barred {name : Label} {d : Deed} {p : Presence} {h' : Hub} (quits : Quits h vs name d p h')
      (cannot : h.registry.canOpen = false)
      (registry : h'.registry = h.registry.closeAll) : Change h vs [d] [] h'
  | identified {name : Label} {user : String} {request : Request} {p : Presence} {h' : Hub}
      (old : h.presence? name = some p) (alive : p.alive = true)
      (registry : h'.registry = h.registry)
      (presence : ∀ n, h'.presence? n = if n = name then
        some { p with session := { p.session with user := some ⟨user⟩ } } else h.presence? n)
      (shown : ∀ n, h'.shown n = h.shown n) (handles : ∀ l, h'.Handles l → h.Handles l) :
      Change h vs [.answered name request (.identified user)] [] h'
  | forwarded {name : Label} {l : Listener} {c : Channel Payload} {h' : Hub}
      (stream : h.stream? name = some l) (channel : h.registry.channel? l.id = some c)
      (sending : c.sending = true)
      (registry : h'.registry = { h.registry with
        channels := h.registry.channels.put l.id.channel { c with buffer := [] } })
      (presence : ∀ n, h'.presence? n = h.presence? n)
      (shown : ∀ n, h'.shown n = h.shown n ++
        if n = name then c.buffer.map (Frame.message l.room.text) else [])
      (handles : ∀ l, h'.Handles l → h.Handles l) : Change h vs [] [] h'
  | ended {name : Label} {l : Listener} {c : Channel Payload} {p : Presence} {h' : Hub}
      (old : h.presence? name = some p) (stream : h.stream? name = some l)
      (channel : h.registry.channel? l.id = some c) (ended : c.sending = false)
      (registry : h.registry.Spared (· = l.id) h'.registry)
      (presence : ∀ n, h'.presence? n = if n = name then some { p with stream := none }
        else h.presence? n)
      (shown : ∀ n, h'.shown n = h.shown n ++ if n = name then
        c.buffer.map (Frame.message l.room.text) ++ [Frame.roomClosed l.room.text] else [])
      (handles : ∀ l, h'.Handles l → h.Handles l) : Change h vs [] [] h'
  | dismissed {h' : Hub} (nobody : h.registry.canOpen = false ∨
        ∀ n p, h.presence? n = some p → p.alive = false)
      (registry : h'.registry = h.registry.closeAll) (rest : Undisturbed h h') :
      Change h vs [] [] h'

/-! ### What every change keeps -/

theorem presence?_put (h : Hub) (name : Label) (c : Connection) (n : Label) :
    (h.putConnection name c).presence? n =
      if n = name then some c.presence else h.presence? n := by
  simp only [presence?, putConnection, Table.get?_put]
  split <;> rfl

theorem next_release (r : Registry) (l : Option Listener) : (r.release l).next = r.next := by
  cases l with
  | none => rfl
  | some l =>
      simp only [Registry.release, Registry.closeListener]
      split <;> rfl

theorem capacity_release (r : Registry) (l : Option Listener) :
    (r.release l).capacity = r.capacity := by
  cases l with
  | none => rfl
  | some l =>
      simp only [Registry.release, Registry.closeListener]
      split <;> rfl

/-- Giving a listener up changes nothing about whether one can be opened. -/
theorem canOpen_release (r : Registry) (l : Option Listener) :
    (r.release l).canOpen = r.canOpen := by
  rw [Registry.canOpen, Registry.canOpen, capacity_release]

variable {h h' : Hub} {vs : Visitors} {subs : List Subscription}

theorem Kept.own_of_handled (hk : h.Kept vs subs) {id : ListenerId} (hid : h.Handled id) :
    Own subs id := by
  obtain ⟨l, hl, rfl⟩ := hid
  exact ⟨l, hk.handled l hl, rfl⟩

/-- Where no listener can be opened, or nobody is there, no connection has one. -/
theorem Kept.stream_eq_none (hk : h.Kept vs subs)
    (hnobody : h.registry.canOpen = false ∨ ∀ n p, h.presence? n = some p → p.alive = false)
    (name : Label) : h.stream? name = none := by
  cases hl : h.stream? name with
  | none => rfl
  | some l =>
      rcases hnobody with hcannot | hdead
      · rw [(hk.streams name l hl).2.1] at hcannot
        simp at hcannot
      · rw [stream?_eq] at hl
        obtain ⟨p, hp, hl⟩ := Option.bind_eq_some_iff.1 hl
        rw [hk.live name p hp (hdead name p hp)] at hl
        simp at hl

/-- Closing all rooms is then the business of the user of the server. -/
theorem Kept.spared_closeAll (hk : h.Kept vs subs)
    (hnobody : h.registry.canOpen = false ∨ ∀ n p, h.presence? n = some p → p.alive = false) :
    h.registry.Spared (Own subs) h.registry.closeAll := by
  refine Registry.spared_closeAll hk.proper fun room id hid => ?_
  rcases hk.listed room id hid with hown | ⟨name, hl⟩
  · exact hown
  · rw [hk.stream_eq_none hnobody name] at hl
    simp at hl

/-- Rooms from which a connection has taken its listener, whatever it was. -/
theorem Kept.released (hk : h.Kept vs subs) {name : Label} {p : Presence}
    (hold : h.presence? name = some p)
    (hr : h'.registry = h.registry.release (h.stream? name))
    (hp : ∀ n, h'.presence? n = if n = name then some { p with stream := none }
      else h.presence? n)
    (hh : ∀ l, h'.Handles l → h.Handles l) :
    h'.Kept (fun n => if n = name then { vs n with hears := none } else vs n) subs := by
  obtain ⟨hspared, hgone⟩ := spared_release hk.proper (h.stream? name)
  rw [← hr] at hspared hgone
  refine hk.leave hspared hgone hp (fun q hq => by rw [← Option.some.inj hq])
    (fun l hl => hk.handled l (hh l hl)) (fun n hn => if_neg hn) (by simp) fun q hq ha => ?_
  rw [← Option.some.inj hq] at ha ⊢
  simpa [Visitor.session] using hk.faithful name p hold ha

/-- What an answer makes of the visitors, if it tells of no deletion. -/
theorem after_answered {name : Label} {request : Request} {reply : Frame}
    (hkept : Deed.deleted? (.answered name request reply) = none) (n : Label) :
    vs.after (.answered name request reply) n =
      if n = name then (vs n).told reply else vs n := by
  rw [Visitors.after, hkept]
  rfl

/-- A connection that joins a room gives up its old listener first. -/
theorem Kept.joined (hk : h.Kept vs subs) {name : Label} {room : String} {request : Request}
    {p : Presence} (hcan : h.registry.canOpen = true) (hold : h.presence? name = some p)
    (halive : p.alive = true)
    (hr : h'.registry = ((h.registry.release (h.stream? name)).openListener ⟨room⟩).2)
    (hp : ∀ n, h'.presence? n = if n = name then
      some ⟨{ p.session with joined := some ⟨room⟩ }, some ⟨⟨h.registry.next⟩, ⟨room⟩⟩, true⟩
        else h.presence? n)
    (hh : ∀ l, h'.Handles l → ⟨none, l⟩ ∈ subs) :
    h'.Kept (vs.after (.answered name request (.joined room)))
      (subs ++ [⟨some name, ⟨⟨h.registry.next⟩, ⟨room⟩⟩⟩]) := by
  obtain ⟨c, hc, rfl⟩ := Option.map_eq_some_iff.1 hold
  let h₁ := ({ h with registry := h.registry.release (h.stream? name) } : Hub).putConnection name
    { c with stream := none }
  have hp₁ : ∀ n, h₁.presence? n =
      if n = name then some { c.presence with stream := none } else h.presence? n :=
    presence?_put { h with registry := h.registry.release (h.stream? name) } name _
  have hbetween := hk.released hold rfl hp₁ fun l hl => hl
  have hnone : h₁.stream? name = none := by
    rw [stream?_eq, hp₁, if_pos rfl]
    rfl
  have hnext : h₁.registry.next = h.registry.next := next_release h.registry _
  have hcan₁ : h₁.registry.canOpen = true := by
    have hcapacity : h₁.registry.capacity = h.registry.capacity := capacity_release h.registry _
    rwa [Registry.canOpen, hcapacity]
  have hafter : ∀ n, vs.after (.answered name request (.joined room)) n =
      if n = name then (vs n).told (.joined room) else vs n := after_answered rfl
  have hsession := hk.faithful name _ hold halive
  rw [← hnext] at hp ⊢
  refine hbetween.join (p := ⟨{ c.presence.session with joined := some ⟨room⟩ },
      some ⟨⟨h₁.registry.next⟩, ⟨room⟩⟩, true⟩) hnone hcan₁ hr (fun n => ?_) rfl rfl hh
    (fun n hn => ?_) ?_ ?_
  · rw [hp, hp₁]
    by_cases hn : n = name <;> simp [hn]
  · rw [hafter, if_neg hn, if_neg hn]
  · rw [hafter, if_pos rfl]
    rfl
  · rw [hafter, if_pos rfl, hsession]
    rfl

theorem Kept.quits {name : Label} {d : Deed} {p : Presence} (hk : h.Kept vs subs)
    (hq : Quits h vs name d p h')
    (hspared : h.registry.Spared (h.IsStream name) h'.registry)
    (hgone : ∀ l, h.stream? name = some l → h'.registry.lists l.room l.id = false) :
    h'.Kept (vs.after d) subs :=
  hk.leave hspared hgone hq.presence (fun q heq => by rw [← Option.some.inj heq, hq.stream])
    (fun l hl => hk.handled l (hq.handles l hl)) hq.others hq.deaf
    fun q heq ha => by
      rw [← Option.some.inj heq] at ha ⊢
      exact hq.session ha

/-- Every change keeps the invariant, the visitors and the subscriptions being those after it. -/
theorem Kept.change {ds : List Deed} {opened : List Subscription} (hk : h.Kept vs subs)
    (hc : Change h vs ds opened h') : h'.Kept (vs.afterAll ds) (subs ++ opened) := by
  have hown : ∀ id, h.Handled id → Own subs id := fun _ => hk.own_of_handled
  cases hc with
  | still registry rest same silent =>
      rw [same, List.append_nil]
      exact hk.spared (registry.mono hown) rest.presence
        fun l hl => hk.handled l (rest.handles l hl)
  | said registry rest same line kept =>
      rw [Visitors.afterAll_cons, Visitors.afterAll_nil, same, List.append_nil]
      exact hk.publish registry rest.presence fun l hl => hk.handled l (rest.handles l hl)
  | @deleted d room _ registry rest same line gone =>
      have hafter : vs.after d = fun n => (vs n).without room := by
        funext n
        rw [Visitors.after, gone, same]
      rw [Visitors.afterAll_cons, Visitors.afterAll_nil, hafter, List.append_nil]
      exact hk.delete registry rest.presence fun l hl => hk.handled l (rest.handles l hl)
  | @listened room _ registry presence shown handles =>
      have hopen : ({ h with registry := (h.registry.openListener room).2 } : Hub).Kept vs
          (subs ++ [⟨none, ⟨⟨h.registry.next⟩, room⟩⟩]) :=
        hk.listen rfl (fun _ => rfl) hk.handled
      refine hopen.spared (registry.mono fun id hid => ?_) presence fun l hl => ?_
      · obtain ⟨l, hl, heq⟩ := hown id hid
        exact ⟨l, List.mem_append_left _ hl, heq⟩
      · rcases handles l hl with hl | rfl
        · exact List.mem_append_left _ (hk.handled l hl)
        · exact List.mem_append_right _ (List.mem_singleton.2 rfl)
  | joined can old alive registry presence shown handles =>
      rw [Visitors.afterAll_cons, Visitors.afterAll_nil]
      exact hk.joined can old alive registry presence fun l hl => hk.handled l (handles l hl)
  | @quit name d p _ quits registry =>
      obtain ⟨hspared, hgone⟩ := spared_release hk.proper (h.stream? name)
      rw [← registry] at hspared hgone
      rw [List.append_nil, Visitors.afterAll_cons, Visitors.afterAll_nil]
      exact hk.quits quits hspared hgone
  | @barred name d p _ quits cannot registry =>
      have hclosed : ({ h with registry := h.registry.closeAll } : Hub).Kept vs subs :=
        hk.spared (hk.spared_closeAll (.inl cannot)) (fun _ => rfl) hk.handled
      have hnone : ({ h with registry := h.registry.closeAll } : Hub).stream? name = none :=
        hk.stream_eq_none (.inl cannot) name
      rw [List.append_nil, Visitors.afterAll_cons, Visitors.afterAll_nil]
      refine hclosed.quits { quits with } ?_ fun l hl => ?_
      · rw [registry]
        exact Registry.Spared.refl hclosed.proper
      · rw [hnone] at hl
        simp at hl
  | @identified name user request p _ old alive registry presence shown handles =>
      have hafter : ∀ n, vs.after (.answered name request (.identified user)) n =
          if n = name then (vs n).told (.identified user) else vs n := after_answered rfl
      rw [List.append_nil, Visitors.afterAll_cons, Visitors.afterAll_nil]
      refine hk.identify old registry presence (fun l hl => hk.handled l (handles l hl))
        (fun n hn => by rw [hafter, if_neg hn]) (by rw [hafter, if_pos rfl]; rfl) ?_
      rw [hafter, if_pos rfl, hk.faithful name p old alive]
      rfl
  | forwarded stream channel sending registry presence shown handles =>
      rw [List.append_nil]
      exact hk.forward channel registry presence fun l hl => hk.handled l (handles l hl)
  | @ended name l c p _ old stream channel ended registry presence shown handles =>
      -- a channel whose sender is gone belongs to a listener that is not registered any more
      have hnot : h.registry.lists l.room l.id = false := by
        obtain ⟨-, -, c', hc', -, -, hsending⟩ := hk.streams name l stream
        rw [channel] at hc'
        rw [← hsending, ← Option.some.inj hc', ended]
      have hdeaf : (vs name).hears = none := by
        rw [hk.hears, stream]
        simp [Option.filter, hnot]
      have hgone : ∀ l', h.stream? name = some l' →
          h'.registry.lists l'.room l'.id = false := by
        intro l' hl'
        rw [stream] at hl'
        obtain rfl := Option.some.inj hl'
        cases hl : h'.registry.lists l.room l.id with
        | false => rfl
        | true => rw [← hnot, registry.fewer _ _ hl]
      rw [List.append_nil]
      refine hk.leave (registry.mono fun id hid => ⟨l, stream, hid.symm⟩) hgone presence
        (fun q hq => by rw [← Option.some.inj hq]) (fun l hl => hk.handled l (handles l hl))
        (fun _ _ => rfl) hdeaf fun q hq ha => ?_
      rw [← Option.some.inj hq] at ha ⊢
      exact hk.faithful name p old ha
  | dismissed nobody registry rest =>
      rw [List.append_nil]
      refine hk.spared ?_ rest.presence fun l hl => hk.handled l (rest.handles l hl)
      rw [registry]
      exact hk.spared_closeAll nobody

/-! ### Frames that are taken away -/

/-- Only a connection that has ended is forgotten. -/
theorem forget_cases (h : Hub) (name : Label) :
    (h.forget name).2 = h ∨ ∃ c, h.connections.get? name = some c ∧ c.alive = false ∧
      (h.forget name).2 = { h with connections := h.connections.erase name } := by
  unfold forget
  cases hc : h.connections.get? name with
  | none => exact .inl rfl
  | some c =>
      dsimp only
      split
      case isTrue => exact .inl rfl
      case isFalse ha =>
        exact .inr ⟨c, rfl, by simpa using ha, rfl⟩

theorem Kept.after_forget (hk : h.Kept vs subs) (name : Label) :
    (h.forget name).2.Kept vs subs := by
  rcases forget_cases h name with heq | ⟨c, hc, hdead, heq⟩
  · rw [heq]
    exact hk
  rw [heq]
  have hnone : h.stream? name = none := by
    have hstream : c.stream = none := hk.live name c.presence (by simp [presence?, hc]) hdead
    simp [stream?, hc, hstream]
  have hp : ∀ n, ({ h with connections := h.connections.erase name } : Hub).presence? n =
      if n = name then none else h.presence? n := by
    intro n
    simp only [presence?, Table.get?_erase]
    split <;> rfl
  refine hk.leave (Registry.Spared.refl hk.proper) (fun l hl => ?_) hp
    (fun q hq => by simp at hq) hk.handled (fun _ _ => rfl) ?_ fun q hq => by simp at hq
  · rw [hnone] at hl
    simp at hl
  · rw [hk.hears, hnone]
    rfl

/-- What is collected is sent no second time. -/
theorem get?_collect (h : Hub) (name : Label) :
    h.collect.2.connections.get? name =
      (h.connections.get? name).map Connection.emptied := by
  simp only [collect]
  by_cases hname : name ∈ h.connections.keys
  · obtain ⟨names, names', hkeys⟩ := List.append_of_mem hname
    have hnodup : h.connections.keys.Nodup := h.connections.nodup
    rw [hkeys, List.nodup_append, List.nodup_cons] at hnodup
    rw [hkeys, Table.get?_foldl_modify_of_once _ (fun hmem =>
      hnodup.2.2 name hmem name List.mem_cons_self rfl) hnodup.2.1.1]
  · rw [Table.get?_foldl_modify_of_not_mem _ hname]
    cases hc : h.connections.get? name with
    | none => rfl
    | some c => exact absurd (Table.mem_keys.2 ⟨c, hc⟩) hname

theorem presence?_collect (h : Hub) (name : Label) :
    h.collect.2.presence? name = h.presence? name := by
  rw [presence?, get?_collect, Option.map_map]
  rfl

theorem Kept.after_collect (hk : h.Kept vs subs) : h.collect.2.Kept vs subs :=
  hk.spared (Registry.Spared.refl hk.proper) (presence?_collect h) hk.handled

end ChatServer.Hub
