import ChatServer.Proofs.Connection.Orders
import ChatServer.Proofs.Hub.Steady

/-!
Pumps on a server with connections. Every listener has one owner, a connection, its holder or a
pump, so nobody gives up a listener that a pump runs for, and a pump that has ended leaves nobody
registered. After all background work every pump can only wait.
-/

namespace ChatServer

open Registry

theorem Registry.grown_obeyAll {r : Registry} (h : r.Proper) (os : List Order) :
    r.Grown (r.obeyAll os) :=
  ⟨(proper_obeyAll h os).sound, next_le_obeyAll r os⟩

theorem Registry.takes_releaseOrders {l : Option Listener} {o : Order} (ho : o ∈ releaseOrders l)
    {id : ListenerId} (htakes : o.takes id = true) : ∃ l', l = some l' ∧ l'.id = id := by
  cases l with
  | none => exact absurd ho List.not_mem_nil
  | some l' =>
      rcases List.mem_pair.1 ho with rfl | rfl
      · simp [Order.takes] at htakes
      · exact ⟨l', rfl, of_decide_eq_true htakes⟩

theorem Registry.takes_dropOrders {l : Option Listener} {o : Order} (ho : o ∈ dropOrders l)
    {id : ListenerId} (htakes : o.takes id = true) : ∃ l', l = some l' ∧ l'.id = id := by
  cases l with
  | none => exact absurd ho List.not_mem_nil
  | some l' =>
      obtain rfl := List.mem_singleton.1 ho
      exact ⟨l', rfl, of_decide_eq_true htakes⟩

/-- A connection gives up nothing but its own listener. -/
theorem Connection.stream_of_takes {c : Connection} {d : Deed} {o : Order} (ho : o ∈ c.orders d)
    {id : ListenerId} (htakes : o.takes id = true) : ∃ l, c.stream = some l ∧ l.id = id := by
  unfold orders at ho
  split at ho
  · exact takes_releaseOrders ho htakes
  · rcases List.mem_append.1 ho with ho | ho
    · exact takes_releaseOrders ho htakes
    · obtain rfl := List.mem_singleton.1 ho
      simp [Order.takes] at htakes
  · exact takes_releaseOrders ho htakes
  · obtain rfl := List.mem_singleton.1 ho
    simp [Order.takes] at htakes
  · obtain rfl := List.mem_singleton.1 ho
    simp [Order.takes] at htakes
  · obtain ⟨user, -, rfl⟩ := List.mem_map.1 ho
    simp [Order.takes] at htakes
  · exact absurd ho List.not_mem_nil

namespace Hub

variable {h g : Hub} {vs : Visitors} {subs : List Subscription} {o : Order} {id : ListenerId}

/-- The end of all rooms leaves what waits for their listeners. -/
theorem takes_ending {h' : Hub} (ho : o ∈ h.ending h') (id : ListenerId) : o.takes id = false := by
  unfold ending at ho
  split at ho
  · obtain rfl := List.mem_singleton.1 ho
    rfl
  · exact absurd ho List.not_mem_nil

/-- What takes something is among the orders that a piece of work gives by itself. -/
theorem mem_given_of_takes {p : Piece} (ho : o ∈ h.orders p) (htakes : o.takes id = true) :
    o ∈ h.given p := by
  refine (List.mem_append.1 ho).resolve_right fun hending => ?_
  rw [takes_ending hending id] at htakes
  simp at htakes

/-- Pieces of work that concern neither pumps nor what the user of the server holds take from
listeners of connections only, and give up no others. -/
theorem isStream_of_takes {p : Piece} (hp : p.isFront = false) (ho : o ∈ h.orders p)
    (htakes : o.takes id = true) : ∃ name, h.IsStream name id := by
  have hgiven := mem_given_of_takes ho htakes
  cases p with
  | react e =>
      cases e <;> first
        | exact absurd hgiven List.not_mem_nil
        | simp [Piece.isFront, Event.isFront] at hp
  | serve name =>
      obtain ⟨c, hc, hgiven⟩ := List.mem_flatMap.1 hgiven
      obtain ⟨d, -, hgiven⟩ := List.mem_flatMap.1 hgiven
      obtain ⟨l, hl, hid⟩ := Connection.stream_of_takes hgiven htakes
      exact ⟨name, l, by rw [stream?, Option.mem_toList.1 hc]; exact hl, hid⟩
  | forward name =>
      simp only [given, passed] at hgiven
      cases hl : h.stream? name with
      | none =>
          simp only [hl] at hgiven
          exact absurd hgiven List.not_mem_nil
      | some l =>
          simp only [hl] at hgiven
          refine ⟨name, l, hl, ?_⟩
          split at hgiven
          · exact absurd hgiven List.not_mem_nil
          · rcases List.mem_append.1 hgiven with hgiven | hgiven
            · rw [List.eq_of_mem_replicate hgiven] at htakes
              exact of_decide_eq_true htakes
            · split at hgiven
              · exact absurd hgiven List.not_mem_nil
              · rw [List.mem_singleton.1 hgiven] at htakes
                exact of_decide_eq_true htakes
  | pump name => simp [Piece.isFront] at hp
  | _ => exact absurd hgiven List.not_mem_nil

theorem orderly_piece (hk : h.Kept vs subs) (ho : h.Orderly) (p : Piece) : (h.piece p).Orderly := by
  cases hp : p.isFront with
  | false =>
      obtain ⟨wall, journal, managed, connections, heq⟩ := aside_piece (h := h) hp
      rw [heq]
      exact ho.of_registry (grown_obeyAll hk.proper _) rfl rfl
  | true =>
      cases p with
      | react e => exact orderly_react ho hp
      | pump name => exact (runPump_spec ho name).1
      | _ => simp [Piece.isFront] at hp

/-- Who is given up for a listener that is opened under a name. -/
theorem orders_listen {room : RoomId} {l : Listener} {g : Hub}
    (hopen : h.openListener room = (some l, g)) (name : Label) :
    ∃ rest, h.orders (.react (.listen name room)) = .listen room :: rest ∧
      ∀ o ∈ rest, ∀ id, o.takes id = true → ∃ l', h.held.get? name = some l' ∧ l'.id = id := by
  refine ⟨dropOrders (h.held.get? name) ++ h.ending (h.piece (.react (.listen name room))), ?_,
    fun o ho id htakes => ?_⟩
  · simp only [orders, given, asked, hopen]
    rfl
  · rcases List.mem_append.1 ho with ho | ho
    · exact takes_dropOrders ho htakes
    · rw [takes_ending ho id] at htakes
      simp at htakes

/-- Who is given up for a pump that is started under a name. -/
theorem pump_of_takes {name : Label} {capacity : Nat} {heading : String}
    (ho : o ∈ h.asked (.pump name capacity heading)) (htakes : o.takes id = true) :
    ∃ p, h.pumps.get? name = some p ∧ p.listener.id = id := by
  rw [asked] at ho
  split at ho
  · obtain ⟨l, hl, hid⟩ := takes_releaseOrders ho htakes
    obtain ⟨p, hp, rfl⟩ := Option.map_eq_some_iff.1 hl
    exact ⟨p, (Option.filter_eq_some_iff.1 hp).1, hid⟩
  · exact absurd ho List.not_mem_nil

/-- A listener that is opened is known and held, whoever is given up for it. -/
theorem known_listened (hproper : h.registry.Proper) (ho : h.Orderly) {room : RoomId}
    {l : Listener} {g : Hub} (hopen : h.openListener room = (some l, g)) (name : Label) :
    ∃ c, (h.react (.listen name room)).2.registry.Known l c ∧ c.receiving = true := by
  obtain ⟨hl, -⟩ := openListener_some hopen
  obtain ⟨hnew, hproper', -⟩ := openListener_spec hproper room
  obtain ⟨rest, hrest, hdrop⟩ := orders_listen hopen name
  have hknown := known_openListener hproper room
  rw [← hl] at hknown hnew
  -- nobody has had the new listener's number before
  have hnot : .drop l.id ∉ rest := fun hmem => by
    obtain ⟨l', hl', hid⟩ := hdrop _ hmem l.id (Order.takes_drop _)
    have hbelow := ho.heldBelow name l' hl'
    rw [hid, hnew] at hbelow
    exact Nat.lt_irrefl _ hbelow
  obtain ⟨⟨c, hc, hreceiving⟩, -⟩ := hknown.obeyAll hproper' rest
  refine ⟨c, ?_, hreceiving.2 ⟨rfl, hnot⟩⟩
  rw [registry_listen, hrest]
  exact hc

/-! ### Who holds what -/

/-- All listeners with which the user of the server can still do something are known; those that
it holds, and those of its running pumps, have not been given up. -/
structure Tidy (h : Hub) : Prop where
  known : ∀ l, h.Handles l → ∃ c, h.registry.Known l c
  held : ∀ name l, h.held.get? name = some l → h.registry.holds l.id = true
  pumps : ∀ name p, h.pumps.get? name = some p → p.Tidy h.registry

namespace Tidy

variable {os : List Order}

/-- Orders leave everything as it should be that give up nobody who is still needed. -/
theorem obey (ht : h.Tidy) (hproper : h.registry.Proper)
    (hr : g.registry = h.registry.obeyAll os)
    (hhandles : ∀ l, g.Handles l → h.Handles l ∨ ∃ c, g.registry.Known l c)
    (hheld : ∀ name l, g.held.get? name = some l →
      (h.held.get? name = some l ∧ .drop l.id ∉ os) ∨ g.registry.holds l.id = true)
    (hpumps : ∀ name p, g.pumps.get? name = some p →
      (h.pumps.get? name = some p ∧ .drop p.listener.id ∉ os) ∨ p.Tidy g.registry) :
    g.Tidy where
  known l hl := by
    rcases hhandles l hl with hl | hknown
    · obtain ⟨c, hc⟩ := ht.known l hl
      obtain ⟨⟨c', hc', -⟩, -⟩ := hc.obeyAll hproper os
      exact ⟨c', hr ▸ hc'⟩
    · exact hknown
  held name l hl := by
    rcases hheld name l hl with ⟨hl, hdrop⟩ | hholds
    · obtain ⟨c, hc⟩ := ht.known l (handles_held name l hl)
      rw [hr]
      exact (hc.holds_obeyAll hproper os).2 ⟨ht.held name l hl, hdrop⟩
    · exact hholds
  pumps name p hp := by
    rcases hpumps name p hp with ⟨hp, hdrop⟩ | htidy
    · obtain ⟨c, hc⟩ := ht.known _ (handles_pumped name p hp)
      rw [hr]
      exact (ht.pumps name p hp).obeyAll hc hproper hdrop
    · exact htidy

/-- What the user of the server holds is left alone altogether. -/
theorem still (ht : h.Tidy) (hproper : h.registry.Proper)
    (hr : g.registry = h.registry.obeyAll os)
    (hdrop : ∀ l, h.Handles l → .drop l.id ∉ os) (hopened : g.opened = h.opened)
    (hheld : g.held = h.held) (hpumps : g.pumps = h.pumps) : g.Tidy := by
  refine ht.obey hproper hr (fun l hl => .inl ?_) (fun name l hl => .inl ?_)
    fun name p hp => .inl ?_
  · rwa [Handles, hopened, hheld, hpumps] at hl
  · rw [hheld] at hl
    exact ⟨hl, hdrop l (handles_held name l hl)⟩
  · rw [hpumps] at hp
    exact ⟨hp, hdrop _ (handles_pumped name p hp)⟩

theorem aside (ht : h.Tidy) (hk : h.Kept vs subs) {p : Piece} (hp : p.isFront = false) :
    (h.piece p).Tidy := by
  obtain ⟨wall, journal, managed, connections, heq⟩ := aside_piece (h := h) hp
  refine ht.still hk.proper (by rw [heq]) (fun l hl hdrop => ?_) (by rw [heq]) (by rw [heq])
    (by rw [heq])
  obtain ⟨name, l', hl', hid⟩ := isStream_of_takes hp hdrop (Order.takes_drop _)
  exact hk.not_own hl' (hid ▸ hk.own_of_handled ⟨l, hl, rfl⟩)

/-- A listener is held no longer. -/
theorem unheld (ht : h.Tidy) (hproper : h.registry.Proper) (ho : h.Orderly) {name : Label}
    {l : Listener} (hl : h.held.get? name = some l) (os : List Order)
    (hdrop : ∀ id, .drop id ∈ os → id = l.id) :
    Tidy { h with registry := h.registry.obeyAll os, held := h.held.erase name } := by
  refine ht.obey hproper rfl (fun x hx => .inl ?_) (fun name' l' hl' => .inl ?_)
    fun name' p hp => .inl ⟨hp, fun hmem => ?_⟩
  · exact handles_of handles_opened
      (fun n l' hl' => handles_held n l' (Table.get?_of_erase hl')) handles_pumped hx
  · have hl'' : h.held.get? name' = some l' := Table.get?_of_erase hl'
    refine ⟨hl'', fun hmem => ?_⟩
    have hname := ho.heldApart name' name l' l hl'' hl (hdrop _ hmem)
    dsimp only at hl'
    rw [Table.get?_erase, if_pos hname] at hl'
    simp at hl'
  · exact ho.apart name name' l p hl hp (hdrop _ hmem).symm

/-- A pump is exchanged for one that differs in its sink or its signal. -/
theorem put_pump (ht : h.Tidy) (hproper : h.registry.Proper) {name : Label} {p q : Pump}
    (hp : h.pumps.get? name = some p) (hlistener : q.listener = p.listener)
    (hfinish : q.finish = p.finish) (hheld : q.held = p.held) (hbounded : q.sink.Bounded) :
    Tidy { h with pumps := h.pumps.put name q } := by
  have hq : q.Tidy h.registry := by
    refine ⟨fun hrunning => ?_, fun hended => ?_, hbounded⟩
    · rw [hlistener]
      exact (ht.pumps name p hp).holds (by rwa [Pump.running, ← hfinish])
    · rw [hlistener, hheld]
      exact (ht.pumps name p hp).ended (by rwa [Pump.running, ← hfinish])
  refine ht.obey hproper (show h.registry = h.registry.obeyAll [] from rfl)
    (fun x hx => .inl ?_) (fun _ _ hl => .inl ⟨hl, by simp⟩) fun name' p' hp' => ?_
  · exact handles_of handles_opened handles_held (handles_put_pump hp hlistener) hx
  · rcases Table.get?_of_put hp' with ⟨-, rfl⟩ | ⟨-, hp'⟩
    · exact .inr hq
    · exact .inl ⟨hp', by simp⟩

/-- Whoever is held under a name is given up for the listener that is opened under it. -/
theorem listen (ht : h.Tidy) (hproper : h.registry.Proper) (ho : h.Orderly) (name : Label)
    (room : RoomId) : (h.react (.listen name room)).2.Tidy := by
  have hr := registry_listen h name room
  rcases hopen : h.openListener room with ⟨_ | l, h'⟩
  · have hreact : (h.react (.listen name room)).2 = h' := by simp only [Hub.react, hopen]
    rw [hreact] at hr ⊢
    refine ht.still hproper hr (fun x _ hmem => ?_) ?_ ?_ ?_
    · have hgiven := mem_given_of_takes hmem (Order.takes_drop _)
      simp [given, asked, hopen] at hgiven
    all_goals rcases openListener_none hopen with rfl | rfl <;> rfl
  · obtain ⟨c, hc, hreceiving⟩ := known_listened hproper ho hopen name
    obtain ⟨rest, hrest, hdrop⟩ := orders_listen hopen name
    obtain ⟨-, rfl⟩ := openListener_some hopen
    obtain ⟨registry, held, hheld, hkept⟩ := dropHeld_eq
      { h with registry := (h.registry.openListener room).2 } name
    have hreact : (h.react (.listen name room)).2 =
        { h with registry, opened := h.opened.put name l, held := held.put name l } := by
      simp only [Hub.react, hopen, hheld]
    rw [hrest] at hr
    rw [hreact] at hr hc ⊢
    -- whoever is given up was held under the name
    have hgiven : ∀ id, .drop id ∈ Order.listen room :: rest →
        ∃ l', h.held.get? name = some l' ∧ l'.id = id :=
      fun id hmem =>
        hdrop _ ((List.mem_cons.1 hmem).resolve_left (by simp)) id (Order.takes_drop id)
    refine ht.obey hproper hr (fun x hx => ?_) (fun name' l' hl' => ?_)
      fun name' p hp => .inl ⟨hp, fun hmem => ?_⟩
    · rcases handles_listen hkept hx with hx | rfl
      · exact .inl hx
      · exact .inr ⟨c, hc⟩
    · rcases Table.get?_of_put hl' with ⟨-, rfl⟩ | ⟨hname, hl'⟩
      · exact .inr (hc.holds_eq.trans hreceiving)
      · refine .inl ⟨hkept name' l' hl', fun hmem => ?_⟩
        obtain ⟨l₀, hl₀, hid⟩ := hgiven _ hmem
        exact hname (ho.heldApart name' name l' l₀ (hkept name' l' hl') hl₀ hid.symm)
    · obtain ⟨l₀, hl₀, hid⟩ := hgiven _ hmem
      exact ho.apart name name' l₀ p hl₀ hp hid

/-- A held listener is handed over to a pump, in the place of any of that name. -/
theorem pump (ht : h.Tidy) (hproper : h.registry.Proper) (ho : h.Orderly) (name : Label)
    (capacity : Nat) (heading : String) :
    (h.react (.pump name capacity heading)).2.Tidy := by
  have hr := registry_pump h name capacity heading
  cases hl : h.held.get? name with
  | none =>
      have hsame : (h.react (.pump name capacity heading)).2 = h := by simp [Hub.react, hl]
      rwa [hsame]
  | some l =>
      cases hcapacity : Channel.isCapacity capacity with
      | false =>
          have hsame : (h.react (.pump name capacity heading)).2 = h := by
            simp [Hub.react, hl, hcapacity]
          rwa [hsame]
      | true =>
          obtain ⟨registry, pumps, hdropped, hpumps⟩ := dropPump_eq h name
          have hreact : (h.react (.pump name capacity heading)).2 = { h with
              registry
              held := h.held.erase name
              pumps := pumps.put name (Pump.new l heading capacity) } := by
            simp [Hub.react, hl, hcapacity, hdropped]
          rw [hreact] at hr ⊢
          obtain ⟨c, hc⟩ := ht.known l (handles_held name l hl)
          refine ht.obey hproper hr (fun x hx => .inl ?_)
            (fun name' l' hl' => .inl ⟨Table.get?_of_erase hl', fun hmem => ?_⟩)
            fun name' p hp => ?_
          · exact handles_of handles_opened
              (fun name' l' hl' => handles_held name' l' (Table.get?_of_erase hl'))
              (Table.forall_get?_put (handles_held name l hl)
                fun name' p hp => handles_pumped name' p (hpumps name' p hp)) hx
          · obtain ⟨p, hp, hid⟩ := pump_of_takes hmem (Order.takes_drop _)
            exact ho.apart name' name l' p (Table.get?_of_erase hl') hp hid.symm
          · rcases Table.get?_of_put hp with ⟨-, rfl⟩ | ⟨hname, hp⟩
            · rw [hr]
              refine .inr (Pump.tidy_new ((hc.holds_obeyAll hproper _).2
                ⟨ht.held name l hl, fun hmem => ?_⟩) heading hcapacity)
              obtain ⟨q, hq, hid⟩ := pump_of_takes hmem (Order.takes_drop _)
              exact ho.apart name name l q hl hq hid.symm
            · refine .inl ⟨hpumps name' p hp, fun hmem => ?_⟩
              obtain ⟨q, hq, hid⟩ := pump_of_takes hmem (Order.takes_drop _)
              exact hname (ho.pumpedApart name' name p q (hpumps name' p hp) hq hid.symm)

/-- Events of the front give up nobody who is still needed. -/
theorem react (ht : h.Tidy) (hproper : h.registry.Proper) (ho : h.Orderly) {e : Event}
    (he : e.isFront = true) : (h.react e).2.Tidy := by
  cases e with
  | listen name room => exact ht.listen hproper ho name room
  | pump name capacity heading => exact ht.pump hproper ho name capacity heading
  | listenAbandoned room =>
      refine ht.still hproper (registry_listenAbandoned h room) (fun l _ hmem => ?_) ?_ ?_ ?_
      · have hgiven := mem_given_of_takes hmem (Order.takes_drop _)
        simp only [given, asked] at hgiven
        split at hgiven <;> simp at hgiven
      all_goals
        simp only [Hub.react, openAbandoned]
        split
        · split <;> rfl
        · rfl
  | create room | submit sender room text | count room | roomExists room | pumpEnd name
  | shutdown =>
      have hr := (registry_asked (h := h) he (by simp) (by simp)).1
      exact ht.still hproper hr (fun l _ => by simp [asked]) rfl rfl rfl
  | delete room | close name room | receive name | tryReceive name =>
      have hr := (registry_asked (h := h) he (by simp) (by simp)).1
      refine ht.still hproper hr (fun l _ => by simp [asked]) ?_ ?_ ?_
      all_goals
        simp only [Hub.react, delete]
        split <;> rfl
  | closeHeld name =>
      simp only [Hub.react]
      cases hl : h.held.get? name with
      | none => exact ht
      | some l => exact ht.unheld hproper ho hl [.close l.room l.id, .drop l.id] (by simp)
  | drop name =>
      simp only [Hub.react, dropHeld]
      cases hl : h.held.get? name with
      | none => exact ht
      | some l => exact ht.unheld hproper ho hl [.drop l.id] (by simp)
  | sinkReceive name =>
      simp only [Hub.react]
      cases hp : (h.pumps.get? name).filter (·.sink.receiving) with
      | none => exact ht
      | some p =>
          dsimp only
          have hp' := (Option.filter_eq_some_iff.1 hp).1
          exact ht.put_pump hproper hp' rfl rfl rfl (ht.pumps name p hp').bounded.receive
  | sinkDrop name =>
      simp only [Hub.react, Table.modify]
      cases hp : h.pumps.get? name with
      | none => exact ht
      | some p =>
          exact ht.put_pump hproper hp rfl rfl rfl (ht.pumps name p hp).bounded.dropReceiver
  | cancel name =>
      simp only [Hub.react]
      cases hp : h.pumps.get? name with
      | none => exact ht
      | some p =>
          dsimp only
          split
          · exact ht
          · exact ht.put_pump hproper hp rfl rfl rfl (ht.pumps name p hp).bounded
  | _ => simp [Event.isFront] at he

theorem runPump (ht : h.Tidy) (hproper : h.registry.Proper) (ho : h.Orderly) (name : Label) :
    (h.runPump name).Tidy := by
  unfold Hub.runPump
  cases hp : h.pumps.get? name with
  | none => exact ht
  | some p =>
      obtain ⟨c, hc⟩ := ht.known _ (handles_pumped name p hp)
      have hlistener := (Pump.touched_run hproper.sound p).1
      have hdrop : ∀ id, .drop id ∈ p.orders h.registry → id = p.listener.id :=
        fun id hmem => Pump.listener_of_takes hproper.sound hmem (Order.takes_drop id)
      refine ht.obey hproper (Pump.registry_run p h.registry) (fun x hx => .inl ?_)
        (fun name' l hl => .inl ⟨hl, fun hmem => ?_⟩) fun name' q hq => ?_
      · exact handles_of handles_opened handles_held (handles_put_pump hp hlistener) hx
      · exact ho.apart name' name l p hl hp (hdrop _ hmem)
      · rcases Table.get?_of_put hq with ⟨-, rfl⟩ | ⟨hname, hq⟩
        · exact .inr (Pump.tidy_run (ht.pumps name p hp) hc hproper)
        · exact .inl ⟨hq, fun hmem => hname (ho.pumpedApart name' name q p hq hp (hdrop _ hmem))⟩

theorem piece (ht : h.Tidy) (hk : h.Kept vs subs) (ho : h.Orderly) (p : Piece) :
    (h.piece p).Tidy := by
  cases hp : p.isFront with
  | false => exact ht.aside hk hp
  | true =>
      cases p with
      | react e => exact ht.react hk.proper ho hp
      | pump name => exact ht.runPump hk.proper ho name
      | _ => simp [Piece.isFront] at hp

end Tidy

/-- All that is known of a server at any stage of its work. -/
structure InOrder (h : Hub) : Prop where
  kept : ∃ vs subs, h.Kept vs subs
  orderly : h.Orderly
  tidy : h.Tidy

theorem inOrder_new (tuning : Tuning) (outages : Outages) (gated : Bool) (wall : Instant) :
    (new tuning outages gated wall).InOrder where
  kept := ⟨_, _, kept_new tuning outages gated wall⟩
  orderly := by
    refine ⟨Registry.sound_new _, fun name l hl => ?_, fun name p hp => ?_,
      fun name name' l l' hl => ?_, fun name name' p p' hp => ?_, fun name name' l p hl => ?_⟩
    all_goals simp_all [new]
  tidy := by
    refine ⟨fun l hl => ?_, fun name l hl => ?_, fun name p hp => ?_⟩
    all_goals simp_all [new, Handles]

namespace InOrder

theorem piece (hi : h.InOrder) (p : Piece) : (h.piece p).InOrder := by
  obtain ⟨vs, subs, hk⟩ := hi.kept
  exact ⟨⟨_, _, hk.after_piece p⟩, orderly_piece hk hi.orderly p, hi.tidy.piece hk hi.orderly p⟩

theorem pieces (hi : h.InOrder) (ps : List Piece) : (h.pieces ps).InOrder :=
  pieces_invariant (fun _ p _ hg => hg.piece p) hi

end InOrder

/-! ### Pumps at rest -/

/-- A connection that passes on what has been published leaves all pumps alone. -/
theorem InOrder.resting_forward (hi : h.InOrder) (hr : h.Resting) (name : Label) :
    (h.forward name).Resting := by
  obtain ⟨vs, subs, hk⟩ := hi.kept
  obtain ⟨wall, journal, managed, connections, heq⟩ :=
    aside_piece (h := h) (p := .forward name) rfl
  intro name' p hp
  have hpumps : (h.forward name).pumps = h.pumps := by
    rw [show h.forward name = _ from heq]
  rw [hpumps] at hp
  refine Pump.rests_congr ?_ (hr name' p hp)
  -- the channel of a connection's listener is not that of a pump's
  have hother : ∀ l, h.stream? name = some l → p.listener.id.channel ≠ l.id.channel := by
    intro l hl hch
    refine hk.not_own hl (hk.own_of_handled ⟨p.listener, handles_pumped name' p hp, ?_⟩)
    exact ListenerId.channel_inj.1 hch
  cases passing_forward h name with
  | nothing eq idle => rw [eq]
  | @passed c l ch found stream channel sending eq =>
      have hne := hother l (by rw [stream?, found]; exact stream)
      rw [eq]
      simp [putConnection, channel?, hne]
  | @closed c l ch found stream channel ended eq =>
      have hne := hother l (by rw [stream?, found]; exact stream)
      rw [eq]
      simp [putConnection, channel?, dropReceiver, hne]

theorem InOrder.resting_forwards (hi : h.InOrder) (hr : h.Resting) (names : List Label) :
    (names.foldl forward h).Resting := by
  induction names generalizing h with
  | nil => exact hr
  | cons name names ih => exact ih (hi.piece (.forward name)) (hi.resting_forward hr name)

/-- After a round of background work every pump can only wait. -/
theorem InOrder.resting_round (hi : h.InOrder) : h.round.InOrder ∧ h.round.Resting := by
  have hserved : (h.connections.keys.foldl serveAll h).InOrder := by
    rw [← pieces_inboxesScript]
    exact hi.pieces _
  have hpumped : (h.connections.keys.foldl serveAll h).runPumps.InOrder := by
    rw [runPumps, ← pieces_map_pump]
    exact hserved.pieces _
  obtain ⟨-, hrests⟩ := orderly_runPumps hserved.orderly
  refine ⟨?_, hpumped.resting_forwards hrests _⟩
  rw [← pieces_roundScript]
  exact hi.pieces _

theorem InOrder.resting_rounds (hi : h.InOrder) (n : Nat) : (h.rounds (n + 1)).Resting := by
  induction n generalizing h with
  | zero =>
      rw [rounds]
      split <;> exact hi.resting_round.2
  | succ n ih =>
      rw [rounds]
      split
      · exact hi.resting_round.2
      · exact ih hi.resting_round.1

/-- Nobody handles commands any more once no pump runs, and pumps that have ended stay so. -/
theorem Resting.retire (hr : h.Resting) : h.retire.Resting := by
  unfold Hub.retire
  split
  case isTrue hretire =>
    simp only [Bool.and_eq_true, Bool.not_eq_true', attended, Bool.or_eq_false_iff,
      List.any_eq_false] at hretire
    intro name p hp
    have hended : p.running = false := by
      simpa using hretire.2.1.2 (name, p) (Table.mem_entries.2 hp)
    exact Pump.turn_eq_none_iff.2 (.inl hended)
  case isFalse => exact hr

theorem InOrder.resting_settle (hi : h.InOrder) : h.settle.Resting :=
  (hi.resting_rounds h.permits).retire

end Hub

end ChatServer
