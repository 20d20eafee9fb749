import ChatServer.Proofs.Connection.Change
import ChatServer.Proofs.Hub.React

/-!
What an event does to the connections and their listeners: each event is one of the changes. Most
concern the listeners of the user of the server only; one opens a connection.
-/

namespace ChatServer

theorem heardBy_of_silent {vs : Visitors} {d : Deed} (hline : d.line? vs = none)
    (hkept : d.deleted? = none) (name : Label) : d.heardBy vs name = [] := by
  unfold Deed.heardBy
  cases (vs name).hears <;> simp [hline, hkept]

namespace Hub

variable {h h' : Hub} {vs : Visitors} {subs : List Subscription}

/-! ### Parts of changes -/

/-- Where connections and listeners are left alone altogether. -/
theorem undisturbed_of_eq (hc : h'.connections = h.connections) (ho : h'.opened = h.opened)
    (hheld : h'.held = h.held) (hpumps : h'.pumps = h.pumps) : Undisturbed h h' := by
  refine ⟨fun name => ?_, fun name => ?_, fun l hl => ?_⟩
  · rw [presence?, presence?, hc]
  · rw [shown, shown, hc]
  · rwa [Handles, ho, hheld, hpumps] at hl

theorem shown_put (h : Hub) (name : Label) (c : Connection) (n : Label) :
    (h.putConnection name c).shown n =
      if n = name then c.outbox.filter Frame.isStream else h.shown n := by
  simp only [shown, putConnection, Table.get?_put]
  split <;> rfl

/-- A connection whose inbox has changed or that has been sent an answer. -/
theorem undisturbed_put {c c' : Connection} {name : Label} (hc : h.connections.get? name = some c)
    (hp : c'.presence = c.presence)
    (hshown : c'.outbox.filter Frame.isStream = c.outbox.filter Frame.isStream) :
    Undisturbed h (h.putConnection name c') := by
  refine ⟨fun n => ?_, fun n => ?_, fun l hl => hl⟩
  · rw [presence?_put]
    split
    case isTrue hn =>
      rw [hn, hp, presence?, hc]
      rfl
    case isFalse => rfl
  · rw [shown_put]
    split
    case isTrue hn =>
      rw [hn, hshown, shown, hc]
      rfl
    case isFalse => rfl

/-- A change that concerns no connection's listener and of which nothing is to be told. -/
theorem change_quiet (hr : h.registry.Spared h.Handled h'.registry) (hrest : Undisturbed h h') :
    Change h vs [] [] h' := .still hr hrest rfl fun _ => rfl

theorem change_of_journal (hk : h.Kept vs subs) (journal : Journal Task) :
    Change h vs [] [] { h with journal } :=
  change_quiet (Registry.Spared.refl hk.proper) (undisturbed_of_eq rfl rfl rfl rfl)

theorem handled_opened {name : Label} {l : Listener} (hl : h.opened.get? name = some l) :
    h.Handled l.id := ⟨l, .inl ⟨name, hl⟩, rfl⟩

theorem handled_held {name : Label} {l : Listener} (hl : h.held.get? name = some l) :
    h.Handled l.id := ⟨l, .inr (.inl ⟨name, hl⟩), rfl⟩

theorem handled_pumped {name : Label} {p : Pump} (hp : h.pumps.get? name = some p) :
    h.Handled p.listener.id := ⟨p.listener, .inr (.inr ⟨name, p, hp, rfl⟩), rfl⟩

/-- What the user of the server holds is exchanged for some of what it held. -/
theorem handles_of {opened held : Table Label Listener} {pumps : Table Label Pump}
    (ho : ∀ name l, opened.get? name = some l → h.Handles l)
    (hh : ∀ name l, held.get? name = some l → h.Handles l)
    (hp : ∀ name p, pumps.get? name = some p → h.Handles p.listener) {l : Listener}
    (hl : ({ h with opened, held, pumps } : Hub).Handles l) : h.Handles l := by
  rcases hl with ⟨name, hl⟩ | ⟨name, hl⟩ | ⟨name, p, hl, rfl⟩
  · exact ho name l hl
  · exact hh name l hl
  · exact hp name p hl

theorem handles_opened (name : Label) (l : Listener) (hl : h.opened.get? name = some l) :
    h.Handles l := .inl ⟨name, hl⟩

theorem handles_held (name : Label) (l : Listener) (hl : h.held.get? name = some l) :
    h.Handles l := .inr (.inl ⟨name, hl⟩)

theorem handles_pumped (name : Label) (p : Pump) (hp : h.pumps.get? name = some p) :
    h.Handles p.listener := .inr (.inr ⟨name, p, hp, rfl⟩)

theorem handles_put_pump {name : Label} {p q : Pump} (hp : h.pumps.get? name = some p)
    (hq : q.listener = p.listener) :
    ∀ name' p', (h.pumps.put name q).get? name' = some p' → h.Handles p'.listener :=
  Table.forall_get?_put (by rw [hq]; exact handles_pumped name p hp) handles_pumped

/-- A pump is exchanged for one of the same listener. -/
theorem change_put_pump (hk : h.Kept vs subs) {name : Label} {p q : Pump}
    (hp : h.pumps.get? name = some p) (hq : q.listener = p.listener) :
    Change h vs [] [] { h with pumps := h.pumps.put name q } :=
  change_quiet (Registry.Spared.refl hk.proper) ⟨fun _ => rfl, fun _ => rfl, fun _ =>
    handles_of handles_opened handles_held (handles_put_pump hp hq)⟩

/-! ### Events -/

theorem change_dropHeld (hk : h.Kept vs subs) (name : Label) :
    Change h vs [] [] (h.dropHeld name) := by
  unfold dropHeld
  cases hl : h.held.get? name with
  | none => exact change_of_journal hk h.journal
  | some l =>
      refine change_quiet (Registry.spared_dropReceiver hk.proper (handled_held hl))
        ⟨fun _ => rfl, fun _ => rfl, fun _ => handles_of handles_opened (fun name' l' hl' => ?_)
          handles_pumped⟩
      exact handles_held name' l' (Table.get?_of_erase hl')

/-- The user of the server gets hold of one listener. -/
theorem handles_listen {name : Label} {l : Listener} {registry : Registry}
    {held : Table Label Listener}
    (hheld : ∀ name' l', held.get? name' = some l' → h.held.get? name' = some l') {l' : Listener}
    (hl' : ({ h with
      registry, opened := h.opened.put name l, held := held.put name l } : Hub).Handles l') :
    h.Handles l' ∨ l' = l := by
  rcases hl' with ⟨name', hl'⟩ | ⟨name', hl'⟩ | ⟨name', p, hp, rfl⟩
  · rcases Table.get?_of_put hl' with ⟨-, rfl⟩ | ⟨-, hl'⟩
    · exact .inr rfl
    · exact .inl (handles_opened name' l' hl')
  · rcases Table.get?_of_put hl' with ⟨-, rfl⟩ | ⟨-, hl'⟩
    · exact .inr rfl
    · exact .inl (handles_held name' l' (hheld name' l' hl'))
  · exact .inl (handles_pumped name' p hp)

theorem change_listen (hk : h.Kept vs subs) (name : Label) (room : RoomId) :
    Change h vs [] (h.opens (.react (.listen name room))) (h.react (.listen name room)).2 := by
  simp only [opens, react]
  cases hm : h.managed with
  | false =>
      have hopen : h.openListener room = (none, h) := by simp [openListener, hm]
      rw [hopen]
      exact change_of_journal hk h.journal
  | true =>
      cases hcan : h.registry.canOpen with
      | false =>
          have hopen : h.openListener room = (none, h.dismiss) := by
            simp [openListener, hm, hcan]
          rw [hopen]
          exact .dismissed (.inl hcan) rfl (undisturbed_of_eq rfl rfl rfl rfl)
      | true =>
          obtain ⟨hlistener, hproper, -⟩ := Registry.openListener_spec hk.proper room
          have hopen : h.openListener room = (some ⟨⟨h.registry.next⟩, room⟩,
              { h with registry := (h.registry.openListener room).2 }) := by
            simp [openListener, hm, hcan, hlistener]
          rw [hopen]
          -- whoever was held under the name is given up without a word to its room
          simp only [dropHeld, Option.toList_some, List.map_cons, List.map_nil]
          cases hl : h.held.get? name with
          | none =>
              exact .listened (Registry.Spared.refl hproper) (fun _ => rfl) (fun _ => rfl)
                fun _ => handles_listen fun _ _ hl' => hl'
          | some l =>
              dsimp only
              exact .listened (Registry.spared_dropReceiver hproper (handled_held hl))
                (fun _ => rfl) (fun _ => rfl)
                fun _ => handles_listen fun _ _ hl' => Table.get?_of_erase hl'

/-- A held listener is handed over to a pump, in the place of any of that name. -/
theorem change_pump (hk : h.Kept vs subs) (name : Label) (capacity : Nat) (heading : String) :
    Change h vs [] [] (h.react (.pump name capacity heading)).2 := by
  have hsame : Change h vs [] [] h := change_of_journal hk h.journal
  simp only [react]
  cases hl : h.held.get? name with
  | none => exact hsame
  | some l =>
      dsimp only
      split
      · exact hsame
      · have hmine := handles_held name l hl
        have hheld : ∀ name' l', (h.held.erase name).get? name' = some l' → h.Handles l' :=
          fun name' l' hl' => handles_held name' l' (Table.get?_of_erase hl')
        have hpumps : ∀ pumps : Table Label Pump,
            (∀ name' p, pumps.get? name' = some p → h.Handles p.listener) →
            ∀ name' p, (pumps.put name (Pump.new l heading capacity)).get? name' = some p →
              h.Handles p.listener := fun _ => Table.forall_get?_put hmine
        unfold dropPump
        cases hp : h.pumps.get? name with
        | none =>
            exact change_quiet (Registry.Spared.refl hk.proper) ⟨fun _ => rfl, fun _ => rfl,
              fun _ => handles_of handles_opened hheld (hpumps h.pumps handles_pumped)⟩
        | some p =>
            have hstop : h.registry.Spared h.Handled
                (if p.running then p.stop h.registry .cancelled else (p, h.registry)).2 := by
              split
              · exact Pump.spared_stop hk.proper (handled_pumped hp) .cancelled
              · exact Registry.Spared.refl hk.proper
            exact change_quiet hstop ⟨fun _ => rfl, fun _ => rfl, fun _ =>
              handles_of handles_opened hheld (hpumps (h.pumps.erase name) fun name' p' hp' =>
                handles_pumped name' p' (Table.get?_of_erase hp'))⟩

/-! ### Connections that end -/

/-- What the end of a connection comes to. -/
theorem endConnection_eq (h : Hub) (name : Label) (c : Connection) :
    h.endConnection name c =
      ({ h with registry := h.registry.release c.stream } : Hub).putConnection name
        { c with
          session := { c.session with joined := none }, stream := none, inbox := [],
          alive := false } := by
  obtain ⟨session, stream, inbox, outbox, alive, closed⟩ := c
  cases stream <;> rfl

/-- Another connection without a listener is put in a connection's place. -/
theorem quits_put {g : Hub} {name : Label} {d : Deed} {v : Visitor} {c : Connection}
    (hg : ∀ n, n ≠ name → g.presence? n = h.presence? n)
    (hshown : ∀ n, n ≠ name → g.shown n = h.shown n) (hh : ∀ l, g.Handles l → h.Handles l)
    (hstream : c.stream = none)
    (hkept : c.outbox.filter Frame.isStream = h.shown name ∨ c.outbox.filter Frame.isStream = [])
    (hafter : ∀ n, vs.after d n = if n = name then v else vs n) (hdeaf : v.hears = none)
    (hsession : c.alive = true → c.session = v.session) (hline : d.line? vs = none)
    (hgone : d.deleted? = none) : Quits h vs name d c.presence (g.putConnection name c) where
  presence n := by
    rw [presence?_put]
    split
    case isTrue => rfl
    case isFalse hn =>
      exact hg n hn
  stream := hstream
  shown n hn := by
    rw [shown_put, if_neg hn]
    exact hshown n hn
  kept := by
    rw [shown_put, if_pos rfl]
    exact hkept
  handles l hl := hh l hl
  others n hn := by rw [hafter, if_neg hn]
  deaf := by
    rw [hafter, if_pos rfl]
    exact hdeaf
  session ha := by
    rw [hafter, if_pos rfl]
    exact hsession ha
  silent n := heardBy_of_silent hline hgone n

theorem change_connect (hk : h.Kept vs subs) (name : Label) (connection : String) :
    Change h vs (h.deeds (.react (.connect name connection))) []
      (h.react (.connect name connection)).2 := by
  rw [deeds, react]
  cases hserves : h.serves name with
  | true => exact change_of_journal hk h.journal
  | false =>
      -- a connection of the name that is no longer served has no listener left
      have hnone : h.stream? name = none := by
        cases hc : h.connections.get? name with
        | none => simp [stream?, hc]
        | some c =>
            have ha : c.alive = false := by simpa [serves, hc] using hserves
            have hquiet : c.stream = none :=
              hk.live name c.presence (by rw [presence?, hc]; rfl) ha
            simp [stream?, hc, hquiet]
      refine .quit (quits_put (fun _ _ => rfl) (fun _ _ => rfl) (fun _ hl => hl) rfl (.inr rfl)
        (fun _ => rfl) rfl (fun _ => rfl) rfl rfl) ?_
      rw [hnone]
      rfl

/-- Events of the log side do nothing that concerns a client. -/
theorem untold_of_logSide (h : Hub) {e : Event} (he : e.isLogSide = true) :
    h.deeds (.react e) = [] ∧ h.opens (.react e) = [] := by
  cases e <;> first | exact ⟨rfl, rfl⟩ | simp [Event.isLogSide] at he

theorem change_react (hk : h.Kept vs subs) (e : Event) :
    Change h vs (h.deeds (.react e)) (h.opens (.react e)) (h.piece (.react e)) := by
  have hsame : Change h vs [] [] h := change_of_journal hk h.journal
  have hproper := hk.proper
  cases hlog : e.isLogSide with
  | true =>
      obtain ⟨journal, heq⟩ := react_logSide (h := h) hlog
      obtain ⟨hdeeds, hopens⟩ := untold_of_logSide h hlog
      rw [hdeeds, hopens, piece, heq]
      exact change_of_journal hk journal
  | false =>
  cases e with
  | listen name room => exact change_listen hk name room
  | connect name connection => exact change_connect hk name connection
  | create room =>
      exact change_quiet (Registry.spared_create hproper room) (undisturbed_of_eq rfl rfl rfl rfl)
  | delete room =>
      simp only [piece, react, delete]
      split <;> exact .deleted rfl (undisturbed_of_eq rfl rfl rfl rfl) rfl rfl rfl
  | submit sender room text =>
      exact .said rfl (undisturbed_of_eq rfl rfl rfl rfl) rfl rfl rfl
  | listenAbandoned room =>
      simp only [piece, react, openAbandoned]
      split
      · split
        case isTrue =>
          exact change_quiet (Registry.spared_openAbandoned hproper room)
            (undisturbed_of_eq rfl rfl rfl rfl)
        case isFalse hcan =>
          exact .dismissed (.inl (by simpa using hcan)) rfl (undisturbed_of_eq rfl rfl rfl rfl)
      · exact hsame
  | close name room =>
      simp only [piece, react]
      cases hl : h.opened.get? name with
      | none => exact hsame
      | some l =>
          exact change_quiet (Registry.spared_closeListener hproper _ (handled_opened hl))
            (undisturbed_of_eq rfl rfl rfl rfl)
  | closeHeld name =>
      simp only [piece, react]
      cases hl : h.held.get? name with
      | none => exact hsame
      | some l =>
          dsimp only
          have hclose := Registry.spared_closeListener hproper l.room (handled_held hl)
          refine change_quiet
            (hclose.trans (Registry.spared_dropReceiver hclose.proper (handled_held hl)))
            ⟨fun _ => rfl, fun _ => rfl, fun _ => handles_of handles_opened (fun name' l' hl' => ?_)
              handles_pumped⟩
          exact handles_held name' l' (Table.get?_of_erase hl')
  | drop name => exact change_dropHeld hk name
  | receive name | tryReceive name =>
      simp only [piece, react]
      cases hl : h.held.get? name with
      | none => exact hsame
      | some l =>
          exact change_quiet (Registry.spared_receive hproper (handled_held hl))
            (undisturbed_of_eq rfl rfl rfl rfl)
  | pump name capacity heading => exact change_pump hk name capacity heading
  | sinkReceive name =>
      simp only [piece, react]
      cases hp : (h.pumps.get? name).filter (·.sink.receiving) with
      | none => exact hsame
      | some p =>
          exact change_put_pump hk (Option.filter_eq_some_iff.1 hp).1 rfl
  | sinkDrop name =>
      refine change_quiet (Registry.Spared.refl hproper) ⟨fun _ => rfl, fun _ => rfl, fun _ =>
        handles_of handles_opened handles_held fun name' p hp => ?_⟩
      simp only [Table.get?_modify] at hp
      split at hp
      · obtain ⟨q, hq, rfl⟩ := Option.map_eq_some_iff.1 hp
        exact handles_pumped _ q hq
      · exact handles_pumped name' p hp
  | cancel name =>
      simp only [piece, react]
      cases hp : h.pumps.get? name with
      | none => exact hsame
      | some p =>
          dsimp only
          split
          · exact hsame
          · exact change_put_pump hk hp rfl
  | count room | roomExists room | pumpEnd name | ignored name => exact hsame
  | shutdown =>
      exact change_quiet (Registry.Spared.refl hproper) (undisturbed_of_eq rfl rfl rfl rfl)
  | text name s | disconnect name =>
      simp only [piece, react]
      cases hc : h.connections.get? name with
      | none => exact hsame
      | some c =>
          exact change_quiet (Registry.Spared.refl hproper) (undisturbed_put hc rfl rfl)
  | _ => simp [Event.isLogSide] at hlog

end Hub

end ChatServer
