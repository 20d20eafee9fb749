import ChatServer.Proofs.Connection.Deserted
import ChatServer.Proofs.Connection.Vacant

/-!
What the holder of a listener has. Nobody else takes anything from it, at any stage of a run, so
what waits for it stays until it is read. Once a server has no rooms nothing more comes either: the
holder reads what is left, in order, and then finds the end of the stream.
-/

namespace ChatServer

open Registry

namespace Registry.Known

variable {r : Registry} {l : Listener} {c : Channel Payload}

/-- What waits for a listener stays in front of what comes until somebody takes it. -/
theorem prefix_waiting (hk : r.Known l c) (h : r.Proper) {os : List Order}
    (hos : ∀ o ∈ os, o.takes l.id = false) : r.waiting l.id <+: (r.obeyAll os).waiting l.id := by
  induction os generalizing r c with
  | nil => exact List.prefix_rfl
  | cons o os ih =>
      have hk' := hk.obey h o
      have hone : c.buffer <+: (o.treats (r.lists l.room l.id) l c).buffer := by
        have htakes := hos o List.mem_cons_self
        cases o with
        | publish room p =>
            simp only [Order.treats]
            split
            · rw [Channel.buffer_offer]
              split
              · exact List.prefix_append _ _
              · exact List.prefix_rfl
            · exact List.prefix_rfl
        | receive id | drop id =>
            have hid : id ≠ l.id := of_decide_eq_false htakes
            simp [Order.treats, hid]
        | _ =>
            simp only [Order.treats]
            split <;> exact List.prefix_rfl
      rw [hk.waiting_eq]
      refine hone.trans ?_
      rw [← hk'.waiting_eq]
      exact ih hk' (proper_obey h o) fun o' ho' => hos o' (List.mem_cons_of_mem o ho')

/-- Nothing comes to a listener that is on no list. -/
theorem waiting_obeyAll (hk : r.Known l c) (h : r.Proper) (hlists : r.lists l.room l.id = false)
    {os : List Order} (hos : ∀ o ∈ os, o.takes l.id = false) :
    (r.obeyAll os).waiting l.id = r.waiting l.id := by
  have hle := Nat.le_trans (List.suffix_append _ _).length_le
    (hk.taken_append_waiting h hlists os).length_le
  exact ((hk.prefix_waiting h hos).eq_of_length_le hle).symm

/-- The holder of a listener without a room takes what waits, or finds the end. -/
theorem receive_eq (hk : r.Known l c) (hreceiving : c.receiving = true)
    (hlists : r.lists l.room l.id = false) :
    (r.receive l.id).1 = ((r.waiting l.id).head?.map Received.item).getD .disconnected ∧
      (r.receive l.id).2.waiting l.id = (r.waiting l.id).tail := by
  have hsending : c.sending = false := by
    cases hs : c.sending with
    | false => rfl
    | true =>
        rw [hk.listed hreceiving hs] at hlists
        simp at hlists
  rw [hk.waiting_eq, waiting, channel?_receive, if_pos rfl, hk.channel, receive, hk.channel]
  simp only [Channel.receive, Option.map_some, Option.getD_some]
  cases hbuffer : c.buffer with
  | nil => simp [hsending, hbuffer]
  | cons p rest => simp

end Registry.Known

namespace Hub

variable {h : Hub} {p : Piece} {name : Label} {l : Listener}

/-- Whether an event takes what comes next from the listener held under a name. -/
def Event.reads (name : Label) : Event → Bool
  | .receive n | .tryReceive n => n = name
  | _ => false

/-- Whether an event does something to the listener held under a name. -/
def Event.uses (name : Label) : Event → Bool
  | .listen n _ | .closeHeld n | .drop n | .pump n _ _ => n = name
  | e => e.reads name

/-- What a read shows if this comes next, or nothing as the stream has ended. -/
def Event.shows (next : Option Payload) : Event → Answer
  | .tryReceive _ => .received ((next.map Received.item).getD .disconnected)
  | _ => .payload next

/-- Reading is done without the server. -/
theorem refuses_of_reads {e : Event} (hreads : e.reads name = true) :
    h.refuses e = false ∧ e.isFront = true := by
  cases e with
  | receive n | tryReceive n => exact ⟨rfl, rfl⟩
  | _ => simp [Event.reads] at hreads

/-- Whoever has no handle can only read from a listener or give it up. -/
theorem Event.uses_eq_false {e : Event} (hhandle : e.needsHandle = false)
    (hreads : e.reads name = false) (hdrop : e ≠ .drop name) : e.uses name = false := by
  cases e with
  | drop n => exact decide_eq_false fun hn => hdrop (congrArg Event.drop hn)
  | listen n room | closeHeld n | pump n capacity heading => simp [Event.needsHandle] at hhandle
  | _ => exact hreads

/-! ### At every stage -/

theorem held_react {e : Event} (he : e.uses name = false) :
    (h.react e).2.held.get? name = h.held.get? name := by
  cases hfront : e.isFront with
  | false =>
      obtain ⟨⟨wall, journal, managed, connections, heq⟩, -⟩ := aside_react (h := h) hfront
      rw [heq]
  | true =>
      cases e with
      | listen n room =>
          have hn : name ≠ n := Ne.symm (of_decide_eq_false he)
          rcases hopen : h.openListener room with ⟨_ | l, g⟩
          · simp only [react, hopen]
            rcases openListener_none hopen with rfl | rfl <;> rfl
          · obtain ⟨-, rfl⟩ := openListener_some hopen
            simp only [react, hopen, dropHeld]
            split <;> simp [hn]
      | drop n =>
          have hn : name ≠ n := Ne.symm (of_decide_eq_false he)
          simp only [react, dropHeld]
          split <;> simp [hn]
      | closeHeld n =>
          have hn : name ≠ n := Ne.symm (of_decide_eq_false he)
          simp only [react]
          split <;> simp [hn]
      | pump n capacity heading =>
          have hn : name ≠ n := Ne.symm (of_decide_eq_false he)
          obtain ⟨registry, pumps, heq, -⟩ := dropPump_eq h n
          simp only [react, heq]
          split
          · rfl
          · split <;> simp [hn]
      | delete room =>
          simp only [react, delete]
          split <;> rfl
      | listenAbandoned room =>
          simp only [react, openAbandoned]
          split
          · split <;> rfl
          · rfl
      | cancel n =>
          simp only [react]
          split
          · rfl
          · split <;> rfl
      | close n room | receive n | tryReceive n | sinkReceive n =>
          simp only [react]
          split <;> rfl
      | create room | submit sender room text | count room | roomExists room | sinkDrop n
      | pumpEnd n | shutdown => rfl
      | _ => simp [Event.isFront] at hfront

theorem held_piece (hp : ∀ e, p = .react e → e.uses name = false) :
    (h.piece p).held.get? name = h.held.get? name := by
  cases hfront : p.isFront with
  | false =>
      obtain ⟨wall, journal, managed, connections, heq⟩ := aside_piece (h := h) hfront
      rw [heq]
  | true =>
      cases p with
      | react e => exact held_react (hp e rfl)
      | pump n =>
          obtain ⟨registry, pumps, heq⟩ := runPump_eq h n
          rw [piece, heq]
      | _ => simp [Piece.isFront] at hfront

/-- Nobody but its holder takes anything from a listener that is held. -/
theorem InOrder.takes_orders (hi : h.InOrder) (hl : h.held.get? name = some l)
    (hp : ∀ e, p = .react e → e.uses name = false) :
    ∀ o ∈ h.orders p, o.takes l.id = false := by
  intro o ho
  refine Bool.eq_false_iff.2 fun htakes => ?_
  obtain ⟨vs, subs, hk⟩ := hi.kept
  cases hfront : p.isFront with
  | false =>
      obtain ⟨n, l', hl', hid⟩ := isStream_of_takes hfront ho htakes
      exact hk.not_own hl' (hid ▸ hk.own_of_handled ⟨l, handles_held name l hl, rfl⟩)
  | true =>
      have hgiven := mem_given_of_takes ho htakes
      cases p with
      | pump n =>
          obtain ⟨q, hq, hgiven⟩ := List.mem_flatMap.1 hgiven
          exact hi.orderly.apart name n l q hl (Option.mem_toList.1 hq)
            (Pump.listener_of_takes hk.proper.sound hgiven htakes)
      | react e =>
          have huses := hp e rfl
          -- whoever is held under another name is another listener
          have hother : ∀ n, decide (n = name) = false →
              ∀ l', h.held.get? n = some l' → l'.id ≠ l.id := fun n hn l' hl' hid =>
            of_decide_eq_false hn (hi.orderly.heldApart n name l' l hl' hl hid)
          cases e with
          | listen n room =>
              rcases hopen : h.openListener room with ⟨_ | l', g⟩
              · simp [given, asked, hopen] at hgiven
              · obtain ⟨rest, hrest, hrests⟩ := orders_listen hopen n
                rw [hrest] at ho
                rcases List.mem_cons.1 ho with rfl | ho
                · simp [Order.takes] at htakes
                · obtain ⟨l', hl', hid⟩ := hrests o ho l.id htakes
                  exact hother n huses l' hl' hid
          | closeHeld n =>
              obtain ⟨l', hl', hid⟩ := takes_releaseOrders hgiven htakes
              exact hother n huses l' hl' hid
          | drop n =>
              obtain ⟨l', hl', hid⟩ := takes_dropOrders hgiven htakes
              exact hother n huses l' hl' hid
          | receive n | tryReceive n =>
              obtain ⟨l', hl', rfl⟩ := List.mem_map.1 hgiven
              exact hother n huses l' (Option.mem_toList.1 hl') (of_decide_eq_true htakes)
          | pump n capacity heading =>
              obtain ⟨q, hq, hid⟩ := @pump_of_takes h o l.id n capacity heading hgiven htakes
              exact hi.orderly.apart name n l q hl hq hid.symm
          | listenAbandoned room =>
              simp only [given, asked] at hgiven
              split at hgiven
              · obtain rfl := List.mem_singleton.1 hgiven
                simp [Order.takes] at htakes
              · exact absurd hgiven List.not_mem_nil
          | close n room =>
              obtain ⟨l', -, rfl⟩ := List.mem_map.1 hgiven
              simp [Order.takes] at htakes
          | create room | delete room | submit sender room text =>
              obtain rfl := List.mem_singleton.1 hgiven
              simp [Order.takes] at htakes
          | _ => exact absurd hgiven List.not_mem_nil
      | _ => simp [Piece.isFront] at hfront

/-- In a piece of work that does nothing to it a listener loses nothing. -/
theorem InOrder.prefix_waiting (hi : h.InOrder) (hl : h.held.get? name = some l)
    (hp : ∀ e, p = .react e → e.uses name = false) :
    h.registry.waiting l.id <+: (h.piece p).registry.waiting l.id := by
  obtain ⟨vs, subs, hk⟩ := hi.kept
  obtain ⟨c, hc⟩ := hi.tidy.known l (handles_held name l hl)
  rw [registry_piece]
  exact hc.prefix_waiting hk.proper (hi.takes_orders hl hp)

/-- Left alone a listener loses nothing in all of a run. -/
theorem InOrder.prefix_waiting_pieces (hi : h.InOrder) (hl : h.held.get? name = some l)
    {ps : List Piece} (hps : ∀ e, .react e ∈ ps → e.uses name = false) :
    (h.pieces ps).held.get? name = some l ∧
      h.registry.waiting l.id <+: (h.pieces ps).registry.waiting l.id := by
  induction ps generalizing h with
  | nil => exact ⟨hl, List.prefix_rfl⟩
  | cons p ps ih =>
      have hp : ∀ e, p = .react e → e.uses name = false :=
        fun e he => hps e (he ▸ List.mem_cons_self)
      obtain ⟨hheld, hrest⟩ := ih (hi.piece p) ((held_piece hp).trans hl)
        fun e he => hps e (List.mem_cons_of_mem p he)
      exact ⟨hheld, (hi.prefix_waiting hl hp).trans hrest⟩

/-! ### When nobody is left -/

/-- A server without rooms on which nobody can do anything but read, write and wait. -/
structure Emptied (h : Hub) : Prop where
  deserted : h.Deserted
  inOrder : h.InOrder
  vacant : h.Vacant

namespace Emptied

theorem piece (he : h.Emptied) (hp : h.admits p = true) : (h.piece p).Emptied :=
  ⟨he.deserted.piece hp, he.inOrder.piece p, he.vacant.piece hp⟩

theorem pieces (he : h.Emptied) {ps : List Piece} (hps : h.Runs ps) : (h.pieces ps).Emptied :=
  hps.invariant (fun _ _ hp hg => hg.piece hp) he

theorem face (he : h.Emptied) (m : Moment) : (h.face m).2.Emptied := by
  rw [← pieces_script]
  exact he.pieces (runs_script h m)

/-- Its listeners are known, held, and on no list. -/
theorem known (he : h.Emptied) (hl : h.held.get? name = some l) :
    ∃ c, h.registry.Known l c ∧ c.receiving = true ∧ h.registry.lists l.room l.id = false := by
  obtain ⟨c, hc⟩ := he.inOrder.tidy.known l (handles_held name l hl)
  refine ⟨c, hc, ?_, ?_⟩
  · rw [← hc.holds_eq]
    exact he.inOrder.tidy.held name l hl
  · have hnone := he.vacant he.deserted.managed l.room
    rw [Registry.count, Option.map_eq_none_iff] at hnone
    simp [Registry.lists, hnone]

theorem dated (he : h.Emptied) (wall : Instant) : (h.dated wall).Emptied :=
  he.piece (p := .date wall) rfl

/-- What the holder of a listener asks for it gets. -/
theorem react_reads (he : h.Emptied) (hl : h.held.get? name = some l) {e : Event}
    (hreads : e.reads name = true) :
    (h.react e).1 = e.shows (h.registry.waiting l.id).head? ∧
      (h.react e).2 = { h with registry := (h.registry.receive l.id).2 } ∧
      (h.registry.receive l.id).2.waiting l.id = (h.registry.waiting l.id).tail := by
  obtain ⟨c, hc, hreceiving, hlists⟩ := he.known hl
  obtain ⟨hgot, hrest⟩ := hc.receive_eq hreceiving hlists
  rcases hreceive : h.registry.receive l.id with ⟨got, registry⟩
  rw [hreceive] at hgot hrest
  cases e with
  | receive n =>
      obtain rfl : n = name := of_decide_eq_true hreads
      simp only [react, hl, hreceive, Event.shows]
      refine ⟨?_, trivial, hrest⟩
      subst hgot
      cases (h.registry.waiting l.id).head? <;> rfl
  | tryReceive n =>
      obtain rfl : n = name := of_decide_eq_true hreads
      simp only [react, hl, hreceive, Event.shows]
      exact ⟨congrArg Answer.received hgot, trivial, hrest⟩
  | _ => simp [Event.reads] at hreads

/-- Nothing comes to a listener, and nothing is lost that waits for it. -/
theorem waiting_react (he : h.Emptied) (hl : h.held.get? name = some l) {e : Event}
    (huses : e.uses name = false) :
    (h.react e).2.registry.waiting l.id = h.registry.waiting l.id := by
  obtain ⟨vs, subs, hk⟩ := he.inOrder.kept
  obtain ⟨c, hc, -, hlists⟩ := he.known hl
  have hregistry : (h.react e).2.registry = _ := registry_piece h (.react e)
  rw [hregistry]
  refine hc.waiting_obeyAll hk.proper hlists (he.inOrder.takes_orders hl fun e' he' => ?_)
  rwa [← Piece.react.inj he']

/-- A moment in which a listener is not given up: its holder is shown what comes next, if it asks
for it, and what waits behind that stays. -/
theorem read (he : h.Emptied) (hl : h.held.get? name = some l) (m : Moment)
    (hm : m.event ≠ .drop name) :
    (h.face m).2.held.get? name = some l ∧
      (h.face m).2.registry.waiting l.id =
        (h.registry.waiting l.id).drop (if m.event.reads name then 1 else 0) ∧
      (m.event.reads name = true →
        (h.face m).1 = m.event.shows (h.registry.waiting l.id).head?) := by
  obtain ⟨vs, subs, hk⟩ := he.inOrder.kept
  have hdated := he.dated m.wall
  cases hreads : m.event.reads name with
  | true =>
      obtain ⟨hrefused, hfront⟩ := refuses_of_reads (h := h.dated m.wall) hreads
      obtain ⟨-, hregistry, hheld⟩ := he.deserted.face_snd hk hrefused
      obtain ⟨hanswer, hafter, hrest⟩ := hdated.react_reads hl hreads
      rw [hafter] at hregistry hheld
      refine ⟨by rw [hheld]; exact hl, ?_, fun _ => ?_⟩
      · rw [hregistry, if_pos rfl, List.drop_one]
        exact hrest
      · have hface : (h.face m).1 = ((h.dated m.wall).step m.event).1 := rfl
        rw [hface, step_fst hrefused, conclude_fst _ _ _ hfront]
        exact hanswer
  | false =>
      have hstill : (h.face m).2.held.get? name = some l ∧
          (h.face m).2.registry.waiting l.id = h.registry.waiting l.id := by
        cases hrefused : (h.dated m.wall).refuses m.event with
        | true =>
            rw [Hub.face_snd_of_refuses hrefused]
            exact ⟨hl, rfl⟩
        | false =>
            have hadmits : (h.dated m.wall).admits (.react m.event) = true := by
              simp [admits, hrefused]
            have hneeds := needsHandle_of_admits hdated.deserted.handle hadmits
            have huses := Event.uses_eq_false hneeds hreads hm
            obtain ⟨-, hregistry, hheld⟩ := he.deserted.face_snd hk hrefused
            rw [hregistry, hheld]
            exact ⟨(held_react huses).trans hl, hdated.waiting_react hl huses⟩
      exact ⟨hstill.1, hstill.2, by simp⟩

theorem through (he : h.Emptied) (ms : List Moment) : (h.through ms).Emptied := by
  rw [← pieces_scripts]
  exact he.pieces (runs_scripts h ms)

/-- With each read the next payload goes, and with nothing else. -/
theorem waiting_through (he : h.Emptied) (hl : h.held.get? name = some l) {ms : List Moment}
    (hms : ∀ m ∈ ms, m.event ≠ .drop name) :
    (h.through ms).held.get? name = some l ∧
      (h.through ms).registry.waiting l.id =
        (h.registry.waiting l.id).drop (ms.countP fun m => m.event.reads name) := by
  induction ms generalizing h with
  | nil => exact ⟨hl, rfl⟩
  | cons m ms ih =>
      obtain ⟨hheld, hwaiting, -⟩ := he.read hl m (hms m List.mem_cons_self)
      obtain ⟨hheld', hrest⟩ := ih (he.face m) hheld fun m' hm' =>
        hms m' (List.mem_cons_of_mem m hm')
      refine ⟨hheld', ?_⟩
      rw [through_cons, hrest, hwaiting, List.drop_drop, List.countP_cons, Nat.add_comm]

/-- The holder of a listener reads what waits for it in order, and then finds the end. -/
theorem face_fst (he : h.Emptied) (hl : h.held.get? name = some l) {ms : List Moment}
    (hms : ∀ m ∈ ms, m.event ≠ .drop name) {m : Moment} (hreads : m.event.reads name = true) :
    ((h.through ms).face m).1 =
      m.event.shows (h.registry.waiting l.id)[ms.countP fun m => m.event.reads name]? := by
  obtain ⟨hheld, hwaiting⟩ := he.waiting_through hl hms
  have hm : m.event ≠ .drop name := fun hdrop => by simp [hdrop, Event.reads] at hreads
  rw [((he.through ms).read hheld m hm).2.2 hreads, hwaiting, List.head?_drop]

end Emptied

end Hub

end ChatServer
