import ChatServer.Proofs.Connection.Charge
import ChatServer.Proofs.Table

/-!
A connection while others are at work. Whoever else does something, be it a client, the user of the
server or a task in the background, leaves a connection its session and its inbox and sends it
nothing but frames of the room that it has joined; and for as long as it is there commands are
handled.
-/

namespace ChatServer

/-- A connection later, having been sent nothing but frames of its room. -/
def Connection.Streams (c c' : Connection) : Prop :=
  ∃ stream fs, (∀ f ∈ fs, f.isStream = true) ∧ c' = { c with stream, outbox := c.outbox ++ fs }

theorem Connection.Streams.refl (c : Connection) : c.Streams c :=
  ⟨c.stream, [], by simp, by simp⟩

namespace Hub

/-- Pieces in which a client comes, goes, says something or has it served, or in which what has been
sent is collected. -/
def Piece.isOwn (name : Label) : Piece → Bool
  | .react (.connect n _) | .react (.text n _) | .react (.disconnect n) | .serve n => n = name
  | .collect => true
  | _ => false

variable {h h' : Hub} {vs : Visitors} {subs : List Subscription} {name n : Label} {c : Connection}
  {p : Piece}

/-! ### Others at work -/

theorem get?_putConnection_of_ne (hne : n ≠ name) (h : Hub) (c' : Connection) :
    (h.putConnection n c').connections.get? name = h.connections.get? name := by
  rw [putConnection, Table.get?_put, if_neg hne.symm]

theorem get?_endConnection_of_ne (hne : n ≠ name) (h : Hub) (c' : Connection) :
    (h.endConnection n c').connections.get? name = h.connections.get? name := by
  rw [endConnection_eq, get?_putConnection_of_ne hne]

/-- Serving another connection leaves a connection alone. -/
theorem get?_serveNext_of_ne (hne : n ≠ name) (hserve : h.serveNext n = some h') :
    h'.connections.get? name = h.connections.get? name := by
  obtain ⟨c', -, -, hserving⟩ := serving_of_serveNext hserve
  cases hserving with
  | gone inbox eq deeds => rw [eq, get?_endConnection_of_ne hne]
  | unreadable inbox eq deeds => rw [eq, get?_putConnection_of_ne hne]
  | answered inbox served eq deeds =>
      rw [eq, get?_putConnection_of_ne hne, (aside_of_reply served).1.connections]
  | ended inbox served eq deeds =>
      rw [eq, get?_endConnection_of_ne hne, (aside_of_ended served).1.connections]

theorem get?_react_of_not_own {e : Event} (he : (Piece.react e).isOwn name = false) :
    (h.react e).2.connections.get? name = h.connections.get? name := by
  cases reception_react h e with
  | unmoved connections => rw [connections]
  | opened event free eq =>
      subst event
      rw [eq, get?_putConnection_of_ne (of_decide_eq_false he)]
  | arrival client found eq =>
      rw [eq]
      refine get?_putConnection_of_ne ?_ h _
      rintro rfl
      cases e <;> simp [Event.client?] at client <;> simp [Piece.isOwn, client] at he

/-- What is passed on to a connection are frames of its room. -/
theorem streams_forward (hc : h.connections.get? name = some c) (n : Label) :
    ∃ c', (h.forward n).connections.get? name = some c' ∧ c.Streams c' := by
  have hother : ∀ (g : Hub) (c' : Connection), n ≠ name → g.connections = h.connections →
      (g.putConnection n c').connections.get? name = some c := fun g c' hn heq => by
    rw [get?_putConnection_of_ne hn, heq, hc]
  have hmessages : ∀ (l : Listener) (buffer : List Payload),
      ∀ f ∈ buffer.map (Frame.message l.room.text), f.isStream = true := by
    simp [Frame.isStream]
  cases passing_forward h n with
  | nothing eq idle => exact ⟨c, by rw [eq, hc], .refl c⟩
  | @passed c' l ch found stream channel sending eq =>
      rw [eq]
      by_cases hn : n = name
      · subst hn
        obtain rfl := Option.some.inj (hc.symm.trans found)
        exact ⟨_, by simp [putConnection], c.stream, _, hmessages l ch.buffer, rfl⟩
      · exact ⟨c, hother _ _ hn rfl, .refl c⟩
  | @closed c' l ch found stream channel ended eq =>
      rw [eq]
      by_cases hn : n = name
      · subst hn
        obtain rfl := Option.some.inj (hc.symm.trans found)
        refine ⟨_, (Table.get?_put _ _ _ _).trans (if_pos rfl), none, _, fun f hf => ?_, rfl⟩
        rcases List.mem_append.1 hf with hf | hf
        · exact hmessages l ch.buffer f hf
        · rw [List.mem_singleton.1 hf]
          rfl
      · exact ⟨c, hother _ _ hn rfl, .refl c⟩

/-- Whatever others do, a connection that is there has been sent frames of its room at most. -/
theorem streams_piece (hp : p.isOwn name = false)
    (hc : h.connections.get? name = some c) (ha : c.alive = true) :
    ∃ c', (h.piece p).connections.get? name = some c' ∧ c.Streams c' := by
  have hsame : (h.piece p).connections.get? name = h.connections.get? name →
      ∃ c', (h.piece p).connections.get? name = some c' ∧ c.Streams c' :=
    fun heq => ⟨c, heq.trans hc, .refl c⟩
  cases p with
  | react e => exact hsame (get?_react_of_not_own hp)
  | serve n =>
      refine hsame ?_
      rw [piece]
      cases hserve : h.serveNext n with
      | none => rfl
      | some after => exact get?_serveNext_of_ne (of_decide_eq_false hp) hserve
  | forward n => exact streams_forward hc n
  | wait n =>
      obtain ⟨gate, heq⟩ := waitInLine_eq h n
      exact hsame (by rw [piece, heq]; rfl)
  | pump n =>
      obtain ⟨registry, pumps, heq⟩ := runPump_eq h n
      exact hsame (by rw [piece, heq])
  | forget n =>
      rcases forget_cases h n with heq | ⟨c', hc', hdead, heq⟩
      · exact hsame (by rw [piece, heq])
      · have hne : n ≠ name := by
          rintro rfl
          obtain rfl : c = c' := Option.some.inj (hc.symm.trans hc')
          simp [ha] at hdead
        exact hsame (by rw [piece, heq, Table.get?_erase, if_neg hne.symm])
  | retire =>
      refine hsame ?_
      rw [piece, retire]
      split <;> rfl
  | collect => simp [Piece.isOwn] at hp
  | date wall | write => exact hsame rfl

/-! ### Commands are handled -/

/-- Listeners can be opened, and commands are handled as long as a handle is held. -/
structure Manned (h : Hub) : Prop where
  canOpen : h.registry.canOpen = true
  managed : h.handle = true → h.managed = true

theorem manned_new (tuning : Tuning) (outages : Outages) (gated : Bool) (wall : Instant)
    (hcan : Channel.isCapacity (max tuning.subscriberBuffer 1) = true) :
    (new tuning outages gated wall).Manned := ⟨hcan, fun _ => rfl⟩

theorem Manned.piece (hm : h.Manned) (hk : h.Kept vs subs) (p : Piece) : (h.piece p).Manned := by
  refine ⟨(canOpen_piece hk p).trans hm.canOpen, fun hhandle => ?_⟩
  by_cases hretire : p = .retire
  · subst hretire
    rcases retire_cases h with hsame | ⟨-, hgone, -⟩
    · rw [Hub.piece, hsame] at hhandle ⊢
      exact hm.managed hhandle
    · rw [Hub.piece, hgone] at hhandle
      simp at hhandle
  · have hcharge := charge_piece h hretire
    rw [hcharge.managed hm.canOpen]
    exact hm.managed (hcharge.handle hhandle)

theorem Manned.pieces (hm : h.Manned) (hk : h.Kept vs subs) (ps : List Piece) :
    (h.pieces ps).Manned := by
  induction ps generalizing h vs subs with
  | nil => exact hm
  | cons p ps ih => exact ih (hm.piece hk p) (hk.after_piece p)

/-- A connection can give commands. -/
theorem attended_of_alive (hc : h.connections.get? name = some c) (ha : c.alive = true) :
    h.attended = true := by
  have hmem := Table.mem_entries.2 hc
  have hany : h.connections.entries.any (fun e => e.2.alive) = true :=
    List.any_eq_true.2 ⟨_, hmem, ha⟩
  simp [attended, hany]

/-- While a connection is there commands are handled. -/
theorem managed_piece (hcan : h.registry.canOpen = true) (hm : h.managed = true)
    (hc : h.connections.get? name = some c) (ha : c.alive = true) (p : Piece) :
    (h.piece p).managed = true := by
  by_cases hretire : p = .retire
  · subst hretire
    rw [piece, retire, attended_of_alive hc ha]
    simpa using hm
  · exact ((charge_piece h hretire).managed hcan).trans hm

end Hub

end ChatServer
