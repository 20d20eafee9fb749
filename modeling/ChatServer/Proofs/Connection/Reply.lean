import ChatServer.Proofs.Connection.Inbox

/-!
What a client is answered: the frames that a connection is sent in answer to its requests are the
ones that its deeds tell of, and no other piece of work adds to them.
-/

namespace ChatServer.Hub

/-- Answers that a connection has been sent and that have not been collected. -/
def replied (h : Hub) (name : Label) : List Frame :=
  ((h.connections.get? name).map fun c => c.outbox.filter Frame.isReply).getD []

variable {h h' : Hub} {name n : Label}

theorem replied_of_connections (hc : h'.connections = h.connections) (n : Label) :
    h'.replied n = h.replied n := by
  rw [replied, replied, hc]

theorem replied_put (h : Hub) (name : Label) (c : Connection) (n : Label) :
    (h.putConnection name c).replied n =
      if n = name then c.outbox.filter Frame.isReply else h.replied n := by
  simp only [replied, putConnection, Table.get?_put]
  split <;> rfl

theorem replied_endConnection (h : Hub) (name : Label) (c : Connection) (n : Label) :
    (h.endConnection name c).replied n =
      if n = name then c.outbox.filter Frame.isReply else h.replied n := by
  rw [endConnection_eq, replied_put]
  rfl

/-- A connection that is put back as it was, as far as answers go. -/
theorem replied_eq_ite {c : Connection} (hc : h.connections.get? name = some c) (n : Label) :
    h.replied n = if n = name then c.outbox.filter Frame.isReply else h.replied n := by
  split
  case isTrue hn =>
    simp [hn, replied, hc]
  case isFalse => rfl

/-- By serving a connection answers what its deed says. -/
theorem replied_serveNext (hserve : h.serveNext name = some h') (n : Label) :
    h'.replied n =
      h.replied n ++ (h.deeds (.serve name)).flatMap (Deed.repliesTo n) := by
  obtain ⟨c, hc, ha, hserving⟩ := serving_of_serveNext hserve
  rw [replied_eq_ite hc n]
  cases hserving with
  | gone inbox eq deeds =>
      rw [eq, deeds, replied_endConnection]
      exact (List.append_nil _).symm
  | unreadable inbox eq deeds =>
      rw [eq, deeds, replied_put, List.flatMap_nil, List.append_nil]
      simp [Frame.isReply, Frame.ofError]
  | @answered _ rest request f c' g inbox served eq deeds =>
      obtain ⟨beside, -, houtbox, -, frame⟩ := aside_of_reply served
      rw [eq, deeds, replied_put, houtbox]
      split
      case isTrue hn =>
        simp [Deed.repliesTo, hn, frame]
      case isFalse hn =>
        rw [replied_of_connections beside.connections]
        simp [Deed.repliesTo, Ne.symm hn]
        rfl
  | @ended _ rest request c' g inbox served eq deeds =>
      obtain ⟨beside, houtbox⟩ := aside_of_ended served
      rw [eq, deeds, replied_endConnection, houtbox, replied_of_connections beside.connections]
      exact (List.append_nil _).symm

/-- Who dies is not answered any more. -/
theorem repliesTo_of_dead (hserve : h.serveNext name = some h') {p : Presence}
    (hp : h'.presence? n = some p) (ha : p.alive = false) :
    (h.deeds (.serve name)).flatMap (Deed.repliesTo n) = [] := by
  obtain ⟨c, hc, halive, hserving⟩ := serving_of_serveNext hserve
  cases hserving with
  | gone inbox eq deeds => simp [deeds, Deed.repliesTo]
  | unreadable inbox eq deeds => simp [deeds]
  | ended inbox served eq deeds => simp [deeds, Deed.repliesTo]
  | @answered _ rest request f c' g inbox served eq deeds =>
      obtain ⟨-, -, -, hsame, -⟩ := aside_of_reply served
      have hn : name ≠ n := by
        rintro rfl
        rw [eq, presence?_put, if_pos rfl] at hp
        rw [← Option.some.inj hp] at ha
        have hstill : c'.alive = true := hsame.trans halive
        rw [Connection.presence, hstill] at ha
        simp at ha
      simp [deeds, Deed.repliesTo, hn]

theorem replied_forward (h : Hub) (name n : Label) : (h.forward name).replied n = h.replied n := by
  have hstream : ∀ (l : Listener) (buffer : List Payload),
      (buffer.map (Frame.message l.room.text)).filter Frame.isReply = [] := by
    intro l buffer
    simp [List.filter_map, Function.comp_def, Frame.isReply]
  cases passing_forward h name with
  | nothing eq idle => rw [eq]
  | passed found stream channel sending eq =>
      rw [eq, replied_eq_ite found n, replied_put, List.filter_append, hstream, List.append_nil]
      rfl
  | closed found stream channel ended eq =>
      rw [eq, replied_eq_ite found n, replied_put, List.filter_append, List.filter_append, hstream,
        List.nil_append]
      simp [Frame.isReply]
      rfl

/-- A piece that serves nobody and takes nothing away answers nobody. -/
theorem replied_piece {p : Piece} (hclears : p.clears = false) (hreact : ∀ e, p ≠ .react e)
    (hserve : ∀ name, p ≠ .serve name) (n : Label) : (h.piece p).replied n = h.replied n := by
  cases p with
  | react e => exact absurd rfl (hreact e)
  | serve name => exact absurd rfl (hserve name)
  | date wall | write => rfl
  | wait name =>
      obtain ⟨gate, heq⟩ := waitInLine_eq h name
      rw [piece, heq]
      rfl
  | pump name =>
      obtain ⟨registry, pumps, heq⟩ := runPump_eq h name
      rw [piece, heq]
      rfl
  | forward name => exact replied_forward h name n
  | retire =>
      rw [piece, retire]
      split <;> rfl
  | forget name | collect => simp [Piece.clears] at hclears

/-- An event by itself answers nobody. -/
theorem replied_react (hnone : ∀ n, h.replied n = []) (e : Event) (n : Label) :
    (h.react e).2.replied n = [] := by
  cases reception_react h e with
  | unmoved connections => rw [replied_of_connections connections, hnone]
  | @opened name connection event free eq =>
      rw [eq, replied_put, hnone]
      exact ite_self _
  | @arrival name c x client found eq =>
      have hbefore := hnone n
      rw [replied_eq_ite found n] at hbefore
      rw [eq, replied_put]
      exact hbefore

end ChatServer.Hub
