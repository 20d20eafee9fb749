import ChatServer.Proofs.Connection.Serve

/-!
Every piece of work is one of the changes, but for those that take connections or their frames away.
So the invariant holds at every stage of every run of a server that has just been started.
-/

namespace ChatServer.Hub

variable {h : Hub} {vs : Visitors} {subs : List Subscription}

theorem change_pump_run (hk : h.Kept vs subs) (name : Label) :
    Change h vs [] [] (h.runPump name) := by
  unfold runPump
  cases hp : h.pumps.get? name with
  | none => exact change_of_journal hk h.journal
  | some p =>
      obtain ⟨hlistener, hspared⟩ := Pump.spared_run hk.proper (handled_pumped hp)
      exact change_quiet hspared ⟨fun _ => rfl, fun _ => rfl, fun _ =>
        handles_of handles_opened handles_held (handles_put_pump hp hlistener)⟩

theorem filter_isStream_messages (room : String) (buffer : List Payload) :
    (buffer.map (Frame.message room)).filter Frame.isStream = buffer.map (Frame.message room) := by
  simp [List.filter_map, Function.comp_def, Frame.isStream]

theorem change_forward (hk : h.Kept vs subs) (name : Label) :
    Change h vs [] [] (h.forward name) := by
  have hold : ∀ {c : Connection}, h.connections.get? name = some c →
      h.presence? name = some c.presence := fun found => by simp [presence?, found]
  have hstream : ∀ {c : Connection} {l : Listener}, h.connections.get? name = some c →
      c.stream = some l → h.stream? name = some l := fun found stream => by
    simp [stream?, found, stream]
  have hshown : ∀ {c : Connection}, h.connections.get? name = some c → ∀ n, h.shown n =
      if n = name then c.outbox.filter Frame.isStream else h.shown n := by
    intro c found n
    split
    case isTrue hn => simp [hn, shown, found]
    case isFalse => rfl
  cases passing_forward h name with
  | nothing eq idle =>
      rw [eq]
      exact change_of_journal hk h.journal
  | passed found stream channel sending eq =>
      rw [eq]
      refine .forwarded (hstream found stream) channel sending rfl (fun n => ?_) (fun n => ?_)
        fun _ hl => hl
      · rw [presence?_put]
        split
        case isTrue hn =>
          rw [hn, hold found]
          rfl
        case isFalse => rfl
      · rw [shown_put, hshown found n]
        split
        · rw [List.filter_append, filter_isStream_messages]
        · rw [List.append_nil]
          rfl
  | @closed c l ch found stream channel ended eq =>
      rw [eq]
      refine .ended (hold found) (hstream found stream) channel ended ?_ (fun n => ?_)
        (fun n => ?_) fun _ hl => hl
      · refine Registry.Spared.trans (s := { h.registry with
          channels := h.registry.channels.put l.id.channel { ch with buffer := [] } }) ?_ ?_
        · exact Registry.spared_put_channel hk.proper (by rfl) _
        · exact Registry.spared_dropReceiver (hk.proper.of_channels _) (by rfl)
      · rw [presence?_put]
        rfl
      · rw [shown_put, hshown found n]
        split
        · rw [List.filter_append, List.filter_append, filter_isStream_messages]
          rfl
        · rw [List.append_nil]
          rfl

theorem change_retire (hk : h.Kept vs subs) : Change h vs [] [] h.retire := by
  unfold retire
  split
  case isTrue hretire =>
    simp only [Bool.and_eq_true, Bool.not_eq_true', attended, Bool.or_eq_false_iff,
      List.any_eq_false] at hretire
    refine .dismissed (.inr fun n p hp => ?_) rfl (undisturbed_of_eq rfl rfl rfl rfl)
    obtain ⟨c, hc, rfl⟩ := Option.map_eq_some_iff.1 hp
    have halive : c.alive = false := by simpa using hretire.2.2 (n, c) (Table.mem_entries.2 hc)
    exact halive
  case isFalse => exact change_of_journal hk h.journal

/-- Every piece of work is a change, but for those that take connections or their frames away. -/
theorem change_piece (hk : h.Kept vs subs) {p : Piece} (hp : p.clears = false) :
    Change h vs (h.deeds p) (h.opens p) (h.piece p) := by
  cases p with
  | react e => exact change_react hk e
  | serve name => exact change_serve hk name
  | date wall =>
      exact change_quiet (Registry.Spared.refl hk.proper) (undisturbed_of_eq rfl rfl rfl rfl)
  | wait name =>
      obtain ⟨gate, heq⟩ := waitInLine_eq h name
      rw [piece, heq]
      exact change_of_journal hk _
  | pump name => exact change_pump_run hk name
  | forward name => exact change_forward hk name
  | write => exact change_of_journal hk _
  | retire => exact change_retire hk
  | forget name | collect => simp [Piece.clears] at hp

theorem Kept.after_piece (hk : h.Kept vs subs) (p : Piece) :
    (h.piece p).Kept (vs.afterAll (h.deeds p)) (subs ++ h.opens p) := by
  cases hp : p.clears with
  | false => exact hk.change (change_piece hk hp)
  | true =>
      rw [← List.append_nil subs] at hk
      cases p with
      | forget name => exact hk.after_forget name
      | collect => exact hk.after_collect
      | _ => simp [Piece.clears] at hp

/-- What every run keeps, at each of its stages. -/
theorem Kept.pieces (hk : h.Kept vs subs) (ps : List Piece) :
    (h.pieces ps).Kept (vs.afterAll (h.log ps)) (subs ++ h.ledger ps) := by
  induction ps generalizing h vs subs with
  | nil =>
      rw [ledger, List.append_nil]
      exact hk
  | cons p ps ih =>
      have hrest := ih (hk.after_piece p)
      rw [log, ledger, Visitors.afterAll_append, ← List.append_assoc]
      exact hrest

/-- A server that has just been started. -/
theorem kept_new (tuning : Tuning) (outages : Outages) (gated : Bool) (wall : Instant) :
    (new tuning outages gated wall).Kept .nobody [] where
  proper := Registry.proper_new _
  fresh := List.nodup_nil
  below s hs := by simp at hs
  handled l hl := by
    rcases hl with ⟨name, hl⟩ | ⟨name, hl⟩ | ⟨name, p, hp, -⟩
    · simp [new] at hl
    · simp [new] at hl
    · simp [new] at hp
  streams name l hl := by simp [stream?, new] at hl
  listed room id hid := by simp [Registry.lists, new, Registry.new] at hid
  live name p hp := by simp [presence?, new] at hp
  faithful name p hp := by simp [presence?, new] at hp
  hears name := rfl

end ChatServer.Hub
