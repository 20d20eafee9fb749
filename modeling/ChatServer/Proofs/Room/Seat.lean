import ChatServer.Proofs.Table
import ChatServer.Room.Stage

/-!
One subscription seen by itself. Its channel is changed by what is published, by the end of the
subscription and by its own receiver, and by nothing else on the stage; the step lemma
(`seated_step`) says so, and a run follows by induction.
-/

namespace ChatServer

namespace Stage

/-- The stage after a series of events. -/
def run (s : Stage) (es : List Event) : Stage := es.foldl (fun s e => (s.step e).2) s

theorem run_append (s : Stage) (es es' : List Event) : s.run (es ++ es') = (s.run es).run es' :=
  List.foldl_append

/-- Whether an event makes a channel. -/
def Event.makes (ch : ChannelId) : Event → Bool
  | .register _ ch' _ => ch' = ch
  | _ => false

/-- Whether an event gives up the receiver of a channel. -/
def Event.gives (ch : ChannelId) : Event → Bool
  | .dropReceiver ch' => ch' = ch
  | _ => false

/-- Whether an event ends the subscription of a listener. -/
def Event.ends (id : ListenerId) : Event → Bool
  | .unregister id' => id' = id
  | .close => true
  | _ => false

/-- Whether an event is of any concern to a listener with its channel. -/
def Event.concerns (id : ListenerId) (ch : ChannelId) : Event → Bool
  | .publish _ => true
  | .receive ch' => ch' = ch
  | e => e.ends id

/-- What becomes of a channel that a listener was subscribed with. -/
def attend (id : ListenerId) (ch : ChannelId) (c : Channel Payload) : Event → Channel Payload
  | .publish p => if c.sending then c.offer p else c
  | .receive ch' => if ch' = ch then c.receive.2 else c
  | e => if e.ends id then c.dropSender else c

/-- A channel whose sender, as long as it is held, is held for one listener and for nobody else;
its receiver is held. -/
structure Seated (s : Stage) (id : ListenerId) (ch : ChannelId) (c : Channel Payload) : Prop where
  channel : s.channels.get? ch = some c
  receiving : c.receiving = true
  seat : c.sending = true → s.broadcaster.subscribers.get? id = some ch
  alone : ∀ id', s.broadcaster.subscribers.get? id' = some ch → id' = id ∧ c.sending = true

/-! ### One event -/

theorem dropSender_of_not_sending {c : Channel Payload} (h : c.sending = false) :
    c.dropSender = c := by
  obtain ⟨capacity, buffer, sending, receiving⟩ := c
  simp only at h
  subst h
  rfl

/-- What is done to the channels of all subscribers is done once to a subscribed one. -/
theorem get?_foldl_targets {s : Stage} {id : ListenerId} {ch : ChannelId} {c : Channel Payload}
    (h : s.Seated id ch c) (f : Channel Payload → Channel Payload) :
    (s.broadcaster.targets.foldl (fun chs ch => chs.modify ch f) s.channels).get? ch =
      some (if c.sending then f c else c) := by
  cases hsending : c.sending with
  | true =>
      obtain ⟨vs, vs', htargets, hvs, hvs'⟩ :=
        Table.values_of_unique (h.seat hsending) fun id' hid' => (h.alone id' hid').1
      rw [Broadcaster.targets, htargets, Table.get?_foldl_modify_of_once f hvs hvs', h.channel]
      rfl
  | false =>
      have hnone : ch ∉ s.broadcaster.targets := Table.not_mem_values fun id' hid' => by
        have hsend := (h.alone id' hid').2
        rw [hsending] at hsend
        exact Bool.false_ne_true hsend
      rw [Table.get?_foldl_modify_of_not_mem f hnone, h.channel]
      rfl

theorem seated_register {s : Stage} {id : ListenerId} {ch : ChannelId} {c : Channel Payload}
    (h : s.Seated id ch c) (id' : ListenerId) {ch' : ChannelId} (capacity : Nat)
    (hne : ch' ≠ ch) : (s.step (.register id' ch' capacity)).2.Seated id ch c := by
  have hput : (s.channels.put ch' (Channel.new capacity)).get? ch = some c := by
    rw [Table.get?_put, if_neg (Ne.symm hne), h.channel]
  have hdrop : ((s.channels.put ch' (Channel.new capacity)).modify ch' Channel.dropSender).get? ch =
      some c := by
    rw [Table.get?_modify, if_neg (Ne.symm hne), hput]
  simp only [step, Broadcaster.register]
  split
  · exact h
  · split
    · exact ⟨hdrop, h.receiving, h.seat, h.alone⟩
    · split
      case isTrue => exact ⟨hdrop, h.receiving, h.seat, h.alone⟩
      case isFalse hcontains =>
        have hnone : s.broadcaster.subscribers.get? id' = none := by
          simpa [Table.contains] using hcontains
        refine ⟨hput, h.receiving, fun hsending => ?_, fun x hx => ?_⟩
        · have hseat := h.seat hsending
          have hx : id ≠ id' := by
            rintro rfl
            rw [hnone] at hseat
            exact absurd hseat (by simp)
          rw [Table.get?_put, if_neg hx]
          exact hseat
        · rw [Table.get?_put] at hx
          split at hx
          · exact absurd (Option.some.inj hx) hne
          · exact h.alone x hx

theorem seated_unregister {s : Stage} {id : ListenerId} {ch : ChannelId} {c : Channel Payload}
    (h : s.Seated id ch c) (id' : ListenerId) :
    (s.step (.unregister id')).2.Seated id ch (if id' = id then c.dropSender else c) := by
  simp only [step, Broadcaster.unregister]
  cases hget : s.broadcaster.subscribers.get? id' with
  | none =>
      by_cases hid : id' = id
      · subst hid
        have hsending : c.sending = false := by
          cases hs : c.sending with
          | false => rfl
          | true => rw [h.seat hs] at hget; exact absurd hget (by simp)
        rw [if_pos rfl, dropSender_of_not_sending hsending]
        exact h
      · rw [if_neg hid]
        exact h
  | some ch' =>
      dsimp only
      by_cases hid : id' = id
      · subst hid
        rw [if_pos rfl]
        refine ⟨?_, h.receiving, fun hs => absurd hs (by simp [Channel.dropSender]),
          fun x hx => ?_⟩
        · -- should the listener be subscribed with another channel, its own has ended before
          rw [Table.get?_modify]
          split
          case isTrue =>
            rw [h.channel]
            rfl
          case isFalse hne =>
            have hsending : c.sending = false := by
              cases hs : c.sending with
              | false => rfl
              | true =>
                  rw [h.seat hs] at hget
                  exact absurd (Option.some.inj hget) hne
            rw [h.channel, dropSender_of_not_sending hsending]
        · rw [Table.get?_erase] at hx
          split at hx
          case isTrue => simp at hx
          case isFalse hne =>
            exact absurd (h.alone x hx).1 hne
      · have hne : ch ≠ ch' := by
          rintro rfl
          exact hid (h.alone id' hget).1
        rw [if_neg hid]
        refine ⟨?_, h.receiving, fun hs => ?_, fun x hx => ?_⟩
        · rw [Table.get?_modify, if_neg hne, h.channel]
        · rw [Table.get?_erase, if_neg (Ne.symm hid), h.seat hs]
        · rw [Table.get?_erase] at hx
          split at hx
          · simp at hx
          · exact h.alone x hx

theorem seated_publish {s : Stage} {id : ListenerId} {ch : ChannelId} {c : Channel Payload}
    (h : s.Seated id ch c) (p : Payload) :
    (s.step (.publish p)).2.Seated id ch (if c.sending then c.offer p else c) := by
  have hfields : (if c.sending then c.offer p else c).receiving = c.receiving ∧
      (if c.sending then c.offer p else c).sending = c.sending := by
    unfold Channel.offer
    split
    · split <;> exact ⟨rfl, rfl⟩
    · exact ⟨rfl, rfl⟩
  have hdelivery : Channels.delivery s.channels ch ≠ .gone := by
    simp only [Channels.delivery, h.channel, Option.map_some, Option.getD_some, Channel.delivery,
      h.receiving, Bool.not_true, Bool.false_eq_true, if_false]
    split <;> simp
  refine ⟨get?_foldl_targets h (·.offer p), hfields.1.trans h.receiving, fun hs => ?_,
    fun x hx => ?_⟩
  · -- the receiver is held, so the subscriber keeps its place
    have hseat := h.seat (hfields.2.symm.trans hs)
    simp only [step, Broadcaster.publish, Table.get?_filter, hseat]
    exact Option.filter_eq_some_iff.2 ⟨rfl, decide_eq_true hdelivery⟩
  · simp only [step, Broadcaster.publish, Table.get?_filter] at hx
    obtain ⟨hid, hs⟩ := h.alone x (Option.filter_eq_some_iff.1 hx).1
    exact ⟨hid, hfields.2.trans hs⟩

theorem seated_close {s : Stage} {id : ListenerId} {ch : ChannelId} {c : Channel Payload}
    (h : s.Seated id ch c) : (s.step .close).2.Seated id ch c.dropSender := by
  refine ⟨(get?_foldl_targets h Channel.dropSender).trans ?_, h.receiving,
    fun hs => absurd hs (by simp [Channel.dropSender]), fun x hx => ?_⟩
  · cases hsending : c.sending with
    | true => rfl
    | false =>
        rw [dropSender_of_not_sending hsending]
        rfl
  · simp only [step, Broadcaster.close, Table.get?_empty] at hx
    exact absurd hx (by simp)

/-- The holder of the receiver finds what is in the channel. -/
theorem step_receive {s : Stage} {id : ListenerId} {ch : ChannelId} {c : Channel Payload}
    (h : s.Seated id ch c) : s.step (.receive ch) =
      (.received c.receive.1, { s with channels := s.channels.put ch c.receive.2 }) := by
  have hheld : s.held? ch = some c := by
    rw [held?, h.channel]
    exact Option.filter_eq_some_iff.2 ⟨rfl, h.receiving⟩
  simp only [step, hheld]

theorem seated_receive {s : Stage} {id : ListenerId} {ch : ChannelId} {c : Channel Payload}
    (h : s.Seated id ch c) (ch' : ChannelId) :
    (s.step (.receive ch')).2.Seated id ch (if ch' = ch then c.receive.2 else c) := by
  by_cases hch : ch' = ch
  · subst hch
    rw [step_receive h, if_pos rfl]
    refine ⟨?_, c.receiving_receive.trans h.receiving,
      fun hs => h.seat (c.sending_receive.symm.trans hs), fun x hx => ?_⟩
    · rw [Table.get?_put, if_pos rfl]
    · obtain ⟨hid, hs⟩ := h.alone x hx
      exact ⟨hid, c.sending_receive.trans hs⟩
  · rw [if_neg hch]
    simp only [step]
    split
    · exact h
    · refine ⟨?_, h.receiving, h.seat, h.alone⟩
      rw [Table.get?_put, if_neg (Ne.symm hch), h.channel]

/-- An event does to the channel of a listener what concerns the listener, and nothing else. -/
theorem seated_step {s : Stage} {id : ListenerId} {ch : ChannelId} {c : Channel Payload}
    (h : s.Seated id ch c) {e : Event} (hmakes : e.makes ch = false)
    (hgives : e.gives ch = false) : (s.step e).2.Seated id ch (attend id ch c e) := by
  cases e with
  | register id' ch' capacity => exact seated_register h id' capacity (of_decide_eq_false hmakes)
  | unregister id' => simpa [attend, Event.ends] using seated_unregister h id'
  | contains id' => exact h
  | publish p => exact seated_publish h p
  | close => exact seated_close h
  | receive ch' => exact seated_receive h ch'
  | dropReceiver ch' =>
      have hne : ch ≠ ch' := Ne.symm (of_decide_eq_false hgives)
      refine ⟨?_, h.receiving, h.seat, h.alone⟩
      simp only [step]
      rw [Table.get?_modify, if_neg hne, h.channel]
      rfl

/-! ### Many events -/

theorem seated_run {s : Stage} {id : ListenerId} {ch : ChannelId} {c : Channel Payload}
    (h : s.Seated id ch c) {es : List Event}
    (hes : ∀ e ∈ es, e.makes ch = false ∧ e.gives ch = false) :
    (s.run es).Seated id ch (es.foldl (attend id ch) c) := by
  induction es generalizing s c with
  | nil => exact h
  | cons e es ih =>
      obtain ⟨hmakes, hgives⟩ := hes e List.mem_cons_self
      exact ih (seated_step h hmakes hgives) fun e' he' => hes e' (List.mem_cons_of_mem e he')

end Stage

end ChatServer
