import ChatServer.Proofs.Connection.Due
import ChatServer.Proofs.Connection.Reply

/-!
What connections are sent of the rooms that they have joined, over a store without gate. At most one
deed is done in a moment, since at most one thing has arrived when nobody has to wait; what it gives
to hear is due from then on, has been sent when the moment is over, and is collected with it.
-/

namespace ChatServer.Hub

/-- Pieces of the work that goes on in the background. -/
def Piece.isBackground : Piece → Bool
  | .serve _ | .wait _ | .pump _ | .forward _ | .write | .retire => true
  | _ => false

/-- Of these only serving does something, and none takes anything away. -/
theorem Piece.background_cases {p : Piece} (hp : p.isBackground = true) :
    (∃ name, p = .serve name) ∨ p.clears = false ∧ (∀ e, p ≠ .react e) ∧
      (∀ name, p ≠ .serve name) ∧ ∀ h : Hub, h.deeds p = [] := by
  cases p with
  | serve name => exact .inl ⟨name, rfl⟩
  | wait name | pump name | forward name | write | retire =>
      exact .inr ⟨rfl, by simp, by simp, fun _ => rfl⟩
  | _ => simp [isBackground] at hp

/-- A moment that is not over, `ds` having been done in it so far, and `who` being the only client
of whom something may wait to be served. -/
structure Underway (h : Hub) (vs : Visitors) (ds : List Deed) (who : Option Label) : Prop where
  kept : ∃ subs, h.Kept (vs.afterAll ds) subs
  ungated : h.Ungated
  awaits : ∀ n, (h.unserved n).length ≤ if who = some n then 1 else 0
  due : ∀ n, h.due n = vs.heard n ds
  replied : ∀ n, h.replied n = ds.flatMap (Deed.repliesTo n)
  spent : ∀ n p, h.presence? n = some p → p.alive = false → h.due n = [] ∧ h.replied n = []
  once : ds = [] ∨ who = none

/-- Between two moments nobody is due anything and nothing waits to be served. -/
abbrev Idle (h : Hub) (vs : Visitors) : Prop := h.Underway vs [] none

variable {h h' : Hub} {vs : Visitors} {ds : List Deed} {who : Option Label} {name : Label}

namespace Underway

theorem unserved_eq_nil (hu : h.Underway vs ds none) (n : Label) : h.unserved n = [] :=
  List.eq_nil_of_length_eq_zero (Nat.le_zero.1 (hu.awaits n))

/-! ### One piece -/

/-- The first deed of a moment. -/
theorem change (hu : h.Underway vs [] who) {opened : List Subscription} {who' : Option Label}
    (hc : Change h vs ds opened h') (hungated : h'.Ungated)
    (hawaits : ∀ n, (h'.unserved n).length ≤ if who' = some n then 1 else 0)
    (hreplied : ∀ n, h'.replied n = ds.flatMap (Deed.repliesTo n))
    (hspent : ∀ n p, h'.presence? n = some p → p.alive = false → h'.replied n = [])
    (honce : ds = [] ∨ who' = none) : h'.Underway vs ds who' := by
  obtain ⟨subs, hk⟩ := hu.kept
  have hk' := hk.change hc
  refine ⟨⟨_, hk'⟩, hungated, hawaits, hk.due_change hu.due hc, hreplied, fun n p hp ha => ?_,
    honce⟩
  have hnone : h'.stream? n = none := by
    rw [stream?_eq, hp]
    exact hk'.live n p hp ha
  rw [due_eq_nil]
  exact ⟨⟨hk.shown_change hu.due hc n, pending_of_no_stream hnone⟩, hspent n p hp ha⟩

/-- Something by which nothing is done. -/
theorem quiet (hu : h.Underway vs ds none) {opened : List Subscription}
    (hc : Change h (vs.afterAll ds) [] opened h') (hungated : h'.Ungated)
    (hawaits : ∀ n, h'.unserved n = []) (hreplied : ∀ n, h'.replied n = h.replied n) :
    h'.Underway vs ds none ∧ ∀ n, h.pending n = [] → h'.pending n = [] := by
  obtain ⟨subs, hk⟩ := hu.kept
  refine ⟨⟨⟨_, hk.change hc⟩, hungated, fun n => ?_, fun n => ?_, fun n => ?_, fun n p hp ha => ?_,
    .inr rfl⟩, fun n => hk.pending_quiet hc⟩
  · rw [hawaits]
    exact Nat.zero_le _
  · exact (hk.due_quiet hc n).trans (hu.due n)
  · exact (hreplied n).trans (hu.replied n)
  · obtain ⟨q, hq, hdead⟩ := hc.dead_before hp ha
    obtain ⟨hdue, hanswers⟩ := hu.spent n q hq hdead
    exact ⟨(hk.due_quiet hc n).trans hdue, (hreplied n).trans hanswers⟩

theorem serveNext_eq_none (hu : h.Underway vs ds none) (name : Label) :
    h.serveNext name = none := by
  cases hserve : h.serveNext name with
  | none => rfl
  | some after =>
      obtain ⟨-, hless, -⟩ := unserved_serveNext hu.ungated hserve
      rw [hu.unserved_eq_nil] at hless
      exact absurd hless (Nat.not_lt_zero _)

/-- Where nothing waits to be served nothing is done in the background. -/
theorem background (hu : h.Underway vs ds none) {p : Piece} (hp : p.isBackground = true) :
    h.deeds p = [] ∧ (h.piece p).Underway vs ds none ∧
      ∀ n, h.pending n = [] → (h.piece p).pending n = [] := by
  rcases Piece.background_cases hp with ⟨name, rfl⟩ | ⟨hclears, hreact, hserve, hdeeds⟩
  · have hserve := hu.serveNext_eq_none name
    rw [piece, hserve]
    exact ⟨by simp [deeds, hserve], hu, fun _ hn => hn⟩
  · obtain ⟨subs, hk⟩ := hu.kept
    obtain ⟨hungated, hunserved⟩ := unserved_piece hu.ungated hreact hserve
    have hchange := change_piece hk hclears
    rw [hdeeds] at hchange
    exact ⟨hdeeds h, hu.quiet hchange hungated
      (fun n => (hunserved n).trans (hu.unserved_eq_nil n)) (replied_piece hclears hreact hserve)⟩

/-- The one thing that waits is served. -/
theorem serve (hu : h.Underway vs ds who) (hserve : h.serveNext name = some h') :
    ds = [] ∧ h'.Underway vs (h.deeds (.serve name)) none := by
  obtain ⟨hungated, hless, hothers⟩ := unserved_serveNext hu.ungated hserve
  have hwaits := hu.awaits name
  -- something waits for this client, so it is the one, and nothing has been done in the moment yet
  have hname : who = some name := by
    by_cases hname : who = some name
    · exact hname
    · rw [if_neg hname] at hwaits
      omega
  obtain rfl : ds = [] := by
    rcases hu.once with hnone | hnone
    · exact hnone
    · rw [hname] at hnone
      simp at hnone
  obtain ⟨subs, hk⟩ := hu.kept
  have hpiece : h.piece (.serve name) = h' := by rw [piece, hserve, Option.getD_some]
  have hreplied : ∀ n, h'.replied n = (h.deeds (.serve name)).flatMap (Deed.repliesTo n) := by
    intro n
    have hbefore : h.replied n = [] := hu.replied n
    rw [replied_serveNext hserve, hbefore, List.nil_append]
  refine ⟨rfl, hu.change (hpiece ▸ change_serve hk name) hungated (fun n => ?_) hreplied
    (fun n p hp ha => (hreplied n).trans (repliesTo_of_dead hserve hp ha)) (.inr rfl)⟩
  by_cases hn : n = name
  · rw [hname, if_pos rfl] at hwaits
    rw [hn]
    exact Nat.le_of_lt_succ (Nat.lt_of_lt_of_le hless hwaits)
  · have hwaits := hu.awaits n
    rw [hname, if_neg fun heq => hn (Option.some.inj heq).symm] at hwaits
    rw [hothers n hn]
    exact hwaits

/-! ### Series of pieces -/

theorem background_all {ps : List Piece} (hps : ∀ p ∈ ps, p.isBackground = true)
    (hu : h.Underway vs ds none) :
    h.log ps = [] ∧ (h.pieces ps).Underway vs ds none ∧
      ∀ n, h.pending n = [] → (h.pieces ps).pending n = [] := by
  induction ps generalizing h with
  | nil => exact ⟨rfl, hu, fun _ hn => hn⟩
  | cons p ps ih =>
      obtain ⟨hdeeds, hone, hpending⟩ := hu.background (hps p List.mem_cons_self)
      obtain ⟨hlog, hall, hpending'⟩ := ih (fun q hq => hps q (List.mem_cons_of_mem p hq)) hone
      rw [log, hdeeds, hlog]
      exact ⟨rfl, hall, fun n hn => hpending' n (hpending n hn)⟩

end Underway

theorem background_serveScript (h : Hub) (name : Label) (fuel : Nat) :
    ∀ p ∈ h.serveScript name fuel, p.isBackground = true := by
  induction fuel generalizing h with
  | zero => simp [serveScript]
  | succ fuel ih =>
      intro p hp
      rw [serveScript] at hp
      split at hp
      · rw [List.mem_singleton.1 hp]
        rfl
      · rcases List.mem_cons.1 hp with rfl | hp
        · rfl
        · exact ih _ p hp

theorem background_inboxesScript (h : Hub) (names : List Label) :
    ∀ p ∈ h.inboxesScript names, p.isBackground = true := by
  induction names generalizing h with
  | nil => simp [inboxesScript]
  | cons name names ih =>
      intro p hp
      rcases List.mem_append.1 hp with hp | hp
      · exact background_serveScript h name _ p hp
      · exact ih _ p hp

theorem background_passScript (h : Hub) : ∀ p ∈ h.passScript, p.isBackground = true := by
  intro p hp
  rcases List.mem_append.1 hp with hp | hp
  · obtain ⟨n, -, rfl⟩ := List.mem_map.1 hp
    rfl
  · obtain ⟨n, -, rfl⟩ := List.mem_map.1 hp
    rfl

theorem background_roundsScript (h : Hub) (n : Nat) :
    ∀ p ∈ h.roundsScript n, p.isBackground = true := by
  induction n generalizing h with
  | zero => simp [roundsScript]
  | succ n ih =>
      intro p hp
      rcases List.mem_append.1 hp with hp | hp
      · simp only [roundScript, List.mem_append, List.mem_singleton] at hp
        rcases hp with (hp | hp) | rfl
        · exact background_inboxesScript _ _ p hp
        · exact background_passScript _ p hp
        · rfl
      · split at hp
        · simp at hp
        · exact ih _ p hp

theorem background_settleScript (h : Hub) : ∀ p ∈ h.settleScript, p.isBackground = true := by
  intro p hp
  rcases List.mem_append.1 hp with hp | hp
  · exact background_roundsScript h _ p hp
  · rw [List.mem_singleton.1 hp]
    rfl

namespace Underway

/-- A connection is served until nothing of it waits. -/
theorem inbox (hu : h.Underway vs ds who) (name : Label) :
    ∃ who', (who' = none ∨ who' = who ∧ who ≠ some name) ∧
      (h.pieces (h.inboxScript name)).Underway vs (ds ++ h.log (h.inboxScript name)) who' := by
  rw [inboxScript, serveScript]
  cases hserve : h.serveNext name with
  | none =>
      have hwait : h.pieces [.wait name] = h := waitInLine_of_ungated hu.ungated name
      have hlog : h.log [.wait name] = [] := rfl
      dsimp only
      rw [hwait, hlog, List.append_nil]
      by_cases hname : who = some name
      · refine ⟨none, .inl rfl, { hu with awaits := fun n => ?_, once := .inr rfl }⟩
        have hwaits := hu.awaits n
        by_cases hn : n = name
        · rw [hn, unserved_of_serveNext_eq_none hu.ungated hserve]
          exact Nat.zero_le _
        · rwa [hname, if_neg fun heq => hn (Option.some.inj heq).symm] at hwaits
      · exact ⟨who, .inr ⟨rfl, hname⟩, hu⟩
  | some after =>
      obtain ⟨rfl, hafter⟩ := hu.serve hserve
      have hpiece : h.piece (.serve name) = after := by rw [piece, hserve, Option.getD_some]
      obtain ⟨hlog, hrest, -⟩ := hafter.background_all (background_serveScript after name _)
      refine ⟨none, .inl rfl, ?_⟩
      dsimp only
      rw [pieces_cons, log, hpiece, hlog, List.append_nil, List.nil_append]
      exact hrest

/-- When all connections have been served nothing waits. -/
theorem inboxes (hu : h.Underway vs ds who) {names : List Label}
    (hwho : ∀ n, who = some n → n ∈ names) :
    (h.pieces (h.inboxesScript names)).Underway vs (ds ++ h.log (h.inboxesScript names)) none := by
  -- on the names that are left: the client for whom something may wait is one of them
  induction names generalizing h ds who with
  | nil =>
      have hnone : who = none := by
        cases who with
        | none => rfl
        | some n => exact absurd (hwho n rfl) List.not_mem_nil
      rw [inboxesScript, log, List.append_nil, ← hnone]
      exact hu
  | cons name names ih =>
      obtain ⟨who', hleft, hone⟩ := hu.inbox name
      have hwho' : ∀ n, who' = some n → n ∈ names := by
        intro n hn
        rcases hleft with hnone | ⟨hsame, hne⟩
        · rw [hnone] at hn
          simp at hn
        · rw [hsame] at hn
          rcases List.mem_cons.1 (hwho n hn) with rfl | hmem
          · exact absurd hn hne
          · exact hmem
      rw [pieces_inboxScript] at hone
      have hrest := ih hone hwho'
      rw [inboxesScript, pieces_append, log_append, pieces_inboxScript, ← List.append_assoc]
      exact hrest

end Underway

/-! ### A moment -/

/-- Where nobody has to wait the background work is one round. -/
theorem settleScript_of_ungated (hu : h.Ungated) :
    h.settleScript = h.inboxesScript h.connections.keys ++
      ((h.pieces (h.inboxesScript h.connections.keys)).passScript ++ [.write, .retire]) := by
  have hpermits : h.permits = 0 := by
    rw [permits, show h.journal.store.gate = none from hu]
    rfl
  simp [settleScript, hpermits, roundsScript, roundScript]

/-- A client without a connection is due nothing from any room. -/
theorem pending_of_absent (hn : name ∉ h.connections.keys) : h.pending name = [] := by
  refine pending_of_no_stream ?_
  cases hc : h.connections.get? name with
  | none => simp [stream?, hc]
  | some c => exact absurd (Table.mem_keys.2 ⟨c, hc⟩) hn

theorem stream?_put (h : Hub) (name : Label) (c : Connection) :
    (h.putConnection name c).stream? name = c.stream := by
  simp [stream?, putConnection]

/-- What has been published is passed on altogether. -/
theorem pending_forward (h : Hub) (name : Label) : (h.forward name).pending name = [] := by
  cases passing_forward h name with
  | nothing eq idle =>
      rw [eq]
      cases hl : h.stream? name with
      | none => exact pending_of_no_stream hl
      | some l =>
          obtain ⟨c, hc, hstream⟩ := Option.bind_eq_some_iff.1 hl
          simp [pending, hl, idle c l hc hstream]
  | @passed c l ch found stream channel sending eq =>
      have hempty : ({ ch with buffer := [] } : Channel Payload).backlog l.room = [] :=
        Channel.backlog_eq_nil.2 ⟨rfl, sending⟩
      rw [eq, ← hempty]
      refine pending_of_stream ((stream?_put _ name _).trans stream) ?_
      simp [putConnection, Registry.channel?]
  | closed found stream channel ended eq =>
      rw [eq]
      exact pending_of_no_stream (stream?_put _ name _)

namespace Underway

theorem forwards (hu : h.Underway vs ds none) (names : List Label) :
    ∀ n ∈ names, (h.pieces (names.map Piece.forward)).pending n = [] := by
  induction names generalizing h with
  | nil => simp
  | cons name names ih =>
      obtain ⟨-, hone, -⟩ := hu.background (p := .forward name) rfl
      intro n hn
      rw [List.map_cons, pieces_cons]
      rcases List.mem_cons.1 hn with rfl | hn
      · -- what has been emptied stays empty while the others are served
        have hforwards : ∀ p ∈ names.map Piece.forward, p.isBackground = true := by
          intro p hp
          obtain ⟨n, -, rfl⟩ := List.mem_map.1 hp
          rfl
        obtain ⟨-, -, hpending⟩ := hone.background_all hforwards
        exact hpending n (pending_forward h n)
      · exact ih hone n hn

/-- After passing on nothing is pending. -/
theorem pass (hu : h.Underway vs ds none) :
    h.log h.passScript = [] ∧ (h.pieces h.passScript).Underway vs ds none ∧
      ∀ n, (h.pieces h.passScript).pending n = [] := by
  have hpumps : ∀ p ∈ h.pumps.keys.map Piece.pump, p.isBackground = true := by
    intro p hp
    obtain ⟨n, -, rfl⟩ := List.mem_map.1 hp
    rfl
  obtain ⟨hlog, hpumped, -⟩ := hu.background_all hpumps
  have hforwards : ∀ p ∈ (h.pieces (h.pumps.keys.map Piece.pump)).connections.keys.map
      Piece.forward, p.isBackground = true := by
    intro p hp
    obtain ⟨n, -, rfl⟩ := List.mem_map.1 hp
    rfl
  obtain ⟨hlog', hpassed, hpending⟩ := hpumped.background_all hforwards
  rw [passScript, pieces_append, log_append, hlog, hlog']
  refine ⟨rfl, hpassed, fun n => ?_⟩
  by_cases hn : n ∈ (h.pieces (h.pumps.keys.map Piece.pump)).connections.keys
  · exact hpumped.forwards _ n hn
  · exact hpending n (pending_of_absent hn)

/-- Of whoever is not there nothing can wait. -/
theorem present (hu : h.Underway vs ds who) :
    ∃ who', (∀ n, who' = some n → n ∈ h.connections.keys) ∧ h.Underway vs ds who' := by
  cases who with
  | none => exact ⟨none, by simp, hu⟩
  | some name =>
      by_cases hname : name ∈ h.connections.keys
      · exact ⟨some name, fun n hn => Option.some.inj hn ▸ hname, hu⟩
      · refine ⟨none, by simp, { hu with awaits := fun n => ?_, once := .inr rfl }⟩
        have hwaits := hu.awaits n
        by_cases hn : n = name
        · have hnone : h.connections.get? name = none := by
            cases hc : h.connections.get? name with
            | none => rfl
            | some c => exact absurd (Table.mem_keys.2 ⟨c, hc⟩) hname
          simp [hn, unserved, hnone]
        · rwa [if_neg fun heq => hn (Option.some.inj heq).symm] at hwaits

/-- When the background work is done, all that was to be heard has been sent. -/
theorem settle (hu : h.Underway vs ds who) :
    (h.pieces h.settleScript).Underway vs (ds ++ h.log h.settleScript) none ∧
      ∀ n, (h.pieces h.settleScript).pending n = [] := by
  have hscript := settleScript_of_ungated hu.ungated
  obtain ⟨who', hpresent, hu'⟩ := hu.present
  have hserved := hu'.inboxes hpresent
  obtain ⟨hlog, hpassed, hpending⟩ := hserved.pass
  have hlast : ∀ p ∈ [Piece.write, .retire], p.isBackground = true := by simp [Piece.isBackground]
  obtain ⟨hlog', hdone, hkept⟩ := hpassed.background_all hlast
  rw [hscript, pieces_append, pieces_append, log_append, log_append, hlog, hlog', List.append_nil,
    List.append_nil]
  exact ⟨hdone, fun n => hkept n (hpending n)⟩

/-- Forgetting somebody who is no longer served takes nothing away that was due. -/
theorem forget (hu : h.Underway vs ds none) (hpending : ∀ n, h.pending n = []) (name : Label) :
    (h.forget name).2.Underway vs ds none ∧ ∀ n, (h.forget name).2.pending n = [] := by
  obtain ⟨subs, hk⟩ := hu.kept
  obtain ⟨hungated, hunserved⟩ :=
    unserved_piece (p := .forget name) hu.ungated (by simp) (by simp)
  rcases forget_cases h name with hsame | ⟨c, hc, ha, heq⟩
  · rw [hsame]
    exact ⟨hu, hpending⟩
  obtain ⟨hdue, hanswers⟩ := hu.spent name c.presence (by simp [presence?, hc]) ha
  have hsame : ∀ n, (h.forget name).2.due n = h.due n ∧
      (h.forget name).2.replied n = h.replied n ∧ (h.forget name).2.pending n = [] := by
    intro n
    have hget : (h.forget name).2.connections.get? n =
        if n = name then none else h.connections.get? n := by rw [heq, Table.get?_erase]
    by_cases hn : n = name
    · rw [if_pos hn] at hget
      have hnone : (h.forget name).2.pending n = [] :=
        pending_of_no_stream (by simp [stream?, hget])
      have hdue' : h.due n = [] := hn ▸ hdue
      have hanswers' : h.replied n = [] := hn ▸ hanswers
      refine ⟨?_, ?_, hnone⟩
      · rw [hdue', due_eq_nil]
        exact ⟨by simp [shown, hget], hnone⟩
      · rw [hanswers', Hub.replied, hget]
        rfl
    · rw [if_neg hn] at hget
      have hkept : (h.forget name).2.pending n = h.pending n :=
        pending_congr (by simp [stream?, hget]) fun l _ => by rw [heq]
      exact ⟨by simp [Hub.due, shown, hget, hkept], by simp [Hub.replied, hget],
        hkept.trans (hpending n)⟩
  refine ⟨⟨⟨subs, hk.after_forget name⟩, hungated, fun n => ?_, fun n => ?_, fun n => ?_,
    fun n p hp halive => ?_, .inr rfl⟩, fun n => (hsame n).2.2⟩
  · have hwaits := hu.awaits n
    rwa [← hunserved] at hwaits
  · exact (hsame n).1.trans (hu.due n)
  · exact (hsame n).2.1.trans (hu.replied n)
  · have hold : h.presence? n = some p := by
      rw [heq, presence?, Table.get?_erase] at hp
      split at hp
      · simp at hp
      · exact hp
    obtain ⟨hdue', hanswers'⟩ := hu.spent n p hold halive
    exact ⟨(hsame n).1.trans hdue', (hsame n).2.1.trans hanswers'⟩

/-- With what it is due everybody is sent off. -/
theorem collect (hu : h.Underway vs ds none) (hpending : ∀ n, h.pending n = []) :
    h.collect.2.Idle (vs.afterAll ds) := by
  obtain ⟨subs, hk⟩ := hu.kept
  obtain ⟨hungated, hunserved⟩ := unserved_piece (p := .collect) hu.ungated (by simp) (by simp)
  have hnone : ∀ n, h.collect.2.due n = [] := by
    intro n
    rw [due_eq_nil]
    refine ⟨?_, ?_⟩
    · rw [shown, get?_collect]
      cases h.connections.get? n <;> rfl
    · rw [← hpending n]
      exact pending_congr (stream?_congr (presence?_collect h n)) fun _ _ => rfl
  have hanswers : ∀ n, h.collect.2.replied n = [] := by
    intro n
    rw [Hub.replied, get?_collect]
    cases h.connections.get? n <;> rfl
  refine ⟨⟨subs, hk.after_collect⟩, hungated, fun n => ?_, hnone, hanswers,
    fun n _ _ _ => ⟨hnone n, hanswers n⟩, .inl rfl⟩
  have hwaits := hu.awaits n
  rwa [← hunserved] at hwaits

/-- An event that is not turned away. -/
theorem react (hu : h.Idle vs) (e : Event) :
    (h.react e).2.Underway vs (h.deeds (.react e)) e.client? := by
  obtain ⟨subs, hk⟩ := hu.kept
  have hsilent : ∀ n, (h.react e).2.replied n = [] := replied_react hu.replied e
  have hnone : ∀ n, (h.deeds (.react e)).flatMap (Deed.repliesTo n) = [] := by
    intro n
    cases e with
    | connect name connection =>
        rw [deeds]
        split <;> rfl
    | _ => rfl
  refine hu.change (change_react hk e) (ungated_react hu.ungated e)
    (unserved_react hu.unserved_eq_nil e) (fun n => (hsilent n).trans (hnone n).symm)
    (fun n _ _ _ => hsilent n) ?_
  cases e <;> first | exact .inl rfl | exact .inr rfl

/-- The work of an event, up to the collection of what it shows. -/
theorem work (hu : h.Idle vs) (e : Event) :
    (h.pieces (h.work e)).Underway vs (h.log (h.work e)) none ∧
      ∀ n, (h.pieces (h.work e)).pending n = [] := by
  obtain ⟨hsettled, hpending⟩ := (hu.react e).settle
  rw [Hub.work, pieces_cons, log, pieces_append, log_append]
  have hpiece : h.piece (.react e) = (h.react e).2 := rfl
  rw [hpiece]
  cases e with
  | disconnect name =>
      cases ha : (h.react (.disconnect name)).1 with
      | noClient =>
          simp only [concludeScript, pieces_nil, log, List.append_nil]
          exact ⟨hsettled, hpending⟩
      | _ =>
          simp only [concludeScript, log, deeds, List.append_nil]
          exact hsettled.forget hpending name
  | _ =>
      simp only [concludeScript, pieces_nil, log, List.append_nil]
      exact ⟨hsettled, hpending⟩

end Underway

/-! ### What is collected -/

/-- The frames that a client is sent by a moment. -/
def framesFor (h : Hub) (m : Moment) (name : Label) : List Frame :=
  (((h.dated m.wall).step m.event).2.1.filter fun e => e.1 = name).flatMap fun e => e.2.frames

/-- The frames that a client is sent in a series of moments. -/
def received (h : Hub) (name : Label) : List Moment → List Frame
  | [] => []
  | m :: ms => h.framesFor m name ++ (h.face m).2.received name ms

/-- A client is sent nothing else than what the connection of its name has for it, if that is
anything. -/
theorem filter_parcels {es : List (Label × Connection)} (hnodup : (es.map Prod.fst).Nodup)
    (name : Label) :
    (es.filterMap fun e => e.2.parcel?.map (e.1, ·)).filter (fun e => e.1 = name) =
      (((valueIn es name).bind Connection.parcel?).map (name, ·)).toList := by
  induction es with
  | nil => rfl
  | cons e es ih =>
      obtain ⟨k, c⟩ := e
      rw [List.map_cons, List.nodup_cons] at hnodup
      have hrest := ih hnodup.2
      by_cases hk : k = name
      · subst hk
        rw [Table.valueIn_eq_none hnodup.1] at hrest
        cases hd : c.parcel? with
        | none => simpa [valueIn, hd] using hrest
        | some d => simpa [valueIn, hd] using hrest
      · cases hd : c.parcel? with
        | none => simpa [valueIn, hd, hk] using hrest
        | some d => simpa [valueIn, hd, hk] using hrest

/-- Everybody is sent what stands in the outbox. -/
theorem framesFor_collect (h : Hub) (name : Label) :
    ((h.collect.1.filter fun e => e.1 = name).flatMap fun e => e.2.frames) =
      ((h.connections.get? name).map Connection.outbox).getD [] := by
  rw [Hub.collect, filter_parcels h.connections.nodup, Table.get?]
  cases valueIn h.connections.entries name with
  | none => rfl
  | some c =>
      rw [Option.bind_some, Option.map_some, Option.getD_some, Connection.parcel?]
      by_cases hout : c.outbox = []
      · cases hclosed : c.closed <;> simp [hout]
      · simp [hout]

/-- Of these the ones of its streams and its answers. -/
theorem filter_framesFor_collect (h : Hub) (name : Label) :
    ((h.collect.1.filter fun e => e.1 = name).flatMap fun e => e.2.frames).filter Frame.isStream =
        h.shown name ∧
      ((h.collect.1.filter fun e => e.1 = name).flatMap fun e => e.2.frames).filter
        Frame.isReply = h.replied name := by
  rw [framesFor_collect, shown, replied]
  cases h.connections.get? name <;> exact ⟨rfl, rfl⟩

/-- The date matters to no connection. -/
theorem Idle.dated (hi : h.Idle vs) (wall : Instant) : (h.dated wall).Idle vs := by
  obtain ⟨subs, hk⟩ := hi.kept
  exact (hi.quiet (change_piece hk (p := .date wall) rfl) hi.ungated hi.unserved_eq_nil
    fun _ => rfl).1

/-- A client is sent in a moment what it ought to hear of what is done in it, and its answers. -/
theorem Idle.moment (hi : h.Idle vs) (m : Moment) :
    (h.face m).2.Idle (vs.afterAll (h.log (h.script m))) ∧
      ∀ name, (h.framesFor m name).filter Frame.isStream = vs.heard name (h.log (h.script m)) ∧
        (h.framesFor m name).filter Frame.isReply =
          (h.log (h.script m)).flatMap (Deed.repliesTo name) := by
  have hdated := hi.dated m.wall
  rw [script, log]
  have hpiece : h.piece (.date m.wall) = h.dated m.wall := rfl
  have hdeeds : h.deeds (.date m.wall) = [] := rfl
  rw [hpiece, hdeeds, List.nil_append]
  cases hr : (h.dated m.wall).refuses m.event with
  | true =>
      obtain ⟨-, hstep⟩ := step_of_refuses hr
      rw [if_pos rfl]
      refine ⟨?_, fun name => ?_⟩
      · simp only [face, hstep]
        exact hdated
      · simp only [framesFor, hstep]
        exact ⟨rfl, rfl⟩
  | false =>
      obtain ⟨hworked, hpending⟩ := hdated.work m.event
      have hstep := step_eq_collect hr
      have hcollect : ∀ g : Hub, g.log [.collect] = [] := fun _ => rfl
      simp only [Bool.false_eq_true, if_false, log_append, hcollect, List.append_nil]
      refine ⟨?_, fun name => ?_⟩
      · simp only [face, hstep]
        exact hworked.collect hpending
      · obtain ⟨hstreamed, hreplied⟩ :=
          filter_framesFor_collect ((h.dated m.wall).pieces ((h.dated m.wall).work m.event)) name
        rw [framesFor, hstep, hstreamed, hreplied, ← hworked.due name, ← hworked.replied name, due,
          hpending, List.append_nil]
        exact ⟨rfl, rfl⟩

theorem Idle.run (hi : h.Idle vs) (ms : List Moment) (name : Label) :
    (h.received name ms).filter Frame.isStream = vs.heard name (h.log (h.scripts ms)) ∧
      (h.received name ms).filter Frame.isReply =
        (h.log (h.scripts ms)).flatMap (Deed.repliesTo name) := by
  induction ms generalizing h vs with
  | nil => exact ⟨rfl, rfl⟩
  | cons m ms ih =>
      obtain ⟨hnext, hframes⟩ := hi.moment m
      obtain ⟨hstreamed, hreplied⟩ := hframes name
      obtain ⟨hstreamed', hreplied'⟩ := ih hnext
      rw [received, scripts, log_append, List.filter_append, List.filter_append,
        Visitors.heard_append, pieces_script, hstreamed, hreplied, hstreamed', hreplied',
        List.flatMap_append]
      exact ⟨rfl, rfl⟩

theorem idle_new (tuning : Tuning) (outages : Outages) (wall : Instant) :
    (new tuning outages false wall).Idle .nobody where
  kept := ⟨[], kept_new tuning outages false wall⟩
  ungated := rfl
  awaits _ := Nat.zero_le _
  due _ := rfl
  replied _ := rfl
  spent n p hp := by simp [presence?, new] at hp
  once := .inl rfl

/-- Over a store without gate the frames of its streams that a client is sent in a run are, each
once and in the order in which it was done, the messages that are said in the room that it has
joined, as long as it has not left it and the room has not been deleted, and that the room is closed
if it is deleted then. What it has joined and left is told by what it is answered. -/
theorem streamed_exactly (tuning : Tuning) (outages : Outages) (wall : Instant)
    (ms : List Moment) (name : Label) :
    let start := new tuning outages false wall
    let log := start.log (start.scripts ms)
    (start.received name ms).filter Frame.isStream = Visitors.nobody.heard name log ∧
      (start.received name ms).filter Frame.isReply = log.flatMap (Deed.repliesTo name) :=
  (idle_new tuning outages wall).run ms name

end ChatServer.Hub
