import ChatServer.Proofs.Hub.Calm
import ChatServer.Proofs.RoundTrip.Record

/-!
Direct messages over a store that works and has no gate. What is sent from one user to another is
filed under the key of the pair, and a key shows nothing else; so two pairs are kept apart exactly
if their keys are. A key does not tell where the sender's name ends: pairs whose names contain
colons can share one.
-/

namespace ChatServer

/-! ### Keys of pairs -/

/-- Two texts joined by a mark each are the same just if they are the same in both parts, or the
mark of either stands within a part of the other. -/
theorem append_cons_eq_append_cons_iff {α : Type} {a b c d : List α} {x : α} :
    a ++ x :: b = c ++ x :: d ↔
      (a = c ∧ b = d) ∨ ∃ m, (a = c ++ x :: m ∧ d = m ++ x :: b) ∨
        (c = a ++ x :: m ∧ b = m ++ x :: d) := by
  constructor
  · intro h
    rcases List.append_eq_append_iff.1 h with ⟨m, hc, hb⟩ | ⟨m, ha, hd⟩
    · cases m with
      | nil => exact .inl ⟨by simpa using hc.symm, by simpa using hb⟩
      | cons y m =>
          obtain ⟨rfl, rfl⟩ := List.cons.inj hb
          exact .inr ⟨m, .inr ⟨hc, rfl⟩⟩
    · cases m with
      | nil => exact .inl ⟨by simpa using ha, by simpa using hd.symm⟩
      | cons y m =>
          obtain ⟨rfl, rfl⟩ := List.cons.inj hd
          exact .inr ⟨m, .inl ⟨ha, rfl⟩⟩
  · rintro (⟨rfl, rfl⟩ | ⟨m, ⟨rfl, rfl⟩ | ⟨rfl, rfl⟩⟩) <;> simp

/-- Two pairs of users share a key just if they are the same pair, or one of them divides the other
one's names at another colon. -/
theorem directKey_eq_iff {s r s' r' : UserId} :
    directKey s' r' = directKey s r ↔
      (s' = s ∧ r' = r) ∨ ∃ between,
        (s'.text = s.text ++ ":" ++ between ∧ r.text = between ++ ":" ++ r'.text) ∨
          (s.text = s'.text ++ ":" ++ between ∧ r'.text = between ++ ":" ++ r.text) := by
  obtain ⟨s⟩ := s
  obtain ⟨r⟩ := r
  obtain ⟨s'⟩ := s'
  obtain ⟨r'⟩ := r'
  have hcolon : (":" : String).toList = [':'] := rfl
  have hkey : directKey ⟨s'⟩ ⟨r'⟩ = directKey ⟨s⟩ ⟨r⟩ ↔
      s'.toList ++ ':' :: r'.toList = s.toList ++ ':' :: r.toList := by
    rw [← String.toList_inj]
    simp [directKey, String.toList_append, hcolon]
  rw [hkey, append_cons_eq_append_cons_iff]
  simp only [UserId.mk.injEq, String.toList_inj]
  refine or_congr_right ⟨?_, ?_⟩
  · rintro ⟨m, h⟩
    refine ⟨String.ofList m, ?_⟩
    simpa [← String.toList_inj, String.toList_append, hcolon] using h
  · rintro ⟨between, h⟩
    refine ⟨between.toList, ?_⟩
    simpa [← String.toList_inj, String.toList_append, hcolon] using h

namespace Hub

/-! ### What a key shows -/

/-- Events on direct messages, and time that passes. -/
def Event.isDirect : Event → Bool
  | .direct .. | .getDirect .. | .deleteDirect .. | .advance _ => true
  | _ => false

theorem Event.isAside_of_isDirect {e : Event} (he : e.isDirect = true) : e.isAside = true := by
  cases e <;> first | rfl | simp [isDirect] at he

/-- The direct messages that a key shows. -/
def filed (h : Hub) (key : String) : List DirectRecord :=
  readable DirectRecord.parse
    (((h.journal.store.log.live? h.journal.now key).map LogEntry.values).getD [])

/-- A server on which all that the log shows are direct messages, each under its pair's key. -/
structure Filing (h : Hub) : Prop where
  calm : h.Calm
  log : ∀ key e, h.journal.store.log.live? h.journal.now key = some e →
    ∃ ds : List DirectRecord, e.values = ds.map DirectRecord.json ∧
      ∀ d ∈ ds, directKey d.sender d.receiver = key

/-- A message under its key, behind those that are there already. -/
theorem filing_appended {key : String} {before : Option LogEntry} {d : DirectRecord}
    (hkey : directKey d.sender d.receiver = key)
    (hbefore : ∀ e, before = some e → ∃ ds : List DirectRecord,
      e.values = ds.map DirectRecord.json ∧ ∀ d ∈ ds, directKey d.sender d.receiver = key) :
    ∃ ds : List DirectRecord, (LogEntry.appended before d.json).values = ds.map DirectRecord.json ∧
      ∀ d ∈ ds, directKey d.sender d.receiver = key := by
  cases before with
  | none => exact ⟨[d], rfl, by simpa using hkey⟩
  | some e =>
      obtain ⟨ds, hvalues, hkeys⟩ := hbefore e rfl
      refine ⟨ds ++ [d], by simp [LogEntry.appended, hvalues], fun d' hd' => ?_⟩
      rcases List.mem_append.1 hd' with hd' | hd'
      · exact hkeys d' hd'
      · rw [List.mem_singleton.1 hd']
        exact hkey

theorem filing_writes {h : Hub} (hf : h.Filing) {e : Event} (he : e.isDirect = true) (key : String)
    (entry : LogEntry)
    (hentry : ((h.writes e).foldl (fun s x => s.apply h.journal.now x)
      h.journal.store).log.live? h.journal.now key = some entry) :
    ∃ ds : List DirectRecord, entry.values = ds.map DirectRecord.json ∧
      ∀ d ∈ ds, directKey d.sender d.receiver = key := by
  have ho := hf.calm.outages
  cases e with
  | direct sender receiver text =>
      simp only [writes, List.foldl_cons, List.foldl_nil, Store.apply] at hentry
      have happended := filing_appended (d := DirectRecord.new sender receiver text) rfl
        (hf.log (directKey sender receiver))
      by_cases hclock : h.journal.now + h.tuning.ttl < Time.limit
      · rw [Store.live?_write ho _ _ _ hclock] at hentry
        by_cases hkey : key = directKey sender receiver
        · rw [if_pos hkey] at hentry
          split at hentry
          · rw [← Option.some.inj hentry, hkey]
            exact happended
          · simp at hentry
        · rw [if_neg hkey] at hentry
          exact hf.log key entry hentry
      · rw [Store.live?_write_late ho _ _ _ (Nat.le_of_not_lt hclock)] at hentry
        by_cases hkey : key = directKey sender receiver
        · rw [if_pos hkey] at hentry
          rw [← Option.some.inj hentry, hkey]
          exact happended
        · rw [if_neg hkey] at hentry
          exact hf.log key entry hentry
  | deleteDirect sender receiver =>
      simp only [writes, List.foldl_cons, List.foldl_nil] at hentry
      rw [Store.live?_apply_purge ho] at hentry
      split at hentry
      · simp at hentry
      · exact hf.log key entry hentry
  | getDirect sender receiver => exact hf.log key entry hentry
  | advance d => exact hf.log key entry hentry
  | _ => simp [Event.isDirect] at he

/-! ### Runs of direct messages -/

/-- What is found between two users over a working store is what their key shows. -/
theorem getDirect_of_healthy {h : Hub} (ho : h.journal.store.outages = Outages.none)
    (sender receiver : UserId) :
    (h.getDirect sender receiver).1 = .ok (h.filed (directKey sender receiver)) := by
  have hrange := Store.call_range_healthy ho h.journal.now (directKey sender receiver)
  simp only [getDirect, call_eq, hrange]
  rfl

/-- Looking for direct messages shows what their key shows. -/
theorem step_getDirect_of_healthy {h : Hub} (hh : h.handle = true)
    (ho : h.journal.store.outages = Outages.none) (sender receiver : UserId) :
    (h.step (.getDirect sender receiver)).1 = .directs (h.filed (directKey sender receiver)) := by
  have hr : h.refuses (.getDirect sender receiver) = false := by
    simp [refuses, hh, Event.isCommand]
  have hlook : (h.react (.getDirect sender receiver)).1 =
      ofLog (h.getDirect sender receiver).1 .directs := rfl
  rw [getDirect_of_healthy ho] at hlook
  rw [step_fst hr]
  exact hlook

/-- What a moment with a direct message comes to. -/
theorem written_face {h : Hub} (hcalm : h.Calm) {m : Moment} (he : m.event.isDirect = true) :
    Written (h.dated m.wall) (h.face m).2 m.event := by
  have hdated := calm_dated hcalm m.wall
  have hr : (h.dated m.wall).refuses m.event = false := by
    have hhandle : (h.dated m.wall).handle = true := hcalm.handle
    cases hevent : m.event <;> simp [refuses, hhandle, Event.isCommand, hevent, Event.isDirect]
      at he ⊢
  have haside := Event.isAside_of_isDirect he
  have hregular : m.event.isRegular = true := by
    cases hevent : m.event <;> simp [Event.isRegular, hevent, Event.isDirect] at he ⊢
  have hwritten := written_aside hdated haside
  have hstep := step_eq hr (Event.front_or_logSide hregular) hwritten.calm.connections
  simp only [face, hstep]
  exact hwritten

/-- What a key shows after a moment is what the moment's writes make of it, less what has lapsed in
the meantime. -/
theorem live?_face {h : Hub} (hcalm : h.Calm) {m : Moment} (he : m.event.isDirect = true)
    (key : String) :
    (h.face m).2.journal.store.log.live? (h.face m).2.journal.now key =
      ((((h.dated m.wall).writes m.event).foldl (fun s x => s.apply h.journal.now x)
        h.journal.store).log.live? h.journal.now key).filter
          fun e => !e.expired (h.face m).2.journal.now := by
  have hwritten := written_face hcalm he
  have hlater : h.journal.now ≤ (h.face m).2.journal.now := by
    rw [hwritten.now]
    exact Nat.le_add_right _ _
  rw [ExpiringLog.live?_later _ hlater]
  exact congrArg _ (hwritten.log key)

/-- A moment with a direct message keeps the log in order. -/
theorem filing_face {h : Hub} (hf : h.Filing) {m : Moment} (he : m.event.isDirect = true) :
    (h.face m).2.Filing := by
  refine ⟨(written_face hf.calm he).calm, fun key e hlive => ?_⟩
  rw [live?_face hf.calm he] at hlive
  have hdated : (h.dated m.wall).Filing := ⟨calm_dated hf.calm m.wall, hf.log⟩
  exact filing_writes hdated he key e (Option.filter_eq_some_iff.1 hlive).1

theorem filing_through {h : Hub} (hf : h.Filing) {ms : List Moment}
    (hms : ∀ m ∈ ms, m.event.isDirect = true) :
    (h.through ms).Filing ∧ (h.through ms).tuning = h.tuning := by
  induction ms generalizing h with
  | nil => exact ⟨hf, rfl⟩
  | cons m ms ih =>
      have hm := hms m List.mem_cons_self
      obtain ⟨hrest, htuning⟩ := ih (filing_face hf hm)
        fun m' hm' => hms m' (List.mem_cons_of_mem m hm')
      exact ⟨hrest, htuning.trans (written_face hf.calm hm).tuning⟩

theorem filing_new (tuning : Tuning) (wall : Instant) :
    (new tuning Outages.none false wall).Filing := by
  refine ⟨calm_new tuning wall, fun key e he => ?_⟩
  simp [new, Journal.new, Store.new, ExpiringLog.live?, ExpiringLog.empty] at he

/-! ### Answers -/

/-- What a key shows was sent between two users who have that key. -/
theorem directKey_of_mem_filed {h : Hub} (hf : h.Filing) {key : String} {d : DirectRecord}
    (hd : d ∈ h.filed key) : directKey d.sender d.receiver = key := by
  unfold filed at hd
  cases hlive : h.journal.store.log.live? h.journal.now key with
  | none => simp [hlive, readable] at hd
  | some e =>
      obtain ⟨ds, hvalues, hkeys⟩ := hf.log key e hlive
      simp only [hlive, Option.map_some, Option.getD_some, hvalues] at hd
      rw [readable_map fun d _ => d.parse_json] at hd
      exact hkeys d hd

theorem readable_append (d : DirectRecord) (vs : List String) :
    readable DirectRecord.parse (vs ++ [d.json]) = readable DirectRecord.parse vs ++ [d] := by
  have hone : readable DirectRecord.parse ([d].map DirectRecord.json) = [d] :=
    readable_map fun d _ => d.parse_json
  simp only [readable, List.filterMap_append] at hone ⊢
  exact congrArg _ hone

/-- What a moment that takes no time makes of a key. -/
theorem filed_face {h : Hub} (hcalm : h.Calm) {m : Moment} (he : m.event.isDirect = true)
    (helapsed : m.event.elapsed = 0) (key : String) :
    (h.face m).2.filed key = readable DirectRecord.parse
      ((((((h.dated m.wall).writes m.event).foldl (fun s x => s.apply h.journal.now x)
        h.journal.store).log.live? h.journal.now key).map LogEntry.values).getD []) := by
  have hwritten := written_face hcalm he
  have hnow : (h.face m).2.journal.now = h.journal.now := by
    rw [hwritten.now, helapsed]
    rfl
  rw [filed, hnow]
  exact congrArg (fun e => readable DirectRecord.parse ((e.map LogEntry.values).getD []))
    (hwritten.log key)

/-- A message changes nothing under other keys than its own. Unless it lapses at once it is shown
there, behind those that are shown already. -/
theorem filed_direct {h : Hub} (hcalm : h.Calm) (wall : Instant) (sender receiver : UserId)
    (text key : String) :
    (directKey sender receiver ≠ key →
        (h.face ⟨wall, .direct sender receiver text⟩).2.filed key = h.filed key) ∧
      (directKey sender receiver = key → 0 < h.tuning.ttl →
        (h.face ⟨wall, .direct sender receiver text⟩).2.filed key =
          h.filed key ++ [DirectRecord.new sender receiver text]) := by
  have hvalues : ∀ (e : Option LogEntry) (value : String),
      (LogEntry.appended e value).values = (e.map LogEntry.values).getD [] ++ [value] := by
    intro e value
    cases e <;> rfl
  rw [filed_face hcalm rfl rfl]
  simp only [writes, dated, List.foldl_cons, List.foldl_nil, Store.apply]
  -- a deadline that the clock cannot show is not set, but the message is appended all the same
  by_cases hclock : h.journal.now + h.tuning.ttl < Time.limit
  · rw [Store.live?_write hcalm.outages _ _ _ hclock]
    exact ⟨fun hkey => by simp [Ne.symm hkey, filed],
      fun hkey httl => by simp [hkey, httl, hvalues, readable_append, filed]⟩
  · rw [Store.live?_write_late hcalm.outages _ _ _ (Nat.le_of_not_lt hclock)]
    exact ⟨fun hkey => by simp [Ne.symm hkey, filed],
      fun hkey _ => by simp [hkey, hvalues, readable_append, filed]⟩

/-- A deletion takes out what is shown under its key, and nothing else. -/
theorem filed_deleteDirect {h : Hub} (hcalm : h.Calm) (wall : Instant) (sender receiver : UserId)
    (key : String) :
    (h.face ⟨wall, .deleteDirect sender receiver⟩).2.filed key =
      if directKey sender receiver = key then [] else h.filed key := by
  rw [filed_face hcalm rfl rfl]
  simp only [writes, List.foldl_cons, List.foldl_nil]
  rw [Store.live?_apply_purge hcalm.outages]
  by_cases hkey : directKey sender receiver = key
  · simp [hkey, readable]
  · simp [hkey, Ne.symm hkey, filed]

/-- Direct messages are kept apart by the keys of their pairs. A look shows only messages whose pair
has the key that is looked under; and what is sent or deleted in the name of a pair changes what is
shown just if the pair has that key, which it has if it is the same pair or if a colon in somebody's
name lets the key be divided otherwise. What has been sent is shown if it does not lapse at once. -/
theorem directs_apart_by_key (tuning : Tuning) (start : Instant) {ms : List Moment}
    (hms : ∀ m ∈ ms, m.event.isDirect = true) (sender receiver : UserId) :
    let h := (new tuning Outages.none false start).through ms
    ∃ shown, (h.step (.getDirect sender receiver)).1 = .directs shown ∧
      (∀ d ∈ shown, directKey d.sender d.receiver = directKey sender receiver) ∧
      ∀ (wall : Instant) (s r : UserId) (text : String),
        let sent := ((h.face ⟨wall, .direct s r text⟩).2.step (.getDirect sender receiver)).1
        let purged := ((h.face ⟨wall, .deleteDirect s r⟩).2.step (.getDirect sender receiver)).1
        (directKey s r ≠ directKey sender receiver →
          sent = .directs shown ∧ purged = .directs shown) ∧
        (directKey s r = directKey sender receiver →
          (0 < tuning.ttl → sent = .directs (shown ++ [DirectRecord.new s r text])) ∧
            purged = .directs []) ∧
        (directKey s r = directKey sender receiver ↔
          (s = sender ∧ r = receiver) ∨ ∃ between,
            (s.text = sender.text ++ ":" ++ between ∧ receiver.text = between ++ ":" ++ r.text) ∨
              (sender.text = s.text ++ ":" ++ between ∧
                r.text = between ++ ":" ++ receiver.text)) := by
  intro h
  obtain ⟨hf, htuning⟩ := filing_through (filing_new tuning start) hms
  have hshown : ∀ {g : Hub}, g.Calm → (g.step (.getDirect sender receiver)).1 =
      .directs (g.filed (directKey sender receiver)) := fun hcalm =>
    step_getDirect_of_healthy hcalm.handle hcalm.outages sender receiver
  refine ⟨_, hshown hf.calm, fun d hd => directKey_of_mem_filed hf hd,
    fun wall s r text => ?_⟩
  obtain ⟨hother, hown⟩ := filed_direct hf.calm wall s r text (directKey sender receiver)
  have hpurged := filed_deleteDirect hf.calm wall s r (directKey sender receiver)
  have hcalm : (h.face ⟨wall, .direct s r text⟩).2.Calm := (written_face hf.calm rfl).calm
  have hcalm' : (h.face ⟨wall, .deleteDirect s r⟩).2.Calm := (written_face hf.calm rfl).calm
  refine ⟨fun hkey => ?_, fun hkey => ?_, directKey_eq_iff⟩
  · rw [if_neg hkey] at hpurged
    exact ⟨(hshown hcalm).trans (congrArg _ (hother hkey)),
      (hshown hcalm').trans (congrArg _ hpurged)⟩
  · rw [if_pos hkey] at hpurged
    refine ⟨fun httl => ?_, (hshown hcalm').trans (congrArg _ hpurged)⟩
    exact (hshown hcalm).trans (congrArg _ (hown hkey (htuning ▸ httl)))

/-- Two messages each way between users without colons, of which those one way are deleted. -/
def eitherWay : List Moment :=
  [Event.direct ⟨"a"⟩ ⟨"b"⟩ "there", .direct ⟨"b"⟩ ⟨"a"⟩ "back", .direct ⟨"b"⟩ ⟨"a"⟩ "again",
    .deleteDirect ⟨"a"⟩ ⟨"b"⟩].map (Moment.mk default)

theorem directs_apart_either_way :
    (∀ m ∈ eitherWay, m.event.isDirect = true) ∧
      let h := (new Tuning.default Outages.none false default).through eitherWay
      let shown := [DirectRecord.mk ⟨"b"⟩ ⟨"a"⟩ "back" true, ⟨⟨"b"⟩, ⟨"a"⟩, "again", true⟩]
      (h.step (.getDirect ⟨"b"⟩ ⟨"a"⟩)).1 = .directs shown ∧
        ((h.face ⟨default, .direct ⟨"a"⟩ ⟨"b"⟩ "more"⟩).2.step (.getDirect ⟨"b"⟩ ⟨"a"⟩)).1 =
          .directs shown ∧
        ((h.face ⟨default, .direct ⟨"b"⟩ ⟨"a"⟩ "more"⟩).2.step (.getDirect ⟨"b"⟩ ⟨"a"⟩)).1 =
          .directs (shown ++ [⟨⟨"b"⟩, ⟨"a"⟩, "more", true⟩]) := by
  have hms : ∀ m ∈ eitherWay, m.event.isDirect = true := by decide
  refine ⟨hms, ?_⟩
  intro h shown
  have hlook : (h.step (.getDirect ⟨"b"⟩ ⟨"a"⟩)).1 = .directs shown := by rfl
  obtain ⟨shown', hshown', -, hothers⟩ :=
    directs_apart_by_key Tuning.default default hms ⟨"b"⟩ ⟨"a"⟩
  obtain rfl : shown' = shown := Answer.directs.inj (hshown'.symm.trans hlook)
  have hkeys : directKey ⟨"a"⟩ ⟨"b"⟩ ≠ directKey ⟨"b"⟩ ⟨"a"⟩ := by decide
  have httl : 0 < Tuning.default.ttl := by decide
  exact ⟨hlook, ((hothers default ⟨"a"⟩ ⟨"b"⟩ "more").1 hkeys).1,
    ((hothers default ⟨"b"⟩ ⟨"a"⟩ "more").2.1 rfl).1 httl⟩

/-- What the user `a` sends to the user `a:a` is shown as sent by `a:a` to `a`. -/
theorem directs_merged :
    (((new Tuning.default Outages.none false default).through
        [⟨default, .direct ⟨"a"⟩ ⟨"a:a"⟩ "x"⟩]).step (.getDirect ⟨"a:a"⟩ ⟨"a"⟩)).1 =
      .directs [⟨⟨"a"⟩, ⟨"a:a"⟩, "x", true⟩] := by
  rfl

end Hub

end ChatServer
