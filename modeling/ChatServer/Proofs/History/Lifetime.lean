import ChatServer.Proofs.History.LogSide
import ChatServer.Proofs.Log.Sequence

/-!
How long what is stored lives. The entry of a key is accounted for by the attempts since it came
into being: they left its values, and the last of them that could set a deadline left its deadline.
An entry whose values were all left by attempts that could set none has none.
-/

namespace ChatServer

namespace Attempt

/-- An entry is what some of the latest attempts have left under its key. -/
structure Accounts (key : String) (run : List Attempt) (e : LogEntry) : Prop where
  values : e.values = run.filterMap (stored? key)
  nonempty : e.values ≠ []
  deadline : e.deadline = (run.filterMap (dated? key)).getLast?

/-- Whatever is live under a key is accounted for by the attempts so far. -/
def Accounted (key : String) (past : List Attempt) (e : Option LogEntry) : Prop :=
  ∀ e', e = some e' → ∃ run, run <:+ past ∧ Accounts key run e'

variable {key : String} {past : List Attempt} {e : Option LogEntry}

theorem accounted_none (key : String) (past : List Attempt) : Accounted key past none :=
  fun _ h => by simp at h

theorem Accounted.filter (h : Accounted key past e) (p : LogEntry → Bool) :
    Accounted key past (e.filter p) :=
  fun e' he => h e' (Option.filter_eq_some_iff.1 he).1

/-- What is there before a value is appended, be it nothing. -/
theorem Accounted.exists_run (h : Accounted key past e) (value : String) :
    ∃ run, run <:+ past ∧
      (LogEntry.appended e value).values = run.filterMap (stored? key) ++ [value] ∧
      (LogEntry.appended e value).deadline = (run.filterMap (dated? key)).getLast? := by
  cases e with
  | none => exact ⟨[], List.nil_suffix, rfl, rfl⟩
  | some e =>
      obtain ⟨run, hrun, haccounts⟩ := h e rfl
      exact ⟨run, hrun, by rw [← haccounts.values]; rfl, haccounts.deadline⟩

/-- An attempt belongs to those that account for what it leaves. -/
theorem Accounted.alter (h : Accounted key past e) (a : Attempt) :
    Accounted key (past ++ [a]) (a.alter key e) := by
  have hsuffix : ∀ {run : List Attempt}, run <:+ past → run ++ [a] <:+ past ++ [a] := by
    rintro run ⟨before, rfl⟩
    exact ⟨before, by simp⟩
  unfold Attempt.alter
  split
  · exact accounted_none key _
  · cases hstored : a.stored? key with
    | none =>
        -- an attempt that leaves no value sets no deadline either
        have hdated : a.dated? key = none := by
          rw [← Option.not_isSome_iff_eq_none]
          intro hsome
          obtain ⟨t, ht⟩ := Option.isSome_iff_exists.1 hsome
          have hvalue := stored?_of_dated? ht
          rw [hstored] at hvalue
          simp at hvalue
        intro e' he
        obtain ⟨run, hrun, haccounts⟩ := h e' he
        exact ⟨run ++ [a], hsuffix hrun, by simp [haccounts.values, hstored],
          haccounts.nonempty, by simp [haccounts.deadline, hdated]⟩
    | some value =>
        obtain ⟨run, hrun, hvalues, hdeadline⟩ := h.exists_run value
        dsimp only
        cases hdated : a.dated? key with
        | none =>
            intro e' he
            rw [← Option.some.inj he]
            exact ⟨run ++ [a], hsuffix hrun, by simp [hvalues, hstored], by simp [hvalues],
              by simp [hdeadline, hdated]⟩
        | some t =>
            dsimp only
            split
            · intro e' he
              rw [← Option.some.inj he]
              exact ⟨run ++ [a], hsuffix hrun, by simp [hvalues, hstored], by simp [hvalues],
                by simp [hdated]⟩
            · exact accounted_none key _

/-- Attempts belong one after the other to those that account for what they leave. -/
theorem Accounted.foldl (h : Accounted key past e) (as : List Attempt) :
    Accounted key (past ++ as) (as.foldl (Attempt.alter key) e) := by
  induction as generalizing past e with
  | nil => simpa using h
  | cons a as ih =>
      have hrest := ih (h.alter a)
      rwa [List.append_assoc] at hrest

/-- Of the attempts that leave a value those set no deadline for which that is out of order or whose
deadline the clock cannot show. -/
theorem dated?_eq_none_iff {a : Attempt} {ttl : Duration} (h : a.write.isRoutine ttl = true) :
    a.dated? key = none ↔ ((a.stored? key).isSome = true →
      a.outages.expire ≠ none ∨ Time.limit ≤ a.now + ttl) := by
  obtain ⟨now, outages, x⟩ := a
  cases x with
  | append k value t =>
      obtain rfl : t = ttl := of_decide_eq_true h
      by_cases hstored : k = key ∧ outages.push = none
      · cases hexpire : outages.expire <;>
          simp [dated?, stored?, hstored, hexpire, Time.after?]
      · have hdated : ¬(k = key ∧ outages.push = none ∧ outages.expire = none) :=
          fun hall => hstored ⟨hall.1, hall.2.1⟩
        simp [dated?, stored?, hstored, hdated]
  | purge k | flush ticket => simp [dated?, stored?]

/-- A deadline is set by an attempt that leaves a value, and the last that does is no earlier. -/
theorem exists_last_stored {run : List Attempt} {ttl : Duration} {deadline : Time}
    (hnow : run.Pairwise fun a b => a.now ≤ b.now)
    (hroutine : ∀ a ∈ run, a.write.isRoutine ttl = true)
    (hdeadline : (run.filterMap (dated? key)).getLast? = some deadline) :
    ∃ last, (run.filter fun a => (a.stored? key).isSome).getLast? = some last ∧
      deadline ≤ last.now + ttl := by
  obtain ⟨a, ha, hdated⟩ := List.mem_filterMap.1 (List.mem_of_getLast? hdeadline)
  have hmem : a ∈ run.filter fun a => (a.stored? key).isSome :=
    List.mem_filter.2 ⟨ha, stored?_of_dated? hdated⟩
  have hsum : deadline = a.now + ttl := by
    obtain ⟨value, t, hwrite, hsum⟩ := dated?_eq_some hdated
    have hone := hroutine a ha
    rw [hwrite] at hone
    rw [hsum, show t = ttl from of_decide_eq_true hone]
  cases hlast : (run.filter fun a => (a.stored? key).isSome).getLast? with
  | none =>
      rw [List.getLast?_eq_none_iff] at hlast
      rw [hlast] at hmem
      exact absurd hmem List.not_mem_nil
  | some last =>
      obtain ⟨before, hsplit⟩ := List.getLast?_eq_some_iff.1 hlast
      have hordered := hnow.sublist (List.filter_sublist (p := fun a => (a.stored? key).isSome))
      rw [hsplit] at hordered hmem
      refine ⟨last, rfl, ?_⟩
      rcases List.mem_append.1 hmem with hmem | hmem
      · rw [hsum]
        exact Nat.add_le_add_right
          ((List.pairwise_append.1 hordered).2.2 a hmem last List.mem_cons_self) ttl
      · exact Nat.le_of_eq (by rw [hsum, List.mem_singleton.1 hmem])

end Attempt

namespace Journal

variable {α : Type} [DecidableEq α] {me : α} {j : Journal α} {key : String} {ttl : Duration}
  {past : List Attempt}

/-! ### What the log shows -/

/-- One move: what is attempted in it is made of what was shown, and time only takes away. -/
theorem live?_go (me : α) (j : Journal α) {mv : Move α} (hmv : mv.isRoutine ttl = true)
    (key : String) : (j.go me mv).store.log.live? (j.go me mv).now key =
      ((j.attemptedIn me mv).foldl (Attempt.alter key) (j.store.log.live? j.now key)).filter
        fun e => !e.expired (j.go me mv).now := by
  have hshown : ∀ log : ExpiringLog,
      ((log.live? j.now key).filter fun e => !e.expired j.now) = log.live? j.now key :=
    fun log => (log.live?_later (Nat.le_refl j.now) key).symm
  have hattempt : ∀ (gate : Option (Gate α)) (x : LogWrite),
      (({ j.store with gate } : Store α).apply j.now x).log.live? j.now key =
        ((j.attempt x).alter key (j.store.log.live? j.now key)).filter
          fun e => !e.expired j.now := by
    intro gate x
    have hlive := Attempt.live?_perform j.store.log (j.attempt x) key
    rw [show (j.attempt x).now = j.now from rfl] at hlive
    rw [Store.log_apply, ← hlive, hshown]
    rfl
  cases mv with
  | turn =>
      rcases j.go_turn me with ⟨hgo, hmade⟩ | ⟨-, -, hmade, hgo⟩ | ⟨x, rest, gate, -, -, hmade, hgo⟩
      · simp only [attemptedIn, hgo, hmade, List.foldl_nil]
        exact (hshown _).symm
      · simp only [attemptedIn, hgo, hmade, List.foldl_nil]
        exact (hshown _).symm
      · simp only [attemptedIn, hgo, hmade, List.foldl_cons, List.foldl_nil]
        exact hattempt gate x
  | aside x => exact hattempt j.store.gate x
  | advance d => exact j.store.log.live?_later (Nat.le_add_right _ _) key
  | wait =>
      have hlog : (j.go me .wait).store.log = j.store.log := j.log_go me rfl
      rw [hlog]
      exact (hshown _).symm
  | call c =>
      have halike : (j.store.call j.now c).2.Alike j.now j.store := by
        cases c with
        | range k start stop => exact j.store.alike_call_range j.now k start stop
        | contains k => exact j.store.alike_call_contains j.now k
        | push k value | expire k t | delete k => simp [Move.isRoutine, LogCall.isLook] at hmv
      exact (halike.log key).trans (hshown _).symm
  | sweep => exact (j.store.log.live?_purge j.now key).trans (hshown _).symm
  | callDirect c => simp [Move.isRoutine] at hmv
  | append k value t | purge k | flush | start | discard | release | gate g | outages o =>
      exact (hshown _).symm

/-- One move: an attempt joins those that account for the log. -/
theorem accounted_go (h : Attempt.Accounted key past (j.store.log.live? j.now key)) (me : α)
    {mv : Move α} (hmv : mv.isRoutine ttl = true) :
    Attempt.Accounted key (past ++ j.attemptedIn me mv)
      ((j.go me mv).store.log.live? (j.go me mv).now key) := by
  rw [live?_go me j hmv]
  exact (h.foldl _).filter _

/-- A run, by induction on its moves. -/
theorem accounted_goes (h : Attempt.Accounted key past (j.store.log.live? j.now key)) (me : α)
    {mvs : List (Move α)} (hmvs : ∀ mv ∈ mvs, mv.isRoutine ttl = true) :
    Attempt.Accounted key (past ++ j.attempted me mvs)
      ((j.goes me mvs).store.log.live? (j.goes me mvs).now key) := by
  induction mvs generalizing j past with
  | nil => simpa [attempted, along] using h
  | cons mv mvs ih =>
      have hstep := accounted_go h me (hmvs mv List.mem_cons_self)
      have hrest := ih hstep fun mv' hmv' => hmvs mv' (List.mem_cons_of_mem mv hmv')
      rw [List.append_assoc] at hrest
      exact hrest

/-- A run shows what its attempts have left, by induction on its moves. -/
theorem live?_goes (me : α) {mvs : List (Move α)} (hmvs : ∀ mv ∈ mvs, mv.isRoutine ttl = true)
    {e : Option LogEntry}
    (h : j.store.log.live? j.now key = e.filter fun e => !e.expired j.now) :
    (j.goes me mvs).store.log.live? (j.goes me mvs).now key =
      (Attempt.left key e (j.attempted me mvs)).filter fun e => !e.expired (j.goes me mvs).now := by
  induction mvs generalizing j e with
  | nil => exact h
  | cons mv mvs ih =>
      have hstep := live?_go me j (hmvs mv List.mem_cons_self) key
      obtain ⟨hle, -, hnow⟩ := now_go me j mv
      have hleft : ((j.attemptedIn me mv).foldl (Attempt.alter key)
          (j.store.log.live? j.now key)).filter (fun e => !e.expired (j.go me mv).now) =
            (Attempt.left key e (j.attemptedIn me mv)).filter
              fun e => !e.expired (j.go me mv).now := by
        rcases attemptedIn_cases me j mv with hnil | ⟨a, hone⟩
        · rw [hnil, h]
          exact LogEntry.filter_expired e hle
        · have ha : a.now = j.now := hnow a (by simp [hone])
          simp only [hone, Attempt.left, List.foldl_cons, List.foldl_nil, ha, h]
      rw [hleft] at hstep
      have hrest := ih (fun mv' hmv' => hmvs mv' (List.mem_cons_of_mem mv hmv')) hstep
      rw [goes_cons, hrest, ← Attempt.left_append]
      rfl

/-! ### When attempts are made, and for how long they store -/

theorem now_le_of_mem_attempted {mvs : List (Move α)} {a : Attempt}
    (ha : a ∈ j.attempted me mvs) : j.now ≤ a.now := by
  induction mvs generalizing j with
  | nil => simp [attempted, along] at ha
  | cons mv mvs ih =>
      obtain ⟨hle, -, hnow⟩ := now_go me j mv
      rcases List.mem_append.1 ha with ha | ha
      · exact Nat.le_of_eq (hnow a ha).symm
      · exact Nat.le_trans hle (ih ha)

/-- Attempts are made one after the other. -/
theorem pairwise_attempted (me : α) (j : Journal α) (mvs : List (Move α)) :
    (j.attempted me mvs).Pairwise fun a b => a.now ≤ b.now := by
  induction mvs generalizing j with
  | nil => exact List.Pairwise.nil
  | cons mv mvs ih =>
      obtain ⟨hle, -, hnow⟩ := now_go me j mv
      refine List.pairwise_append.2 ⟨?_, ih (j.go me mv), fun a ha b hb => ?_⟩
      · refine List.pairwise_of_forall_mem_list fun a ha b hb => ?_
        exact Nat.le_of_eq ((hnow a ha).trans (hnow b hb).symm)
      · rw [hnow a ha]
        exact Nat.le_trans hle (now_le_of_mem_attempted hb)

/-- What has joined the line was handed over. -/
theorem mem_line {mvs : List (Move α)} {x : LogWrite} (hx : x ∈ j.line me mvs) :
    (∃ key value t, x = .append key value t ∧ .append key value t ∈ mvs) ∨
      (∃ key, x = .purge key ∧ .purge key ∈ mvs) ∨ ∃ ticket, x = .flush ticket := by
  induction mvs generalizing j with
  | nil => simp [line, along] at hx
  | cons mv mvs ih =>
      rcases List.mem_append.1 hx with hx | hx
      · have hoffered : j.offered? mv = some x := by
          rw [accepted, Option.mem_toList] at hx
          exact (Option.filter_eq_some_iff.1 hx).1
        cases mv <;> simp only [offered?, Option.some.injEq, reduceCtorEq] at hoffered <;>
          subst hoffered
        · exact .inl ⟨_, _, _, rfl, List.mem_cons_self⟩
        · exact .inr (.inl ⟨_, rfl, List.mem_cons_self⟩)
        · exact .inr (.inr ⟨_, rfl⟩)
      · rcases ih hx with ⟨key, value, t, rfl, hmv⟩ | ⟨key, rfl, hmv⟩ | ⟨ticket, rfl⟩
        · exact .inl ⟨_, _, _, rfl, List.mem_cons_of_mem mv hmv⟩
        · exact .inr (.inl ⟨_, rfl, List.mem_cons_of_mem mv hmv⟩)
        · exact .inr (.inr ⟨_, rfl⟩)

theorem isRoutine_of_mem_line {mvs : List (Move α)}
    (hmvs : ∀ {key value t}, .append key value t ∈ mvs → t = ttl) {x : LogWrite}
    (hx : x ∈ j.line me mvs) : x.isRoutine ttl = true := by
  rcases mem_line hx with ⟨key, value, t, rfl, hmv⟩ | ⟨key, rfl, -⟩ | ⟨ticket, rfl⟩
  · exact decide_eq_true (hmvs hmv)
  · rfl
  · rfl

/-- An attempt is made by the writer or aside. -/
theorem mem_attempted {mvs : List (Move α)} {a : Attempt} (ha : a ∈ j.attempted me mvs) :
    a ∈ j.made me mvs ∨ .aside a.write ∈ mvs := by
  induction mvs generalizing j with
  | nil => simp [attempted, along] at ha
  | cons mv mvs ih =>
      rcases List.mem_append.1 ha with ha | ha
      · cases mv with
        | aside x =>
            rw [List.mem_singleton.1 ha]
            exact .inr List.mem_cons_self
        | _ => exact .inl (List.mem_append_left _ ha)
      · rcases ih ha with ha | ha
        · exact .inl (List.mem_append_right _ ha)
        · exact .inr (List.mem_cons_of_mem mv ha)

/-- Where all that is handed over is to live equally long, so is all that is attempted. -/
theorem isRoutine_of_mem_attempted (store : Store α) (capacity : Nat) {mvs : List (Move α)}
    (hmvs : ∀ mv ∈ mvs, mv.isRoutine ttl = true) {a : Attempt}
    (ha : a ∈ (Journal.new store capacity).attempted me mvs) : a.write.isRoutine ttl = true := by
  rcases mem_attempted ha with ha | ha
  · have horder := (sequenced_new store capacity me mvs).order
    have httl : ∀ {key value t}, Move.append key value t ∈ mvs → t = ttl := fun hmv =>
      of_decide_eq_true (hmvs _ hmv)
    exact isRoutine_of_mem_line httl (horder.subset (List.mem_map_of_mem ha))
  · exact hmvs _ ha

end Journal

namespace Hub

/-! ### A server's log -/

/-- The attempts at writes in a series of pieces. -/
def attempts (h : Hub) (ps : List Piece) : List Attempt :=
  h.journal.attempted .writer (h.logSides ps)

/-- All that a server stores lives equally long. -/
theorem isRoutine_of_mem_attempts (tuning : Tuning) (outages : Outages) (gated : Bool)
    (wall : Instant) {ps : List Piece} (hps : ∀ p ∈ ps, p.isRaw = false) {a : Attempt}
    (ha : a ∈ (new tuning outages gated wall).attempts ps) :
    a.write.isRoutine tuning.ttl = true := by
  -- a server starts its writer before anything else
  let mvs := Journal.Move.start :: (new tuning outages gated wall).logSides ps
  have hmvs : ∀ mv ∈ mvs, mv.isRoutine tuning.ttl = true := by
    intro mv hmv
    rcases List.mem_cons.1 hmv with rfl | hmv
    · rfl
    · exact isRoutine_logSides hps hmv
  have hmem : a ∈ (Journal.new (Store.new outages gated) tuning.logQueue).attempted .writer mvs :=
    ha
  exact Journal.isRoutine_of_mem_attempted _ _ hmvs hmem

/-- Unless somebody writes to the log past the server, what is live under a key was left there by
the attempts of a stretch of the run that lasts to this moment. It has no deadline just if for each
of those that left a value setting the deadline was out of order, or the clock cannot show it;
otherwise its deadline lies ahead, and at most the time to live after the last of its values was
left. -/
theorem live_accounted (tuning : Tuning) (outages : Outages) (gated : Bool) (wall : Instant)
    {ps : List Piece} (hps : ∀ p ∈ ps, p.isRaw = false) (key : String) :
    let h := (new tuning outages gated wall).pieces ps
    ∀ e, h.journal.store.log.live? h.journal.now key = some e →
      ∃ run, run <:+ (new tuning outages gated wall).attempts ps ∧
        e.values = run.filterMap (Attempt.stored? key) ∧ e.values ≠ [] ∧
        (e.deadline = none ↔ ∀ a ∈ run, (a.stored? key).isSome = true →
          a.outages.expire ≠ none ∨ Time.limit ≤ a.now + tuning.ttl) ∧
        ∀ deadline, e.deadline = some deadline → h.journal.now < deadline ∧
          ∃ last, (run.filter fun a => (a.stored? key).isSome).getLast? = some last ∧
            deadline ≤ last.now + tuning.ttl := by
  intro h e he
  have hlogs := logs_pieces (new tuning outages gated wall) ps
  have hroutine : ∀ mv ∈ (new tuning outages gated wall).logSides ps,
      mv.isRoutine tuning.ttl = true := fun mv hmv => isRoutine_logSides hps hmv
  have hempty : Attempt.Accounted key []
      ((new tuning outages gated wall).journal.store.log.live? Time.start key) := by
    show Attempt.Accounted key [] none
    exact Attempt.accounted_none key []
  have haccounted := Journal.accounted_goes hempty .writer hroutine
  rw [← hlogs.journal, List.nil_append] at haccounted
  obtain ⟨run, hrun, hvalues, hne, hdeadline⟩ := haccounted e he
  have hequal : ∀ a ∈ run, a.write.isRoutine tuning.ttl = true := fun a ha =>
    isRoutine_of_mem_attempts tuning outages gated wall hps (hrun.subset ha)
  refine ⟨run, hrun, hvalues, hne, ?_, fun deadline hsome => ⟨?_, ?_⟩⟩
  · rw [hdeadline, List.getLast?_eq_none_iff, List.filterMap_eq_nil_iff]
    exact forall₂_congr fun a ha => Attempt.dated?_eq_none_iff (hequal a ha)
  · have hlive := (ExpiringLog.live?_eq_some.1 he).2
    simpa [LogEntry.expired, hsome] using hlive
  · refine Attempt.exists_last_stored ?_ hequal (hdeadline ▸ hsome)
    exact (Journal.pairwise_attempted _ _ _).sublist hrun.sublist

/-- A first message whose deadline cannot be set, and one that renews it. -/
def datedLate : List Piece :=
  [.react (.outages ⟨none, none, some "down", none, none⟩), .react (.direct ⟨"a"⟩ ⟨"b"⟩ "x"),
    .react (.advance 5), .react (.outages Outages.none), .react (.direct ⟨"a"⟩ ⟨"b"⟩ "y"),
    .react (.advance 7)]

theorem live_accounted_dated_late :
    (∀ p ∈ datedLate, p.isRaw = false) ∧
      let h := (new Tuning.default Outages.none false default).pieces datedLate
      let e := LogEntry.mk
        [DirectRecord.json ⟨⟨"a"⟩, ⟨"b"⟩, "x", true⟩, DirectRecord.json ⟨⟨"a"⟩, ⟨"b"⟩, "y", true⟩]
        (some (Time.start + 5 + Tuning.default.ttl))
      h.journal.store.log.live? h.journal.now "dm:a:b" = some e ∧
        ∃ run, run <:+ (new Tuning.default Outages.none false default).attempts datedLate ∧
          e.values = run.filterMap (Attempt.stored? "dm:a:b") ∧
          ∃ last, (run.filter fun a => (a.stored? "dm:a:b").isSome).getLast? = some last ∧
            Time.start + 5 + Tuning.default.ttl ≤ last.now + Tuning.default.ttl := by
  have hps : ∀ p ∈ datedLate, p.isRaw = false := by
    intro p hp
    simp only [datedLate, List.mem_cons, List.not_mem_nil, or_false] at hp
    rcases hp with rfl | rfl | rfl | rfl | rfl | rfl <;> rfl
  refine ⟨hps, ?_⟩
  intro h e
  have hlive : h.journal.store.log.live? h.journal.now "dm:a:b" = some e := by decide +kernel
  obtain ⟨run, hrun, hvalues, -, -, hbound⟩ :=
    live_accounted Tuning.default Outages.none false default hps "dm:a:b" e hlive
  exact ⟨hlive, run, hrun, hvalues, (hbound _ rfl).2⟩

/-- While deadlines cannot be set a direct message and one to a room are stored, and both outlive
the time to live. -/
theorem stored_without_deadline :
    let down : Outages := ⟨none, none, some "down", none, none⟩
    let h := (new Tuning.default down false default).through
      [⟨default, .direct ⟨"a"⟩ ⟨"b"⟩ "x"⟩, ⟨default, .submit ⟨"a"⟩ ⟨"r"⟩ "y"⟩,
        ⟨default, .advance Tuning.default.ttl⟩]
    (h.step (.getDirect ⟨"a"⟩ ⟨"b"⟩)).1 = .directs [⟨⟨"a"⟩, ⟨"b"⟩, "x", true⟩] ∧
      ["dm:a:b", "chat:r"].map (fun key =>
        (h.journal.store.log.live? h.journal.now key).map LogEntry.deadline) =
          [some none, some none] := by
  exact ⟨rfl, rfl⟩

end Hub

end ChatServer
