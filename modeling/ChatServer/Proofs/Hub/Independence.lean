import ChatServer.Proofs.Hub.Front
import ChatServer.Proofs.Hub.Run

/-!
What users of rooms, listeners and pumps see does not depend on the log. Two servers whose fronts
go through the same events show the same, however the log of either fails, waits or dies in the
meantime, and whatever is asked of it.
-/

namespace ChatServer.Hub

/-! ### Same fronts answer alike -/

theorem sameFront_dropHeld {h g : Hub} (hg : SameFront h g) (name : Label) :
    SameFront (h.dropHeld name) (g.dropHeld name) := by
  obtain ⟨tuning, journal, wall, rfl⟩ := hg
  refine ⟨tuning, journal, wall, ?_⟩
  unfold dropHeld
  dsimp only
  cases h.held.get? name <;> rfl

theorem sameFront_dropPump {h g : Hub} (hg : SameFront h g) (name : Label) :
    SameFront (h.dropPump name) (g.dropPump name) := by
  obtain ⟨tuning, journal, wall, rfl⟩ := hg
  refine ⟨tuning, journal, wall, ?_⟩
  unfold dropPump
  dsimp only
  cases h.pumps.get? name <;> rfl

theorem sameFront_openListener {h g : Hub} (hg : SameFront h g) (room : RoomId) :
    (g.openListener room).1 = (h.openListener room).1 ∧
      SameFront (h.openListener room).2 (g.openListener room).2 := by
  obtain ⟨tuning, journal, wall, rfl⟩ := hg
  obtain ⟨_, registry, _, _, _, managed, _, _, _, _⟩ := h
  unfold openListener
  dsimp only
  cases managed with
  | false => exact ⟨rfl, tuning, journal, wall, rfl⟩
  | true =>
      cases registry.canOpen with
      | true => exact ⟨rfl, tuning, journal, wall, rfl⟩
      | false => exact ⟨rfl, tuning, _, wall, rfl⟩

/-- An event of the front shows the same on the same front and leaves the same. Writes go to the
writer, but nothing comes back from there. -/
theorem sameFront_react {h g : Hub} {e : Event} (he : e.isFront = true) (hg : SameFront h g) :
    (g.react e).1 = (h.react e).1 ∧ SameFront (h.react e).2 (g.react e).2 := by
  cases e with
  | listen name room =>
      obtain ⟨hfst, hsnd⟩ := sameFront_openListener hg room
      rcases hh : h.openListener room with ⟨l, h'⟩
      rcases hh' : g.openListener room with ⟨l', g'⟩
      rw [hh, hh'] at hfst hsnd
      dsimp only at hfst hsnd
      subst hfst
      simp only [react, hh, hh']
      cases l' with
      | none => exact ⟨rfl, hsnd⟩
      | some l =>
          obtain ⟨tuning, journal, wall, hdrop⟩ := sameFront_dropHeld hsnd name
          simp only [hdrop, true_and]
          exact ⟨tuning, journal, wall, rfl⟩
  | pump name capacity heading =>
      obtain ⟨tuning, journal, wall, hdrop⟩ := sameFront_dropPump hg name
      obtain ⟨tuning', journal', wall', rfl⟩ := hg
      simp only [react, hdrop]
      cases h.held.get? name with
      | none => exact ⟨rfl, tuning', journal', wall', rfl⟩
      | some l =>
          cases Channel.isCapacity capacity with
          | false => exact ⟨rfl, tuning', journal', wall', rfl⟩
          | true => exact ⟨rfl, tuning, journal, wall, rfl⟩
  | drop name =>
      have hdrop := sameFront_dropHeld hg name
      obtain ⟨tuning, journal, wall, rfl⟩ := hg
      exact ⟨rfl, hdrop⟩
  | delete room =>
      obtain ⟨tuning, journal, wall, rfl⟩ := hg
      simp only [react, delete, true_and]
      cases (h.registry.delete room).1 with
      | true => exact ⟨tuning, _, wall, rfl⟩
      | false => exact ⟨tuning, journal, wall, rfl⟩
  | submit sender room text =>
      -- listeners see no civil time, which is all that the payloads could differ in
      obtain ⟨tuning, journal, wall, rfl⟩ := hg
      exact ⟨rfl, tuning, _, wall, rfl⟩
  | listenAbandoned room =>
      obtain ⟨tuning, journal, wall, rfl⟩ := hg
      obtain ⟨_, registry, _, _, _, managed, _, _, _, _⟩ := h
      simp only [react, openAbandoned]
      cases managed with
      | false => exact ⟨rfl, tuning, journal, wall, rfl⟩
      | true =>
          cases registry.canOpen with
          | true => exact ⟨rfl, tuning, journal, wall, rfl⟩
          | false => exact ⟨rfl, tuning, _, wall, rfl⟩
  | close name room =>
      obtain ⟨tuning, journal, wall, rfl⟩ := hg
      simp only [react]
      cases h.opened.get? name <;> exact ⟨rfl, tuning, journal, wall, rfl⟩
  | closeHeld name | receive name | tryReceive name =>
      obtain ⟨tuning, journal, wall, rfl⟩ := hg
      simp only [react]
      cases h.held.get? name <;> exact ⟨rfl, tuning, journal, wall, rfl⟩
  | sinkReceive name =>
      obtain ⟨tuning, journal, wall, rfl⟩ := hg
      simp only [react]
      cases (h.pumps.get? name).filter fun p => p.sink.receiving <;>
        exact ⟨rfl, tuning, journal, wall, rfl⟩
  | cancel name =>
      obtain ⟨tuning, journal, wall, rfl⟩ := hg
      simp only [react]
      cases h.pumps.get? name with
      | none => exact ⟨rfl, tuning, journal, wall, rfl⟩
      | some p =>
          dsimp only
          cases p.asked <;> exact ⟨rfl, tuning, journal, wall, rfl⟩
  | create room | count room | roomExists room | sinkDrop name | pumpEnd name | shutdown =>
      obtain ⟨tuning, journal, wall, rfl⟩ := hg
      exact ⟨rfl, tuning, journal, wall, rfl⟩
  | _ => simp [Event.isFront] at he

/-! ### Steps -/

theorem refuses_of_sameFront {h g : Hub} (hg : SameFront h g) (e : Event) :
    g.refuses e = h.refuses e := by
  obtain ⟨tuning, journal, wall, rfl⟩ := hg
  rfl

/-- What is refused on one server is refused for the same reason on one with the same front. -/
theorem step_fst_of_refuses {h g : Hub} {e : Event} (hg : SameFront h g)
    (hr : h.refuses e = true) : (g.step e).1 = (h.step e).1 := by
  obtain ⟨tuning, journal, wall, rfl⟩ := hg
  simp only [refuses, Bool.or_eq_true] at hr
  unfold step
  dsimp only
  by_cases hh : (e.needsHandle && !h.handle) = true
  · rw [if_pos hh, if_pos hh]
  · have hm := hr.resolve_left hh
    rw [if_neg hh, if_neg hh, if_pos hm, if_pos hm]

theorem connections_react {h : Hub} {e : Event} (he : e.isFront = true) :
    (h.react e).2.connections = h.connections := by
  cases frontChange_react (h := h) he with
  | handed registry handle opened held pumps kept eq => rw [eq]
  | dismissed registry opened held nothing eq => rw [eq]

/-- An event of the front does the same to the same steady fronts, and leaves them steady. -/
theorem sameFront_step {h g : Hub} {e : Event} (he : e.isFront = true) (hs : h.Steady)
    (hg : SameFront h g) :
    (g.step e).1 = (h.step e).1 ∧ SameFront (h.step e).2.2 (g.step e).2.2 ∧
      (h.step e).2.2.Steady := by
  cases hr : h.refuses e with
  | true =>
      have hr' : g.refuses e = true := by rw [refuses_of_sameFront hg, hr]
      rw [(step_of_refuses hr).2, (step_of_refuses hr').2]
      exact ⟨step_fst_of_refuses hg hr, hg, hs⟩
  | false =>
      have hr' : g.refuses e = false := by rw [refuses_of_sameFront hg, hr]
      -- the event itself, and then the background work, which ends in the same front however
      -- often the two servers go round
      have ho := orderly_react hs.orderly he
      have hc : (h.react e).2.connections = Table.empty :=
        (connections_react he).trans hs.connections
      obtain ⟨hanswer, hfront⟩ := sameFront_react he hg
      have hsettle := sameFront_settle ho hc hfront
      have hsteady := steady_settle ho hc
      have hsteady' := hsteady.of_sameFront hsettle
      rw [step_eq hr (.inl he) hsteady.connections, step_eq hr' (.inl he) hsteady'.connections]
      dsimp only
      rw [conclude_fst _ _ _ he, conclude_fst _ _ _ he]
      exact ⟨hanswer, hsettle, hsteady⟩

/-- An event of the log side does nothing to a steady front. -/
theorem sameFront_step_logSide {h : Hub} {e : Event} (he : e.isLogSide = true) (hs : h.Steady) :
    SameFront h (h.step e).2.2 := by
  cases hr : h.refuses e with
  | true =>
      rw [(step_of_refuses hr).2]
      exact .refl h
  | false =>
      obtain ⟨journal, hreact⟩ := react_logSide (h := h) he
      have hfront : SameFront h (h.react e).2 := ⟨h.tuning, journal, h.wall, hreact⟩
      have hsteady := hs.of_sameFront hfront
      have hsettle := sameFront_settle_of_steady hsteady
      have hstep := step_eq hr (.inr he) (hsteady.of_sameFront hsettle).connections
      have hafter : (h.step e).2.2 = (h.react e).2.settle := by rw [hstep]
      rw [hafter]
      exact hfront.trans hsettle

theorem steady_new (tuning : Tuning) (outages : Outages) (gated : Bool) (wall : Instant) :
    (new tuning outages gated wall).Steady where
  orderly :=
    { sound := Registry.sound_new _
      heldBelow := by simp [new]
      pumpedBelow := by simp [new]
      heldApart := by simp [new]
      pumpedApart := by simp [new]
      apart := by simp [new] }
  resting := by simp [Resting, new]
  connections := rfl
  attended _ := rfl

/-! ### Two servers -/

/-- What a server goes through: a moment of its life, or a mishap of its log, after which the
store, the writer and the line before it are anything at all. -/
inductive Turn
  | moment (m : Moment)
  | mishap (journal : Journal Task)

/-- The event of the front that a turn brings. -/
def Turn.front? : Turn → Option Event
  | .moment m => if m.event.isFront then some m.event else none
  | .mishap _ => none

/-- Turns that have nothing to do with connections. -/
def Turn.isApart : Turn → Bool
  | .moment m => m.event.isFront || m.event.isLogSide
  | .mishap _ => true

/-- What the events of the front show in a series of turns. -/
def frontAnswers (h : Hub) : List Turn → List Answer
  | [] => []
  | .moment m :: ts =>
    let (a, after) := h.face m
    if m.event.isFront then a :: after.frontAnswers ts else after.frontAnswers ts
  | .mishap journal :: ts => frontAnswers { h with journal } ts

/-- What a series of events shows, one after another and nothing between them. -/
def answers (h : Hub) : List Event → List Answer
  | [] => []
  | e :: es => (h.step e).1 :: (h.step e).2.2.answers es

theorem sameFront_dated (h : Hub) (wall : Instant) : SameFront h (h.dated wall) :=
  ⟨h.tuning, h.journal, wall, rfl⟩

/-- Whatever comes between them, the events of the front show what they show by themselves. -/
theorem frontAnswers_eq {h g : Hub} (hs : h.Steady) (hg : SameFront h g) {ts : List Turn}
    (hapart : ∀ t ∈ ts, t.isApart = true) :
    g.frontAnswers ts = h.answers (ts.filterMap Turn.front?) := by
  induction ts generalizing h g with
  | nil => rfl
  | cons t ts ih =>
      have hapart' : ∀ t ∈ ts, t.isApart = true :=
        fun t ht => hapart t (List.mem_cons_of_mem _ ht)
      cases t with
      | mishap journal =>
          have hg' : SameFront h { g with journal } := hg.trans ⟨g.tuning, journal, g.wall, rfl⟩
          rw [List.filterMap_cons_none rfl]
          exact ih hs hg' hapart'
      | moment m =>
          -- the front goes on with an event of its own, and stands still at one of the log side
          have hg' := hg.trans (sameFront_dated g m.wall)
          cases he : m.event.isFront with
          | true =>
              obtain ⟨hanswer, hfront, hsteady⟩ := sameFront_step he hs hg'
              have hrest := ih hsteady hfront hapart'
              simp [frontAnswers, face, Turn.front?, he, answers, hanswer, hrest]
          | false =>
              have hlog : m.event.isLogSide = true := by
                have happart := hapart _ List.mem_cons_self
                simpa [Turn.isApart, he] using happart
              have hfront := hg'.trans (sameFront_step_logSide hlog (hs.of_sameFront hg'))
              have hrest := ih hs hfront hapart'
              simp [frontAnswers, face, Turn.front?, he, hrest]

/-- Two servers started with the same command and subscriber buffers show the same at all events of
the front, if these are the same and come in the same order, whatever else they are started with
and whatever happens to their logs in the meantime. -/
theorem front_independent {tuning tuning' : Tuning}
    (hcommand : tuning.commandBuffer = tuning'.commandBuffer)
    (hsubscriber : tuning.subscriberBuffer = tuning'.subscriberBuffer)
    (outages outages' : Outages) (gated gated' : Bool) (wall wall' : Instant)
    {ts ts' : List Turn} (hapart : ∀ t ∈ ts, t.isApart = true)
    (hapart' : ∀ t ∈ ts', t.isApart = true)
    (hfront : ts.filterMap Turn.front? = ts'.filterMap Turn.front?) :
    (start? tuning outages gated wall).map (fun h => h.frontAnswers ts) =
      (start? tuning' outages' gated' wall').map (fun h => h.frontAnswers ts') := by
  have hsame : SameFront (new tuning outages gated wall) (new tuning' outages' gated' wall') := by
    refine ⟨tuning', (new tuning' outages' gated' wall').journal, wall', ?_⟩
    simp only [new, hsubscriber]
  have hsteady := steady_new tuning outages gated wall
  have hleft := frontAnswers_eq hsteady (.refl _) hapart
  have hright := frontAnswers_eq hsteady hsame hapart'
  have hequal : (new tuning outages gated wall).frontAnswers ts =
      (new tuning' outages' gated' wall').frontAnswers ts' := by
    rw [hleft, hright, hfront]
  unfold start?
  rw [hcommand]
  split
  · rw [Option.map_some, Option.map_some, hequal]
  · rfl

/-- A listener hears what is said to its room when all is well, and hears the same when every call
of the log fails, no append is let through and the writer dies. -/
theorem front_independent_dead_log :
    (start? Tuning.default Outages.none false default).map (fun h => h.frontAnswers
        [.moment ⟨default, .listen "l" ⟨"r"⟩⟩, .moment ⟨default, .submit ⟨"ann"⟩ ⟨"r"⟩ "hello"⟩,
          .moment ⟨default, .receive "l"⟩, .moment ⟨default, .submit ⟨"bob"⟩ ⟨"r"⟩ "well?"⟩,
          .moment ⟨default, .receive "l"⟩, .moment ⟨default, .count ⟨"r"⟩⟩]) =
      some [.opened ⟨"r"⟩, .done, .payload (some "ann: hello"), .done,
        .payload (some "bob: well?"), .count (some 1)] ∧
    (start? ⟨256, 10, 1, Duration.ofSeconds 0⟩
        ⟨some "down", some "down", some "down", some "down", some "down"⟩ true default).map
      (fun h => h.frontAnswers
        [.moment ⟨default, .listen "l" ⟨"r"⟩⟩, .moment ⟨default, .submit ⟨"ann"⟩ ⟨"r"⟩ "hello"⟩,
          .moment ⟨default, .flush⟩, .moment ⟨default, .receive "l"⟩,
          .mishap ⟨Store.new Outages.none false, { LogWriter.new 1 with phase := .dead },
            Time.start, 0⟩,
          .moment ⟨default, .submit ⟨"bob"⟩ ⟨"r"⟩ "well?"⟩, .moment ⟨default, .history ⟨"r"⟩⟩,
          .moment ⟨default, .receive "l"⟩, .moment ⟨default, .count ⟨"r"⟩⟩]) =
      some [.opened ⟨"r"⟩, .done, .payload (some "ann: hello"), .done,
        .payload (some "bob: well?"), .count (some 1)] := by
  have hwell : (start? Tuning.default Outages.none false default).map (fun h => h.frontAnswers
        [.moment ⟨default, .listen "l" ⟨"r"⟩⟩, .moment ⟨default, .submit ⟨"ann"⟩ ⟨"r"⟩ "hello"⟩,
          .moment ⟨default, .receive "l"⟩, .moment ⟨default, .submit ⟨"bob"⟩ ⟨"r"⟩ "well?"⟩,
          .moment ⟨default, .receive "l"⟩, .moment ⟨default, .count ⟨"r"⟩⟩]) =
      some [.opened ⟨"r"⟩, .done, .payload (some "ann: hello"), .done,
        .payload (some "bob: well?"), .count (some 1)] := by
    rfl
  refine ⟨hwell, ?_⟩
  rw [← hwell]
  exact (@front_independent Tuning.default ⟨256, 10, 1, Duration.ofSeconds 0⟩ rfl rfl _ _ _ _ _ _
    _ _ (by decide) (by decide) rfl).symm

end ChatServer.Hub
