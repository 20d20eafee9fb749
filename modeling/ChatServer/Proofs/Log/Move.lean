import ChatServer.Proofs.Log.Attempt

/-!
A journal at the finest grain. Whoever hands writes over, the writer, the gate, the clock and those
who use the store past the line make their moves in any order. A run is a list of moves, and what is
of interest in it is gathered along the run: the writes accepted, the attempts made.
-/

namespace ChatServer

/-- Calls that only look. -/
def LogCall.isLook : LogCall → Bool
  | .range .. | .contains _ => true
  | _ => false

/-- Whether a write gives a key no other time to live than `ttl`. -/
def LogWrite.isRoutine (ttl : Duration) : LogWrite → Bool
  | .append _ _ t => t = ttl
  | _ => true

namespace Journal

/-- What can happen to a journal. -/
inductive Move (α : Type)
  | append (key value : String) (ttl : Duration)
  | purge (key : String)
  | flush
  | start
  | discard
  | release
  /-- The writer makes a move if it can. -/
  | turn
  /-- The writer joins the line for permits if it waits for one. -/
  | wait
  /-- Permits come, or others ask for them. -/
  | gate (g : Option (Gate α))
  | outages (o : Outages)
  | advance (d : Duration)
  /-- A write is attempted at once, past the line. -/
  | aside (x : LogWrite)
  | call (c : LogCall)
  /-- A call past the outages. -/
  | callDirect (c : LogCall)
  /-- What has expired is taken out. -/
  | sweep

namespace Move

variable {α : Type}

/-- Moves of those who share nothing but the line: whoever fills it, the writer, and what befalls
them. -/
def isOwn : Move α → Bool
  | .aside _ | .call _ | .callDirect _ | .sweep => false
  | _ => true

/-- Moves that write to the log only as a write is attempted, and give keys no other time to live
than `ttl`. -/
def isRoutine (ttl : Duration) : Move α → Bool
  | .append _ _ t => t = ttl
  | .aside x => x.isRoutine ttl
  | .call c => c.isLook
  | .callDirect _ => false
  | _ => true

end Move

variable {α β : Type} [DecidableEq α]

/-- The journal after a move; `me` is the name in which the writer asks for leave. -/
def go (me : α) (j : Journal α) : Move α → Journal α
  | .append key value ttl => (j.push (.append key value ttl)).2
  | .purge key => (j.push (.purge key)).2
  | .flush => j.pushFlush.2.2
  | .start => { j with writer := j.writer.start.2 }
  | .discard => { j with writer := j.writer.discard }
  | .release => { j with writer := j.writer.release }
  | .turn =>
    match j.writer.turn j.store j.now me with
    | none => j
    | some (writer, store) => { j with writer, store }
  | .wait => { j with store := j.writer.wait j.store me }
  | .gate g => { j with store := { j.store with gate := g } }
  | .outages o => { j with store := { j.store with outages := o } }
  | .advance d => j.advance d
  | .aside x => { j with store := j.store.apply j.now x }
  | .call c => { j with store := (j.store.call j.now c).2 }
  | .callDirect c => { j with store := (j.store.callDirect j.now c).2 }
  | .sweep => { j with store := { j.store with log := j.store.log.purge j.now } }

/-- The journal after a series of moves. -/
def goes (me : α) (j : Journal α) (mvs : List (Move α)) : Journal α := mvs.foldl (go me) j

@[simp] theorem goes_nil (me : α) (j : Journal α) : j.goes me [] = j := rfl

@[simp] theorem goes_cons (me : α) (j : Journal α) (mv : Move α) (mvs : List (Move α)) :
    j.goes me (mv :: mvs) = (j.go me mv).goes me mvs := rfl

@[simp] theorem goes_append (me : α) (j : Journal α) (mvs mvs' : List (Move α)) :
    j.goes me (mvs ++ mvs') = (j.goes me mvs).goes me mvs' := List.foldl_append

/-- What `f` finds in each move of a run, in order. -/
def along (me : α) (f : Journal α → Move α → List β) (j : Journal α) : List (Move α) → List β
  | [] => []
  | mv :: mvs => f j mv ++ along me f (j.go me mv) mvs

theorem along_append (me : α) (f : Journal α → Move α → List β) (j : Journal α)
    (mvs mvs' : List (Move α)) :
    along me f j (mvs ++ mvs') = along me f j mvs ++ along me f (j.goes me mvs) mvs' := by
  induction mvs generalizing j with
  | nil => rfl
  | cons mv mvs ih => rw [List.cons_append, along, ih, along, List.append_assoc, goes_cons]

/-! ### The line -/

/-- The write that a move hands over. -/
def offered? (j : Journal α) : Move α → Option LogWrite
  | .append key value ttl => some (.append key value ttl)
  | .purge key => some (.purge key)
  | .flush => some (.flush j.ticket)
  | _ => none

/-- The write that a move hands over, if it is accepted. -/
def accepted (j : Journal α) (mv : Move α) : List LogWrite :=
  ((j.offered? mv).filter fun x => (j.writer.push x).1.isOk).toList

/-- Whether a move hands over a write that is refused. -/
def refuses (j : Journal α) (mv : Move α) : Bool :=
  (j.offered? mv).any fun x => !(j.writer.push x).1.isOk

/-- The writes that are accepted in a run. -/
def line (me : α) (j : Journal α) (mvs : List (Move α)) : List LogWrite := j.along me accepted mvs

/-- A run without the moves that are refused. -/
def heeded (me : α) (j : Journal α) (mvs : List (Move α)) : List (Move α) :=
  j.along me (fun j mv => if j.refuses mv then [] else [mv]) mvs

/-! ### Attempts -/

/-- The attempt that a write is at this moment. -/
def attempt (j : Journal α) (x : LogWrite) : Attempt := ⟨j.now, j.store.outages, x⟩

/-- The attempt that the writer makes in a move: it attempts the first write in line. -/
def madeIn (me : α) (j : Journal α) : Move α → List Attempt
  | .turn =>
    if (j.writer.turn j.store j.now me).isSome then j.writer.queue.head?.toList.map j.attempt
    else []
  | _ => []

/-- The attempt that anybody makes in a move. -/
def attemptedIn (me : α) (j : Journal α) : Move α → List Attempt
  | .aside x => [j.attempt x]
  | mv => j.madeIn me mv

/-- The attempts that the writer makes in a run. -/
def made (me : α) (j : Journal α) (mvs : List (Move α)) : List Attempt := j.along me (madeIn me) mvs

/-- All attempts at writes in a run. -/
def attempted (me : α) (j : Journal α) (mvs : List (Move α)) : List Attempt :=
  j.along me (attemptedIn me) mvs

/-- At most one attempt is made in a move. -/
theorem attemptedIn_cases (me : α) (j : Journal α) (mv : Move α) :
    j.attemptedIn me mv = [] ∨ ∃ a, j.attemptedIn me mv = [a] := by
  cases mv with
  | turn =>
      simp only [attemptedIn, madeIn]
      split
      · cases j.writer.queue <;> simp
      · exact .inl rfl
  | aside x => exact .inr ⟨_, rfl⟩
  | _ => exact .inl rfl

/-- A move of the writer: it ends, or the first write in line is attempted. -/
theorem go_turn (me : α) (j : Journal α) :
    (j.go me .turn = j ∧ j.madeIn me .turn = []) ∨
      (j.writer.phase = .running ∧ j.writer.queue = [] ∧ j.madeIn me .turn = [] ∧
        j.go me .turn = { j with writer := { j.writer with phase := .finished } }) ∨
      ∃ x rest gate, j.writer.phase = .running ∧ j.writer.queue = x :: rest ∧
        j.madeIn me .turn = [j.attempt x] ∧
        j.go me .turn = { j with
          writer := (j.writer.attempt { j.store with gate } j.now x rest).1
          store := ({ j.store with gate } : Store α).apply j.now x } := by
  cases hturn : j.writer.turn j.store j.now me with
  | none => exact .inl ⟨by simp [go, hturn], by simp [madeIn, hturn]⟩
  | some moved =>
      obtain ⟨w, s⟩ := moved
      obtain ⟨hphase, ⟨hqueue, -, rfl, rfl⟩ | ⟨x, rest, hqueue, -, hattempt⟩⟩ :=
        LogWriter.turn_cases hturn
      · exact .inr (.inl ⟨hphase, hqueue, by simp [madeIn, hqueue], by simp [go, hturn]⟩)
      · obtain ⟨gate, hgate⟩ := j.store.exists_gate me x.isAppend
        rw [hgate] at hattempt
        have hw : w = (j.writer.attempt { j.store with gate } j.now x rest).1 :=
          congrArg Prod.fst hattempt
        have hs : s = ({ j.store with gate } : Store α).apply j.now x :=
          (congrArg Prod.snd hattempt).trans (j.writer.attempt_cases _ j.now x rest).1
        exact .inr (.inr ⟨x, rest, gate, hphase, hqueue, by simp [madeIn, hturn, hqueue], by
          simp [go, hturn, hw, hs]⟩)

/-- Time does not go back, and an attempt is made at the time of its move. -/
theorem now_go (me : α) (j : Journal α) (mv : Move α) :
    j.now ≤ (j.go me mv).now ∧
      (j.attemptedIn me mv ≠ [] → (j.go me mv).now = j.now) ∧
      ∀ a ∈ j.attemptedIn me mv, a.now = j.now := by
  cases mv with
  | turn =>
      rcases j.go_turn me with ⟨hgo, hmade⟩ | ⟨-, -, hmade, hgo⟩ | ⟨x, rest, gate, -, -, hmade, hgo⟩
      · simp [attemptedIn, hgo, hmade]
      · simp [attemptedIn, hgo, hmade]
      · simp [attemptedIn, hgo, hmade, attempt]
  | aside x => simp [attemptedIn, go, attempt]
  | advance d => exact ⟨Nat.le_add_right _ _, fun h => absurd rfl h, fun a ha => absurd ha (by
      simp [attemptedIn, madeIn])⟩
  | _ => simp [attemptedIn, madeIn, go, push, pushFlush]

/-- Time passes in no other way than by moves that say so. -/
theorem now_goes_of_forall {me : α} {j : Journal α} {mvs : List (Move α)}
    (h : ∀ d, .advance d ∉ mvs) : (j.goes me mvs).now = j.now := by
  induction mvs generalizing j with
  | nil => rfl
  | cons mv mvs ih =>
      have hmv : (j.go me mv).now = j.now := by
        cases mv with
        | turn =>
            rcases j.go_turn me with ⟨hgo, -⟩ | ⟨-, -, -, hgo⟩ | ⟨x, rest, gate, -, -, -, hgo⟩ <;>
              rw [hgo]
        | advance d => exact absurd List.mem_cons_self (h d)
        | _ => rfl
      exact (ih fun d hd => h d (List.mem_cons_of_mem mv hd)).trans hmv

/-- Where nobody works past the line the log changes by the writer's attempts alone. -/
theorem log_go (me : α) (j : Journal α) {mv : Move α} (h : mv.isOwn = true) :
    (j.go me mv).store.log = (j.madeIn me mv).foldl Attempt.perform j.store.log := by
  cases mv with
  | turn =>
      rcases j.go_turn me with ⟨hgo, hmade⟩ | ⟨-, -, hmade, hgo⟩ | ⟨x, rest, gate, -, -, hmade, hgo⟩
      · rw [hgo, hmade]
        rfl
      · rw [hgo, hmade]
        rfl
      · rw [hgo, hmade]
        exact Store.log_apply { j.store with gate } j.now x
  | wait =>
      rw [go, LogWriter.wait_eq]
      rfl
  | aside x | call c | callDirect c | sweep => simp [Move.isOwn] at h
  | _ => rfl

theorem log_goes (me : α) (j : Journal α) {mvs : List (Move α)} (h : ∀ mv ∈ mvs, mv.isOwn = true) :
    (j.goes me mvs).store.log = (j.made me mvs).foldl Attempt.perform j.store.log := by
  induction mvs generalizing j with
  | nil => rfl
  | cons mv mvs ih =>
      rw [goes_cons, ih _ fun mv' hmv' => h mv' (List.mem_cons_of_mem mv hmv'),
        j.log_go me (h mv List.mem_cons_self), ← List.foldl_append]
      rfl

/-! ### Events as moves -/

/-- The moves of a writer that runs until it can only wait. -/
def settling (me : α) (j : Journal α) : Nat → List (Move α)
  | 0 => []
  | fuel + 1 =>
    match j.writer.turn j.store j.now me with
    | none => [.wait]
    | some _ => .turn :: settling me (j.go me .turn) fuel

theorem goes_settling (me : α) (j : Journal α) (fuel : Nat) :
    j.goes me (j.settling me fuel) = { j with
      writer := (j.writer.runFor j.store j.now me fuel).1
      store := (j.writer.runFor j.store j.now me fuel).2 } := by
  induction fuel generalizing j with
  | zero => rfl
  | succ fuel ih =>
      cases hturn : j.writer.turn j.store j.now me with
      | none => simp [settling, LogWriter.runFor, hturn, go]
      | some moved => simp [settling, LogWriter.runFor, hturn, go, ih]

/-- The moves of settling. -/
def settleScript (me : α) (j : Journal α) : List (Move α) :=
  j.settling me (j.writer.queue.length + 2)

theorem goes_settleScript (me : α) (j : Journal α) :
    j.goes me (j.settleScript me) = j.settle me := j.goes_settling me _

/-- The moves of a write that is handed over if someone still can. -/
def offerScript (j : Journal Unit) (mv : Move Unit) : List (Move Unit) :=
  if j.writer.fed then [mv] else []

/-- The moves of an event. -/
def script (j : Journal Unit) : Event → List (Move Unit)
  | .append key value ttl => j.offerScript (.append key value ttl)
  | .purge key => j.offerScript (.purge key)
  | .flush => j.offerScript .flush ++ (j.goes () (j.offerScript .flush)).settleScript ()
  | .start => [.start]
  | .discard => [.discard]
  | .release => [.release]
  | .settle => j.settleScript ()
  | .ended => []
  | .permits n => [.gate (j.store.addPermits n).gate]
  | .outages o => [.outages o]
  | .size => [.sweep]
  | .call c => [.callDirect c]
  | .advance d => j.settleScript () ++ [.advance d]

theorem step_offer (j : Journal Unit) (x : LogWrite) :
    (j.offer x).2 = if j.writer.fed then (j.push x).2 else j := by
  unfold offer
  cases j.writer.fed with
  | false => rfl
  | true =>
      rcases hpush : j.push x with ⟨_ | _, j'⟩ <;> simp

/-- An event is its script. -/
theorem goes_script (j : Journal Unit) (e : Event) : j.goes () (j.script e) = (j.step e).2 := by
  cases e with
  | append key value ttl =>
      rw [step, step_offer, script, offerScript]
      split <;> rfl
  | purge key =>
      rw [step, step_offer, script, offerScript]
      split <;> rfl
  | flush =>
      rw [script, goes_append, goes_settleScript, step, offerScript]
      cases j.writer.fed <;> rfl
  | settle => exact j.goes_settleScript ()
  | advance d =>
      rw [script, goes_append, goes_settleScript]
      rfl
  | _ => rfl

/-- The moves of a series of events. -/
def scripts (j : Journal Unit) : List Event → List (Move Unit)
  | [] => []
  | e :: es => j.script e ++ (j.step e).2.scripts es

/-- What can be reached by events can be reached by moves. -/
theorem goes_scripts (j : Journal Unit) (es : List Event) :
    j.goes () (j.scripts es) = es.foldl (fun j e => (j.step e).2) j := by
  induction es generalizing j with
  | nil => rfl
  | cons e es ih => rw [scripts, goes_append, goes_script, ih, List.foldl_cons]

end Journal

end ChatServer
