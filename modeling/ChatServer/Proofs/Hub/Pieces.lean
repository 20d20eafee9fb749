import ChatServer.Proofs.Hub.Frame
import ChatServer.Proofs.Hub.Run

/-!
A run taken apart. A moment of a server is a series of small pieces of work: the event, what each
connection serves, what each pump and each stream passes on, what the writer does. The script of a
run lists its pieces in the order in which they are done, and doing them one after the other is the
run itself; so what every piece preserves every run preserves, at each of its stages.
-/

namespace ChatServer.Hub

/-- A piece of a server's work. -/
inductive Piece
  | date (wall : Instant)
  | react (e : Event)
  /-- A connection serves the first thing in its inbox. -/
  | serve (name : Label)
  | wait (name : Label)
  | pump (name : Label)
  | forward (name : Label)
  | write
  | retire
  | forget (name : Label)
  | collect

/-- Whether a piece takes connections or their frames away. -/
def Piece.clears : Piece → Bool
  | .forget _ | .collect => true
  | _ => false

/-- The server after a piece of work. -/
def piece (h : Hub) : Piece → Hub
  | .date wall => h.dated wall
  | .react e => (h.react e).2
  | .serve name => (h.serveNext name).getD h
  | .wait name => h.waitInLine name
  | .pump name => h.runPump name
  | .forward name => h.forward name
  | .write => h.runWriter
  | .retire => h.retire
  | .forget name => (h.forget name).2
  | .collect => h.collect.2

def pieces (h : Hub) (ps : List Piece) : Hub := ps.foldl piece h

@[simp] theorem pieces_nil (h : Hub) : h.pieces [] = h := rfl

@[simp] theorem pieces_cons (h : Hub) (p : Piece) (ps : List Piece) :
    h.pieces (p :: ps) = (h.piece p).pieces ps := rfl

@[simp] theorem pieces_append (h : Hub) (ps qs : List Piece) :
    h.pieces (ps ++ qs) = (h.pieces ps).pieces qs := List.foldl_append

/-- What every one of its pieces of work keeps a run keeps. -/
theorem pieces_invariant {P : Hub → Prop} {h : Hub} {ps : List Piece}
    (hstep : ∀ g : Hub, ∀ p ∈ ps, P g → P (g.piece p)) (hP : P h) : P (h.pieces ps) := by
  induction ps generalizing h with
  | nil => exact hP
  | cons p ps ih =>
      exact ih (fun g q hq => hstep g q (List.mem_cons_of_mem p hq))
        (hstep h p List.mem_cons_self hP)

/-! ### The script of a moment -/

def serveScript (h : Hub) (name : Label) : Nat → List Piece
  | 0 => []
  | fuel + 1 =>
    match h.serveNext name with
    | none => [.wait name]
    | some after => .serve name :: after.serveScript name fuel

/-- The pieces of serving a connection's inbox. -/
def inboxScript (h : Hub) (name : Label) : List Piece :=
  h.serveScript name (((h.connections.get? name).map fun c => c.inbox.length).getD 0 + 1)

/-- The pieces of serving several connections one after the other. -/
def inboxesScript (h : Hub) : List Label → List Piece
  | [] => []
  | name :: names => h.inboxScript name ++ (h.serveAll name).inboxesScript names

/-- The pieces of passing on what has been published. -/
def passScript (h : Hub) : List Piece :=
  let pumps := h.pumps.keys.map Piece.pump
  pumps ++ (h.pieces pumps).connections.keys.map Piece.forward

def roundScript (h : Hub) : List Piece :=
  let inboxes := h.inboxesScript h.connections.keys
  inboxes ++ (h.pieces inboxes).passScript ++ [.write]

def roundsScript (h : Hub) : Nat → List Piece
  | 0 => []
  | n + 1 =>
    h.roundScript ++ if h.round.permits = h.permits then [] else h.round.roundsScript n

def settleScript (h : Hub) : List Piece := h.roundsScript (h.permits + 1) ++ [.retire]

def concludeScript (a : Answer) : Event → List Piece
  | .disconnect name =>
    match a with
    | .noClient => []
    | _ => [.forget name]
  | _ => []

/-- In the end a client is forgotten at most. -/
theorem concludeScript_cases (a : Answer) (e : Event) :
    concludeScript a e = [] ∨ ∃ name, concludeScript a e = [.forget name] := by
  unfold concludeScript
  split
  · split
    · exact .inl rfl
    · exact .inr ⟨_, rfl⟩
  · exact .inl rfl

/-- The pieces of an event that is not turned away, up to the collection of what it shows. -/
def work (h : Hub) (e : Event) : List Piece :=
  .react e :: ((h.react e).2.settleScript ++ concludeScript (h.react e).1 e)

/-- The pieces of a moment. -/
def script (h : Hub) (m : Moment) : List Piece :=
  .date m.wall ::
    if (h.dated m.wall).refuses m.event then [] else (h.dated m.wall).work m.event ++ [.collect]

/-- The pieces of a series of moments. -/
def scripts (h : Hub) : List Moment → List Piece
  | [] => []
  | m :: ms => h.script m ++ (h.face m).2.scripts ms

/-! ### Doing the pieces -/

theorem pieces_serveScript (h : Hub) (name : Label) (fuel : Nat) :
    h.pieces (h.serveScript name fuel) = h.serveFor name fuel := by
  induction fuel generalizing h with
  | zero => rfl
  | succ fuel ih =>
      simp only [serveScript, serveFor]
      cases hserve : h.serveNext name with
      | none => rfl
      | some after =>
          simp only [pieces_cons, piece, hserve, Option.getD_some]
          exact ih after

theorem pieces_inboxScript (h : Hub) (name : Label) :
    h.pieces (h.inboxScript name) = h.serveAll name := h.pieces_serveScript name _

theorem pieces_inboxesScript (h : Hub) (names : List Label) :
    h.pieces (h.inboxesScript names) = names.foldl serveAll h := by
  induction names generalizing h with
  | nil => rfl
  | cons name names ih =>
      rw [inboxesScript, pieces_append, pieces_inboxScript, ih, List.foldl_cons]

theorem pieces_map_pump (h : Hub) (names : List Label) :
    h.pieces (names.map Piece.pump) = names.foldl runPump h := List.foldl_map

theorem pieces_map_forward (h : Hub) (names : List Label) :
    h.pieces (names.map Piece.forward) = names.foldl forward h := List.foldl_map

theorem pieces_passScript (h : Hub) : h.pieces h.passScript =
    h.runPumps.connections.keys.foldl forward h.runPumps := by
  rw [passScript, pieces_append, pieces_map_forward, pieces_map_pump]
  rfl

theorem pieces_roundScript (h : Hub) : h.pieces h.roundScript = h.round := by
  simp only [roundScript, pieces_append, pieces_passScript, pieces_inboxesScript]
  rfl

theorem pieces_roundsScript (h : Hub) (n : Nat) : h.pieces (h.roundsScript n) = h.rounds n := by
  induction n generalizing h with
  | zero => rfl
  | succ n ih =>
      rw [roundsScript, pieces_append, pieces_roundScript, rounds]
      split
      · rfl
      · exact ih h.round

theorem pieces_settleScript (h : Hub) : h.pieces h.settleScript = h.settle := by
  rw [settleScript, pieces_append, pieces_roundsScript]
  rfl

theorem pieces_concludeScript (before h : Hub) (a : Answer) (e : Event) :
    h.pieces (concludeScript a e) = (conclude before h a e).2 := by
  cases e with
  | disconnect name => cases a <;> rfl
  | _ => rfl

/-- An event that is not turned away shows what can be collected when its pieces are done. -/
theorem step_eq_collect {h : Hub} {e : Event} (hr : h.refuses e = false) :
    (h.step e).2 = (h.pieces (h.work e)).collect := by
  have hwork : h.pieces (h.work e) = (conclude h (h.react e).2.settle (h.react e).1 e).2 := by
    rw [work, pieces_cons, piece, pieces_append, pieces_settleScript, pieces_concludeScript h]
  simp only [refuses, Bool.or_eq_false_iff] at hr
  rw [hwork]
  simp only [step, hr.1, hr.2, Bool.false_eq_true, if_false]

theorem pieces_script (h : Hub) (m : Moment) : h.pieces (h.script m) = (h.face m).2 := by
  rw [script, pieces_cons, piece]
  cases hr : (h.dated m.wall).refuses m.event with
  | true => simp [face, (step_of_refuses hr).2]
  | false =>
      simp only [Bool.false_eq_true, if_false, pieces_append, pieces_cons, pieces_nil, piece,
        face, step_eq_collect hr]

/-- A run is its script. -/
theorem pieces_scripts (h : Hub) (ms : List Moment) : h.pieces (h.scripts ms) = h.through ms := by
  induction ms generalizing h with
  | nil => rfl
  | cons m ms ih => rw [scripts, pieces_append, pieces_script, ih, through_cons]

theorem scripts_append (h : Hub) (ms ms' : List Moment) :
    h.scripts (ms ++ ms') = h.scripts ms ++ (h.through ms).scripts ms' := by
  induction ms generalizing h with
  | nil => rfl
  | cons m ms ih => rw [List.cons_append, scripts, ih, scripts, List.append_assoc, through_cons]

end ChatServer.Hub
