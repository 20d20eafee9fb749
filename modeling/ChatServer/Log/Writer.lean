import ChatServer.Log.Store

/-!
The background writer. Appends, purges and flush barriers wait in one line and are attempted one
at a time in the order of their acceptance. Only appends count against the bound of the line:
each reserves a place when accepted and frees it when attempted, whether or not the store took
it. A store that fails never stops the writer; a deadline beyond the clock does.
-/

namespace ChatServer

inductive LogWrite
  /-- Appends a value and renews the key's time to live. -/
  | append (key value : String) (ttl : Duration)
  | purge (key : String)
  /-- Marks the moment at which every earlier write has been attempted. -/
  | flush (ticket : Nat)
  deriving DecidableEq

def LogWrite.isAppend : LogWrite → Bool
  | .append .. => true
  | _ => false

inductive QueueError
  | full
  | closed
  deriving DecidableEq

def QueueError.message : QueueError → String
  | .full => "log queue full"
  | .closed => "log writer stopped"

inductive WriterPhase
  | ready
  | running
  /-- Given up before it was started. -/
  | discarded
  /-- Ended by a deadline beyond the clock. -/
  | dead
  /-- Ended because nobody can hand it writes any more. -/
  | finished
  deriving DecidableEq, Inhabited

/-- The writer with the line of writes before it. -/
structure LogWriter where
  capacity : Nat
  /-- Writes accepted and not yet attempted, in order. -/
  queue : List LogWrite
  pending : Nat
  phase : WriterPhase
  /-- Whether someone can still hand it writes. -/
  fed : Bool
  /-- The barriers passed so far, the latest first. -/
  passed : List Nat
  deriving DecidableEq, Inhabited

inductive FlushState
  | done
  | pending
  | dropped
  deriving DecidableEq

namespace LogWriter

/-- A writer that has not been started; there is always at least one place. -/
def new (capacity : Nat) : LogWriter := ⟨max capacity 1, [], 0, .ready, true, []⟩

/-- Writes are accepted by a writer that runs or may still be started. -/
def accepting (w : LogWriter) : Bool := w.phase = .ready || w.phase = .running

/-- Hands a write over. A full line is reported before a missing writer. -/
def push (w : LogWriter) (write : LogWrite) : Except QueueError Unit × LogWriter :=
  if write.isAppend && decide (w.capacity ≤ w.pending) then (.error .full, w)
  else if !w.accepting then (.error .closed, w)
  else (.ok (), { w with
    queue := w.queue ++ [write]
    pending := if write.isAppend then w.pending + 1 else w.pending })

/-- Sets a ready writer going; answers whether there was one. -/
def start (w : LogWriter) : Bool × LogWriter :=
  if w.phase = .ready then (true, { w with phase := .running }) else (false, w)

/-- Gives a writer up that has not been started, with all that waits before it. -/
def discard (w : LogWriter) : LogWriter :=
  if w.phase = .ready then { w with phase := .discarded, queue := [] } else w

/-- From now on nobody can hand over writes. -/
def release (w : LogWriter) : LogWriter := { w with fed := false }

/-- What has become of a barrier that was handed over. -/
def flushState (w : LogWriter) (ticket : Nat) : FlushState :=
  if ticket ∈ w.passed then .done
  else if LogWrite.flush ticket ∈ w.queue then .pending
  else .dropped

variable {α : Type} [DecidableEq α]

/-- Attempts the first write in line, given leave for it. -/
def attempt (w : LogWriter) (s : Store α) (now : Time) (write : LogWrite)
    (rest : List LogWrite) : LogWriter × Store α :=
  match write with
  | .append key value ttl =>
    match s.write now key value ttl with
    -- the value has been appended, and its place stays reserved for good
    | (.overflow, s) => ({ w with queue := [], phase := .dead }, s)
    | (_, s) => ({ w with queue := rest, pending := w.pending - 1 }, s)
  | .purge key => ({ w with queue := rest }, (s.call now (.delete key)).2)
  | .flush ticket => ({ w with queue := rest, passed := ticket :: w.passed }, s)

/-- One move of a running writer, in the name of `me`: the first write in line is attempted, an
append only with leave; a writer that has nothing to do and nothing to expect ends. Nothing when
it can only wait. -/
def turn (w : LogWriter) (s : Store α) (now : Time) (me : α) : Option (LogWriter × Store α) :=
  if w.phase ≠ .running then none
  else
    match w.queue with
    | [] => if w.fed then none else some ({ w with phase := .finished }, s)
    | write :: rest =>
      if write.isAppend then
        match s.acquire me with
        | (true, s) => some (w.attempt s now write rest)
        | (false, _) => none
      else some (w.attempt s now write rest)

/-- Joins the line for permits if that is what the writer waits for. -/
def wait (w : LogWriter) (s : Store α) (me : α) : Store α :=
  match w.queue with
  | .append .. :: _ => if w.phase = .running then (s.acquire me).2 else s
  | _ => s

def runFor (w : LogWriter) (s : Store α) (now : Time) (me : α) : Nat → LogWriter × Store α
  | 0 => (w, s)
  | fuel + 1 =>
    match w.turn s now me with
    | none => (w, w.wait s me)
    | some (w, s) => runFor w s now me fuel

/-- Runs until nothing can be done but wait: one move for each write in line, one to end and one
to join the line for permits. -/
def run (w : LogWriter) (s : Store α) (now : Time) (me : α) : LogWriter × Store α :=
  w.runFor s now me (w.queue.length + 2)

end LogWriter

end ChatServer
