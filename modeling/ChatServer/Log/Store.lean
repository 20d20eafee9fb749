import ChatServer.Log.Expiring
import ChatServer.Log.Gate

/-!
A log in memory that may be out of order: each of its calls can be made to fail with a reason,
and pushes can be made to wait for permits.
-/

namespace ChatServer

/-- The reasons for which calls fail at present; a call without a reason works. -/
structure Outages where
  push : Option String
  range : Option String
  expire : Option String
  delete : Option String
  contains : Option String
  deriving DecidableEq, Inhabited

namespace Outages

def none : Outages := ⟨.none, .none, .none, .none, .none⟩

def reason (o : Outages) : LogCall → Option String
  | .push .. => o.push
  | .range .. => o.range
  | .expire .. => o.expire
  | .delete .. => o.delete
  | .contains .. => o.contains

end Outages

inductive CallResult
  | answered (a : LogAnswer)
  /-- The store is out of order and nothing has changed. -/
  | unavailable (reason : String)
  /-- The clock cannot show the deadline asked for, which ends the calling task. -/
  | overflow
  deriving DecidableEq

/-- A log, what is out of order in it, and the gate before its pushes, if there is one. -/
structure Store (α : Type) where
  log : ExpiringLog
  outages : Outages
  gate : Option (Gate α)
  deriving DecidableEq, Inhabited

namespace Store

variable {α : Type} [DecidableEq α]

/-- An empty store; a gated one has no permits. -/
def new (outages : Outages) (gated : Bool) : Store α :=
  ⟨ExpiringLog.empty, outages, if gated then some Gate.shut else none⟩

/-- Adds permits; without a gate none are needed. -/
def addPermits (s : Store α) (n : Nat) : Store α := { s with gate := s.gate.map (·.add n) }

/-- Asks for leave to push in the name of `who`. -/
def acquire (s : Store α) (who : α) : Bool × Store α :=
  match s.gate with
  | none => (true, s)
  | some g =>
    let (granted, g) := g.acquire who
    (granted, { s with gate := some g })

/-- Makes a call; a push is made only once leave for it has been given. -/
def call (s : Store α) (now : Time) (c : LogCall) : CallResult × Store α :=
  match s.outages.reason c with
  | some reason => (.unavailable reason, s)
  | none =>
    match s.log.call now c with
    | (some a, log) => (.answered a, { s with log })
    | (none, log) => (.overflow, { s with log })

/-- Makes a call that no outage touches. -/
def callDirect (s : Store α) (now : Time) (c : LogCall) : CallResult × Store α :=
  match s.log.call now c with
  | (some a, log) => (.answered a, { s with log })
  | (none, log) => (.overflow, { s with log })

/-- Appends a value and, if that worked, sets the key's time to live. -/
def write (s : Store α) (now : Time) (key value : String) (ttl : Duration) :
    CallResult × Store α :=
  match s.call now (.push key value) with
  | (.answered _, s) => s.call now (.expire key ttl)
  | failed => failed

end Store

end ChatServer
