import ChatServer.Log.Call
import ChatServer.Table

/-!
A log in memory. Every key holds a list of values and perhaps a deadline; an entry whose
deadline has been reached is as good as absent and is taken out when it is next touched.
-/

namespace ChatServer

/-- The positions from which and up to which a list of `len` values is read; a negative bound
counts from the end. -/
def resolveRange (len : Nat) (start stop : Int) : Option (Nat × Nat) :=
  let first := if start < 0 then max (len + start) 0 else start
  let last := if stop < 0 then len + stop else min stop (len - 1)
  if len = 0 ∨ last < first ∨ len ≤ first then none else some (first.toNat, last.toNat)

/-- The values between two inclusive bounds. -/
def readRange (vs : List String) (start stop : Int) : List String :=
  match resolveRange vs.length start stop with
  | none => []
  | some (i, j) => (vs.drop i).take (j + 1 - i)

/-- The values under one key and the time at which they vanish. -/
structure LogEntry where
  values : List String
  deadline : Option Time
  deriving DecidableEq, Inhabited

def LogEntry.expired (e : LogEntry) (now : Time) : Bool := e.deadline.any (· ≤ now)

structure ExpiringLog where
  entries : Table String LogEntry
  deriving DecidableEq, Inhabited

namespace ExpiringLog

def empty : ExpiringLog := ⟨Table.empty⟩

/-- The entry of a key that has not expired. -/
def live? (log : ExpiringLog) (now : Time) (key : String) : Option LogEntry :=
  (log.entries.get? key).filter fun e => !e.expired now

/-- Takes the entry of `key` out if it has expired. -/
def evict (log : ExpiringLog) (now : Time) (key : String) : ExpiringLog :=
  match log.entries.get? key with
  | none => log
  | some e => if e.expired now then ⟨log.entries.erase key⟩ else log

/-- Appends a value; an absent or expired key starts afresh and without a deadline. -/
def push (log : ExpiringLog) (now : Time) (key value : String) : ExpiringLog :=
  match log.live? now key with
  | none => ⟨log.entries.put key ⟨[value], none⟩⟩
  | some e => ⟨log.entries.put key { e with values := e.values ++ [value] }⟩

/-- The values of a live key between two inclusive bounds. -/
def range (log : ExpiringLog) (now : Time) (key : String) (start stop : Int) : List String :=
  match log.live? now key with
  | none => []
  | some e => readRange e.values start stop

/-- Sets the deadline of a live key; fails if the key is live and the clock cannot show the
deadline. -/
def expire? (log : ExpiringLog) (now : Time) (key : String) (ttl : Duration) :
    Option ExpiringLog :=
  match log.live? now key with
  -- without a live key no deadline is worked out, so none can be too late
  | none => some (log.evict now key)
  | some e =>
    (Time.after? now ttl).map fun t => ⟨log.entries.put key { e with deadline := some t }⟩

def delete (log : ExpiringLog) (key : String) : ExpiringLog := ⟨log.entries.erase key⟩

def contains (log : ExpiringLog) (now : Time) (key : String) : Bool :=
  (log.live? now key).isSome

/-- Takes every expired entry out. -/
def purge (log : ExpiringLog) (now : Time) : ExpiringLog :=
  ⟨log.entries.filter fun _ e => !e.expired now⟩

def size (log : ExpiringLog) (now : Time) : Nat := (log.purge now).entries.size

/-- Answers a call, or nothing if the call asks for a deadline the clock cannot show. -/
def call (log : ExpiringLog) (now : Time) : LogCall → Option LogAnswer × ExpiringLog
  | .push key value => (some .done, log.push now key value)
  | .range key start stop => (some (.values (log.range now key start stop)), log.evict now key)
  | .expire key ttl =>
    match log.expire? now key ttl with
    | some log' => (some .done, log')
    | none => (none, log)
  | .delete key => (some .done, log.delete key)
  | .contains key => (some (.found (log.contains now key)), log.evict now key)

inductive Event
  | call (c : LogCall)
  | size
  | isEmpty
  | advance (d : Duration)

inductive Reading
  | answer (a : LogAnswer)
  | size (n : Nat)
  | empty (b : Bool)
  /-- The clock cannot show the deadline asked for. -/
  | overflow
  deriving DecidableEq

structure Timed where
  log : ExpiringLog
  now : Time

def Timed.initial : Timed := ⟨empty, Time.start⟩

def Timed.step (t : Timed) : Event → Reading × Timed
  | .call c =>
    match t.log.call t.now c with
    | (some a, log) => (.answer a, { t with log })
    | (none, log) => (.overflow, { t with log })
  | .size => (.size (t.log.size t.now), { t with log := t.log.purge t.now })
  | .isEmpty => (.empty (t.log.size t.now == 0), { t with log := t.log.purge t.now })
  | .advance d => (.answer .done, { t with now := t.now + d })

end ExpiringLog

end ChatServer
