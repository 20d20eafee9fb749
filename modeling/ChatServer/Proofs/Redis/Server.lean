import ChatServer.Proofs.Log.Range
import ChatServer.Proofs.Redis.Wire

/-!
Servers that keep lists, as their commands are documented. Of such a server it is asked only what it
replies and what it then holds under its keys at a time; how it keeps them, and when it takes out
what has expired, is left to it. One such server, which keeps them in a function, is given.
-/

namespace ChatServer.Redis

/-- The values under a key, and the millisecond at which they vanish. -/
structure Held where
  values : List String
  expiry : Option Nat
  deriving DecidableEq

namespace Held

def expired (e : Held) (now : Nat) : Bool := e.expiry.any (· ≤ now)

/-- A list with a value appended; an absent one starts afresh and never vanishes. -/
def appended (e : Option Held) (value : String) : Held :=
  match e with
  | none => ⟨[value], none⟩
  | some e => { e with values := e.values ++ [value] }

/-- The values that are read between two bounds; an absent list has none. -/
def between (e : Option Held) (start stop : Int) : List String :=
  (e.map fun e => valuesBetween e.values start stop).getD []

/-- A list that is given so many milliseconds; with none it is removed. -/
def lasting (e : Option Held) (now ms : Nat) : Option Held :=
  if ms = 0 then none else e.map fun e => { e with expiry := some (now + ms) }

/-- How many of one key there are. -/
def count (e : Option Held) : Int := if e.isSome then 1 else 0

end Held

/-- A server: the state in which it starts, and its answer to a command, given as words, at a
millisecond of its clock. -/
structure Server (σ : Type) where
  initial : σ
  respond : σ → Nat → List String → List UInt8 × σ

variable {σ : Type}

namespace Server

/-- A command is replied to and leaves something under one key, the others being as they were. -/
structure Does (S : Server σ) (held : σ → Nat → String → Option Held) (s : σ) (now : Nat)
    (words : List String) (reply : List UInt8) (key : String) (e : Option Held) : Prop where
  reply : (S.respond s now words).1 = reply
  own : held (S.respond s now words).2 now key = e
  others : ∀ k, k ≠ key → held (S.respond s now words).2 now k = held s now k

/-- Whether an integer has 64 bits. -/
def isInteger (n : Int) : Bool := decide (-(integerEnd : Int) ≤ n ∧ n < integerEnd)

/-- A server whose keys are lists. -/
structure KeepsLists (S : Server σ) (held : σ → Nat → String → Option Held) : Prop where
  empty : ∀ now key, held S.initial now key = none
  /-- As time passes keys vanish, and none comes back. -/
  lapses : ∀ s {now later : Nat} key, now ≤ later →
    held s later key = (held s now key).filter fun e => !e.expired later
  /-- Appends a value and replies how many there are. -/
  appends : ∀ s now key value, S.Does held s now ["RPUSH", key, value]
    (integerBytes (Held.appended (held s now key) value).values.length) key
    (some (Held.appended (held s now key) value))
  /-- Replies the values between two inclusive bounds. -/
  reads : ∀ s now key (start stop : Int), isInteger start = true → isInteger stop = true →
    S.Does held s now ["LRANGE", key, toString start, toString stop]
      (listBytes (Held.between (held s now key) start stop)) key (held s now key)
  /-- Lets a key expire and replies whether there is one. -/
  expires : ∀ s now key (ms : Nat), now + ms < integerEnd →
    S.Does held s now ["PEXPIRE", key, toString ms] (integerBytes (Held.count (held s now key))) key
      (Held.lasting (held s now key) now ms)
  /-- Removes a key and replies how many there were. -/
  removes : ∀ s now key, S.Does held s now ["DEL", key]
    (integerBytes (Held.count (held s now key))) key none
  /-- Replies how many there are of a key. -/
  counts : ∀ s now key, S.Does held s now ["EXISTS", key]
    (integerBytes (Held.count (held s now key))) key (held s now key)

end Server

/-! ### A server -/

/-- The keys of a server that keeps them in a function, and takes none out. -/
abbrev Keys := String → Option Held

namespace Keys

/-- What is held under a key. -/
def held (s : Keys) (now : Nat) (key : String) : Option Held :=
  (s key).filter fun e => !e.expired now

def write (s : Keys) (key : String) (e : Option Held) : Keys := fun k => if k = key then e else s k

/-- A server that keeps its keys in a function. -/
def server : Server Keys where
  initial := fun _ => none
  respond s now words :=
    let refused (text : String) := (bytesOf ("-ERR " ++ text ++ "\r\n"), s)
    match words with
    | ["RPUSH", key, value] =>
      let e := Held.appended (s.held now key) value
      (integerBytes e.values.length, s.write key (some e))
    | ["LRANGE", key, start, stop] =>
      match integer? start.toList, integer? stop.toList with
      | some start, some stop => (listBytes (Held.between (s.held now key) start stop), s)
      | _, _ => refused "value is not an integer or out of range"
    | ["PEXPIRE", key, ms] =>
      match integer? ms.toList with
      | some ms =>
        (integerBytes (Held.count (s.held now key)),
          s.write key (Held.lasting (s.held now key) now ms.toNat))
      | none => refused "value is not an integer or out of range"
    | ["DEL", key] => (integerBytes (Held.count (s.held now key)), s.write key none)
    | ["EXISTS", key] => (integerBytes (Held.count (s.held now key)), s)
    | _ => refused "unknown command"

variable {s : Keys} {now : Nat} {words : List String} {reply : List UInt8} {key : String}
  {e : Option Held}

theorem expired_of_held {e : Held} (h : s.held now key = some e) : e.expired now = false := by
  simpa using (Option.filter_eq_some_iff.1 h).2

theorem expired_later {e : Held} {later : Nat} (h : now ≤ later) (he : e.expired now = true) :
    e.expired later = true := by
  cases hexpiry : e.expiry with
  | none => simp [Held.expired, hexpiry] at he
  | some x =>
      simp only [Held.expired, hexpiry, Option.any_some, decide_eq_true_eq] at he ⊢
      exact Nat.le_trans he h

theorem filter_held {later : Nat} (h : now ≤ later) :
    s.held later key = (s.held now key).filter fun e => !e.expired later := by
  unfold held
  cases s key with
  | none => rfl
  | some e =>
      by_cases hnow : e.expired now
      · simp [Option.filter, hnow, expired_later h hnow]
      · simp [Option.filter, hnow]

/-- What has not expired is held once it is written. -/
theorem does_write (h : server.respond s now words = (reply, s.write key e))
    (he : ∀ e', e = some e' → e'.expired now = false) :
    server.Does held s now words reply key e := by
  refine ⟨by rw [h], ?_, fun k hk => by rw [h]; simp [held, write, hk]⟩
  rw [h]
  cases e with
  | none => simp [held, write]
  | some e => simp [held, write, Option.filter, he e rfl]

theorem does_keep (h : server.respond s now words = (reply, s)) :
    server.Does held s now words reply key (s.held now key) :=
  ⟨by rw [h], by rw [h], fun _ _ => by rw [h]⟩

theorem integer?_word {n : Int} (h : Server.isInteger n = true) :
    integer? (toString n).toList = some n := by
  obtain ⟨hlow, hhigh⟩ := of_decide_eq_true h
  exact integer?_toString hlow hhigh

theorem keepsLists : server.KeepsLists held where
  empty now key := rfl
  lapses s now later key h := filter_held h
  appends s now key value := by
    refine does_write rfl fun e' he => ?_
    obtain rfl := Option.some.inj he
    cases hheld : s.held now key with
    | none => rfl
    | some e =>
        have hexpired : e.expired now = false := expired_of_held hheld
        exact hexpired
  reads s now key start stop hstart hstop := by
    refine does_keep ?_
    simp only [server, integer?_word hstart, integer?_word hstop]
  expires s now key ms hms := by
    have hword : integer? (toString ms).toList = some (ms : Int) :=
      integer?_toString (n := ms) (by omega) (by omega)
    refine does_write ?_ fun e he => ?_
    · simp only [server, hword, Int.toNat_natCast]
    · unfold Held.lasting at he
      split at he
      · simp at he
      · obtain ⟨e', -, rfl⟩ := Option.map_eq_some_iff.1 he
        simp only [Held.expired, Option.any_some, decide_eq_false_iff_not]
        omega
  removes s now key := does_write rfl fun e he => by simp at he
  counts s now key := does_keep rfl

end Keys

end ChatServer.Redis
