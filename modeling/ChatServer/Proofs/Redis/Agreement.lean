import ChatServer.Proofs.Log.Prompt
import ChatServer.Proofs.Redis.Server

/-!
A log in memory and a log in a server of lists give the same answers. Each call is one step of both:
what it reads from a key and what it leaves under it are worked out once on what the server holds,
the command and the reply carry that over the wire, and the entry in memory is always the held one,
its milliseconds counted on the other clock.
-/

namespace ChatServer.Redis

open ExpiringLog (Event Timed Reading reading)

/-! ### Runs -/

/-- Calls in the order in which they are made, each with the milliseconds that pass before it. -/
abbrev Schedule := List (Nat × LogCall)

/-- What a log in memory answers. -/
def memoryAnswers (t : Timed) : Schedule → List Reading
  | [] => []
  | (ms, c) :: run =>
    let t := (t.step (.advance (Duration.ofMillis ms))).2
    (t.step (.call c)).1 :: memoryAnswers (t.step (.call c)).2 run

variable {σ : Type}

/-- A log in a server, the server's clock, and the connection over which it is reached. -/
structure Remote (σ : Type) where
  server : σ
  now : Nat
  connection : Connection

namespace Remote

def start (S : Server σ) (now : Nat) : Remote σ := ⟨S.initial, now, .new⟩

def advance (r : Remote σ) (ms : Nat) : Remote σ := { r with now := r.now + ms }

/-- Makes a call; over a connection that has ended nothing reaches the server. -/
def call (S : Server σ) (r : Remote σ) (c : LogCall) :
    Option (Except Error LogAnswer) × Remote σ :=
  let (reply, server) :=
    if r.connection.broken then ([], r.server) else S.respond r.server r.now (command c)
  let (x, connection) := r.connection.exchange c reply
  (x.result, { r with server, connection })

/-- What a log in a server answers. -/
def answers (S : Server σ) (r : Remote σ) : Schedule → List (Option (Except Error LogAnswer))
  | [] => []
  | (ms, c) :: run =>
    let r := r.advance ms
    (r.call S c).1 :: answers S (r.call S c).2 run

end Remote

/-- Whether a call can be made of both: a bound has 64 bits, as has the number of bytes of a value,
and a time to live is one of whole milliseconds after which both clocks still have readings. -/
def callFits (clock : Time) (now : Nat) : LogCall → Bool
  | .push _ value => isSized value
  | .range _ start stop => Server.isInteger start && Server.isInteger stop
  | .expire _ ttl =>
    decide (ttl % 1000000 = 0 ∧ clock + ttl < Time.limit ∧ now + ttl / 1000000 < integerEnd)
  | .delete _ | .contains _ => true

/-- Whether each call fits the clocks when it is made. -/
def Schedule.fits (clock : Time) (now : Nat) : Schedule → Bool
  | [] => true
  | (ms, c) :: run =>
    callFits (clock + Duration.ofMillis ms) (now + ms) c &&
      fits (clock + Duration.ofMillis ms) (now + ms) run

/-! ### One call on what is held -/

namespace Held

/-- What a call leaves under its key. -/
def alter (now : Nat) (e : Option Held) : LogCall → Option Held
  | .push _ value => some (appended e value)
  | .expire _ ttl => lasting e now (ttl / 1000000)
  | .delete _ => none
  | .range .. | .contains _ => e

/-- What a call is answered. -/
def answer (e : Option Held) : LogCall → LogAnswer
  | .push .. | .expire .. | .delete _ => .done
  | .range _ start stop => .values (between e start stop)
  | .contains _ => .found e.isSome

/-- The bytes in which a server replies to the command of a call. -/
def reply (e : Option Held) : LogCall → List UInt8
  | .push _ value => integerBytes (appended e value).values.length
  | .range _ start stop => listBytes (between e start stop)
  | .expire .. | .delete _ | .contains _ => integerBytes (count e)

/-- At most so many texts, none longer than a machine can count. -/
def Small (n : Nat) (e : Held) : Prop := e.values.length ≤ n ∧ ∀ v ∈ e.values, isSized v = true

end Held

/-- Whole milliseconds are sent as they are. -/
theorem expireMillis_whole {ttl : Nat} (hwhole : ttl % 1000000 = 0)
    (hsmall : ttl / 1000000 < integerEnd) : expireMillis ttl = ttl / 1000000 := by
  have hends : integerEnd ≤ naturalEnd - 1 := by decide
  by_cases hzero : ttl = 0
  · rw [expireMillis, if_pos hzero, hzero]
  · rw [expireMillis, if_neg hzero, Nat.min_eq_left (by omega), Nat.max_eq_right (by omega)]

variable {S : Server σ} {held : σ → Nat → String → Option Held} {clock : Time} {now n : Nat}
  {c : LogCall} {e : Option Held}

/-- The command of a call does what the call does. -/
theorem Server.KeepsLists.does (hS : S.KeepsLists held) (s : σ) (hc : callFits clock now c = true) :
    S.Does held s now (command c) (Held.reply (held s now c.key) c) c.key
      (Held.alter now (held s now c.key) c) := by
  cases c with
  | push key value => exact hS.appends s now key value
  | range key start stop =>
      obtain ⟨hstart, hstop⟩ := Bool.and_eq_true_iff.1 hc
      exact hS.reads s now key start stop hstart hstop
  | expire key ttl =>
      obtain ⟨hwhole, -, hsmall⟩ := of_decide_eq_true hc
      have hmillis := expireMillis_whole hwhole (Nat.lt_of_le_of_lt (Nat.le_add_left _ _) hsmall)
      rw [command, hmillis]
      exact hS.expires s now key (ttl / 1000000) hsmall
  | delete key => exact hS.removes s now key
  | contains key => exact hS.counts s now key

/-! ### One call over the wire -/

theorem length_valuesBetween_le (vs : List String) (start stop : Int) :
    (valuesBetween vs start stop).length ≤ vs.length := by
  rw [valuesBetween, List.length_map]
  exact Nat.le_trans (List.length_filter_le _ _) (Nat.le_of_eq List.length_zipIdx)

theorem mem_of_mem_valuesBetween {vs : List String} {start stop : Int} {v : String}
    (h : v ∈ valuesBetween vs start stop) : v ∈ vs := by
  obtain ⟨p, hp, rfl⟩ := List.mem_map.1 h
  exact List.fst_mem_of_mem_zipIdx (List.mem_filter.1 hp).1

theorem small_appended (he : ∀ e', e = some e' → e'.Small n) {value : String}
    (hvalue : isSized value = true) : (Held.appended e value).Small (n + 1) := by
  cases e with
  | none => exact ⟨Nat.le_add_left 1 n, fun v hv => by rwa [List.mem_singleton.1 hv]⟩
  | some e =>
      obtain ⟨hlength, htexts⟩ := he e rfl
      refine ⟨?_, fun v hv => ?_⟩
      · show (e.values ++ [value]).length ≤ n + 1
        rw [List.length_append]
        exact Nat.add_le_add_right hlength 1
      · rcases List.mem_append.1 hv with hv | hv
        · exact htexts v hv
        · rwa [List.mem_singleton.1 hv]

/-- A client makes of a reply what the call is answered. -/
theorem exchange_reply (he : ∀ e', e = some e' → e'.Small n) (hn : n + 1 < integerEnd)
    (hc : callFits clock now c = true) :
    Connection.new.exchange c (Held.reply e c) =
      (⟨[command c], some (.ok (Held.answer e c))⟩, .new) := by
  have hcount : ∀ c, Connection.new.exchange c (integerBytes (Held.count e)) =
      (⟨[command c], some (answer c (.ok (.integer (Held.count e))))⟩, .new) := by
    apply Connection.exchange_of_feed
    cases e with
    | none => exact Decoder.feed_integer (n := 0) (by decide) (by decide)
    | some e => exact Decoder.feed_integer (n := 1) (by decide) (by decide)
  cases c with
  | push key value =>
      have hlength := (small_appended he hc).1
      exact Connection.exchange_of_feed (Decoder.feed_integer (by omega) (by omega)) _
  | range key start stop =>
      have hlist : (Held.between e start stop).length < integerEnd ∧
          ∀ v ∈ Held.between e start stop, isSized v = true := by
        cases e with
        | none =>
            have hempty : 0 < integerEnd := by decide
            exact ⟨hempty, fun v hv => by simp [Held.between] at hv⟩
        | some e =>
            obtain ⟨hlength, htexts⟩ := he e rfl
            have hle := length_valuesBetween_le e.values start stop
            exact ⟨by show (valuesBetween e.values start stop).length < _; omega, fun v hv =>
              htexts v (mem_of_mem_valuesBetween hv)⟩
      show Connection.new.exchange _ (listBytes _) = _
      rw [Connection.exchange_of_feed (Decoder.feed_list hlist.1 hlist.2), answer,
        Reply.asTexts_data]
      rfl
  | expire key ttl | delete key => exact hcount _
  | contains key =>
      show Connection.new.exchange _ (integerBytes _) = _
      rw [hcount]
      cases e <;> rfl

/-! ### Two clocks -/

/-- From a millisecond of the one clock on the other runs with it; `time` is its reading. -/
def RunAlike (time : Nat → Time) (origin : Nat) : Prop :=
  ∀ now ms, origin ≤ now → time (now + ms) = time now + Duration.ofMillis ms

theorem runAlike_from (base : Time) (origin : Nat) :
    RunAlike (fun now => base + Duration.ofMillis (now - origin)) origin := by
  intro now ms h
  simp only [Duration.ofMillis]
  rw [Nat.sub_add_comm h, Nat.add_mul, Nat.add_assoc]

variable {time : Nat → Time} {origin : Nat}

theorem RunAlike.lt (ha : RunAlike time origin) {x later : Nat} (hx : origin ≤ x)
    (h : x < later) : time x < time later := by
  obtain ⟨ms, rfl⟩ := Nat.exists_eq_add_of_le (Nat.le_of_lt h)
  have hms : 0 < Duration.ofMillis ms := Nat.mul_pos (by omega) (by decide)
  rw [ha x ms hx]
  exact Nat.lt_add_of_pos_right hms

theorem RunAlike.le_iff (ha : RunAlike time origin) {x later : Nat} (hx : origin ≤ x)
    (hlater : origin ≤ later) : time x ≤ time later ↔ x ≤ later := by
  refine ⟨fun h => Nat.le_of_not_lt fun hlt => ?_, fun h => ?_⟩
  · exact absurd (ha.lt hlater hlt) (Nat.not_lt.2 h)
  · rcases Nat.eq_or_lt_of_le h with rfl | hlt
    · exact Nat.le_refl _
    · exact Nat.le_of_lt (ha.lt hx hlt)

/-! ### One call in memory -/

/-- What is held, as an entry in memory. -/
def Held.entry (time : Nat → Time) (e : Held) : LogEntry := ⟨e.values, e.expiry.map time⟩

/-- What is held vanishes from both at the same time. -/
theorem expired_entry (ha : RunAlike time origin) {later : Nat} {e : Held} (horigin : origin ≤ now)
    (hlater : now ≤ later) (he : e.expired now = false) :
    (e.entry time).expired (time later) = e.expired later := by
  cases hexpiry : e.expiry with
  | none => simp [LogEntry.expired, Held.expired, Held.entry, hexpiry]
  | some x =>
      simp only [Held.expired, hexpiry, Option.any_some, decide_eq_false_iff_not] at he
      have hle : time x ≤ time later ↔ x ≤ later := ha.le_iff (by omega) (by omega)
      simp [LogEntry.expired, Held.expired, Held.entry, hexpiry, hle]

theorem filter_entry (ha : RunAlike time origin) {later : Nat} (horigin : origin ≤ now)
    (hlater : now ≤ later) (he : ∀ e', e = some e' → e'.expired now = false) :
    (e.map (Held.entry time)).filter (fun e => !e.expired (time later)) =
      (e.filter fun e => !e.expired later).map (Held.entry time) := by
  cases e with
  | none => rfl
  | some e =>
      have hexpired := expired_entry ha horigin hlater (he e rfl)
      cases hlast : e.expired later <;> simp [Option.filter, hexpired, hlast]

/-- A call is answered in memory as it is by the server. -/
theorem reading_entry (hc : callFits clock now c = true) :
    reading clock (e.map (Held.entry time)) c = .answer (Held.answer e c) := by
  cases c with
  | push key value | delete key => rfl
  | range key start stop =>
      cases e with
      | none => rfl
      | some e =>
          show Reading.answer (.values (readRange e.values start stop)) = _
          rw [readRange_eq_valuesBetween]
          rfl
  | expire key ttl =>
      obtain ⟨-, hclock, -⟩ := of_decide_eq_true hc
      rw [reading, if_neg fun h => absurd h.2 (Nat.not_le.2 hclock)]
      rfl
  | contains key => cases e <;> rfl

/-- A call leaves in memory what it leaves in the server. -/
theorem alter_entry (ha : RunAlike time origin) (horigin : origin ≤ now)
    (hc : callFits (time now) now c = true) :
    Event.alter (time now) c.key (e.map (Held.entry time)) (.call c) =
      (Held.alter now e c).map (Held.entry time) := by
  cases c with
  | push key value =>
      simp only [Event.alter, LogCall.key, if_true]
      cases e <;> rfl
  | range key start stop | contains key => rfl
  | delete key => simp [Event.alter, LogCall.key, Held.alter]
  | expire key ttl =>
      obtain ⟨hwhole, hclock, -⟩ := of_decide_eq_true hc
      obtain ⟨ms, rfl⟩ := Nat.dvd_of_mod_eq_zero hwhole
      have hmillis : 1000000 * ms / 1000000 = ms := Nat.mul_div_cancel_left ms (by decide)
      have htime : time now + 1000000 * ms = time (now + ms) := by
        rw [ha now ms horigin, Duration.ofMillis, Nat.mul_comm]
      have hafter := Time.after?_eq_some.2 ⟨htime, hclock⟩
      -- a deadline that is reached at once takes the key out of both
      have hlater : time now < time (now + ms) ↔ ms ≠ 0 := by
        rw [← Nat.not_le, ha.le_iff (by omega) horigin]
        omega
      simp only [Event.alter, LogCall.key, if_true, hafter, Held.alter, Held.lasting, hmillis]
      cases e with
      | none => simp
      | some e => by_cases hzero : ms = 0 <;> simp [hlater, hzero, Held.entry]

/-! ### Runs of both -/

/-- Both logs at a time: the connection is as new, and an entry in memory is the held one, which has
at most `n` values. -/
structure Agree (held : σ → Nat → String → Option Held) (time : Nat → Time) (origin n : Nat)
    (t : Timed) (r : Remote σ) : Prop where
  connection : r.connection = .new
  alike : RunAlike time origin
  since : origin ≤ r.now
  clock : t.now = time r.now
  shown : ∀ key, t.shown key = (held r.server r.now key).map (Held.entry time)
  small : ∀ key e, held r.server r.now key = some e → e.Small n

variable {t : Timed} {r : Remote σ}

theorem Server.KeepsLists.agree_start (hS : S.KeepsLists held) (base : Time) (origin : Nat) :
    Agree held (fun now => base + Duration.ofMillis (now - origin)) origin 0 ⟨.empty, base⟩
      (.start S origin) where
  connection := rfl
  alike := runAlike_from base origin
  since := Nat.le_refl origin
  clock := by simp [Remote.start, Duration.ofMillis]
  shown key := by
    show none = _
    rw [Remote.start, hS.empty]
    rfl
  small key e he := by simp [Remote.start, hS.empty] at he

theorem Server.KeepsLists.standing (hS : S.KeepsLists held) {s : σ} {key : String} {e : Held}
    (he : held s now key = some e) : e.expired now = false := by
  rw [hS.lapses s key (Nat.le_refl now)] at he
  simpa using (Option.filter_eq_some_iff.1 he).2

/-- Time passes for both. -/
theorem Agree.advance (hS : S.KeepsLists held) (h : Agree held time origin n t r) (ms : Nat) :
    Agree held time origin n (t.step (.advance (Duration.ofMillis ms))).2 (r.advance ms) := by
  have hclock : t.now + Duration.ofMillis ms = time (r.now + ms) := by
    rw [h.clock, h.alike r.now ms h.since]
  have hlapses := fun key => hS.lapses r.server key (Nat.le_add_right r.now ms)
  refine ⟨h.connection, h.alike, Nat.le_trans h.since (Nat.le_add_right r.now ms), ?_,
    fun key => ?_, fun key e he => ?_⟩
  · rw [Timed.now_step]
    exact hclock
  · have hfilter := filter_entry h.alike h.since (Nat.le_add_right r.now ms)
      fun e (he : held r.server r.now key = some e) => hS.standing he
    rw [Timed.shown_step, h.shown, Event.alter, hclock, hfilter, ← hlapses]
    rfl
  · have heq : held r.server (r.now + ms) key = some e := he
    rw [hlapses] at heq
    exact h.small key e (Option.filter_eq_some_iff.1 heq).1

/-- No call leaves more than one value more. -/
theorem small_alter (he : ∀ e', e = some e' → e'.Small n) (hc : callFits clock now c = true)
    {e' : Held} (h : Held.alter now e c = some e') : e'.Small (n + 1) := by
  have hmore : ∀ e' : Held, e'.Small n → e'.Small (n + 1) := fun e' hsmall =>
    ⟨Nat.le_succ_of_le hsmall.1, hsmall.2⟩
  cases c with
  | push key value =>
      obtain rfl := Option.some.inj h
      exact small_appended he hc
  | range key start stop | contains key => exact hmore e' (he e' h)
  | delete key => simp [Held.alter] at h
  | expire key ttl =>
      simp only [Held.alter, Held.lasting] at h
      split at h
      · simp at h
      · obtain ⟨e₀, he₀, rfl⟩ := Option.map_eq_some_iff.1 h
        exact hmore _ (he e₀ he₀)

/-- A call over a new connection to a server. -/
theorem Remote.call_of_new (hr : r.connection = .new) (c : LogCall) :
    r.call S c =
      (((Connection.new.exchange c (S.respond r.server r.now (command c)).1).1.result),
        ⟨(S.respond r.server r.now (command c)).2, r.now,
          (Connection.new.exchange c (S.respond r.server r.now (command c)).1).2⟩) := by
  have hbroken : Connection.new.broken = false := rfl
  simp only [call, hr, hbroken]
  rfl

/-- A call is answered alike by both, and they agree afterwards. -/
theorem Agree.call (hS : S.KeepsLists held) (h : Agree held time origin n t r)
    (hn : n + 1 < integerEnd) (hc : callFits t.now r.now c = true) :
    ∃ a, (t.step (.call c)).1 = .answer a ∧ (r.call S c).1 = some (.ok a) ∧
      Agree held time origin (n + 1) (t.step (.call c)).2 (r.call S c).2 := by
  have hdoes := hS.does r.server hc
  have hsmall : ∀ e', held r.server r.now c.key = some e' → e'.Small n := h.small c.key
  have hcall := Remote.call_of_new (S := S) h.connection c
  rw [hdoes.reply, exchange_reply hsmall hn hc] at hcall
  have hfits := hc
  rw [h.clock] at hfits
  refine ⟨Held.answer (held r.server r.now c.key) c, ?_, by rw [hcall], ?_⟩
  · rw [Timed.reading_step, h.shown, h.clock, reading_entry hfits]
  · rw [hcall]
    refine ⟨rfl, h.alike, h.since, ?_, fun key => ?_, fun key e he => ?_⟩
    · rw [Timed.now_step, h.clock]
      exact Nat.add_zero _
    · rw [Timed.shown_step, h.shown, h.clock]
      by_cases hkey : key = c.key
      · subst hkey
        rw [alter_entry h.alike h.since hfits]
        exact congrArg _ hdoes.own.symm
      · have hother : Event.concerns key (.call c) = false := by
          simp [Event.concerns, Ne.symm hkey]
        rw [Event.alter_of_not_concerns hother]
        exact congrArg _ (hdoes.others key hkey).symm
    · have heq : held (S.respond r.server r.now (command c)).2 r.now key = some e := he
      by_cases hkey : key = c.key
      · subst hkey
        rw [hdoes.own] at heq
        exact small_alter hsmall hc heq
      · rw [hdoes.others key hkey] at heq
        obtain ⟨hlength, htexts⟩ := h.small key e heq
        exact ⟨Nat.le_succ_of_le hlength, htexts⟩

/-- A series of calls, by induction on it. -/
theorem Agree.answers (hS : S.KeepsLists held) (h : Agree held time origin n t r) {run : Schedule}
    (hn : n + run.length < integerEnd) (hfits : run.fits t.now r.now = true) :
    ∃ as : List LogAnswer, memoryAnswers t run = as.map .answer ∧
      r.answers S run = as.map fun a => some (.ok a) := by
  induction run generalizing n t r with
  | nil => exact ⟨[], rfl, rfl⟩
  | cons p run ih =>
      obtain ⟨ms, c⟩ := p
      obtain ⟨hc, hrest⟩ := Bool.and_eq_true_iff.1 hfits
      rw [List.length_cons] at hn
      obtain ⟨a, hmemory, hremote, hagree⟩ := (h.advance hS ms).call hS (by omega) hc
      have hclock : ((t.step (.advance (Duration.ofMillis ms))).2.step (.call c)).2.now =
          t.now + Duration.ofMillis ms := by
        rw [Timed.now_step, Timed.now_step]
        exact Nat.add_zero _
      rw [← hclock] at hrest
      obtain ⟨as, hmemories, hremotes⟩ := ih hagree (by omega) hrest
      refine ⟨a :: as, ?_, ?_⟩
      · rw [memoryAnswers, hmemories, hmemory]
        rfl
      · rw [Remote.answers, hremotes, hremote]
        rfl

/-- **Both durable logs agree.** Started empty, a log in memory and a log in any server that keeps
lists give the same answer to every call of every series, whatever either clock shows at the start
and however many milliseconds pass in between. Replies count in 64 bits, so there may be no more
calls than that. -/
theorem logs_agree (hS : S.KeepsLists held) (base : Time) (origin : Nat) {run : Schedule}
    (hlength : run.length < integerEnd) (hfits : run.fits base origin = true) :
    ∃ as : List LogAnswer, memoryAnswers ⟨.empty, base⟩ run = as.map .answer ∧
      (Remote.start S origin).answers S run = as.map fun a => some (.ok a) :=
  (hS.agree_start base origin).answers hS (by omega) hfits

/-- A key that gets a value while it lasts, vanishes, starts anew and is removed by a deadline. -/
def lapsing : Schedule :=
  [(0, .push "k" "a"), (0, .expire "k" (Duration.ofMillis 10)), (5, .push "k" "b"),
    (4, .range "k" (-1) 7), (1, .contains "k"), (0, .push "k" "c"), (0, .range "k" 0 (-1)),
    (0, .expire "k" 0), (0, .contains "k")]

theorem logs_agree_lapsing :
    Keys.server.KeepsLists Keys.held ∧ lapsing.length < integerEnd ∧
      lapsing.fits Time.start 0 = true ∧
      (Remote.start Keys.server 0).answers Keys.server lapsing =
        [.done, .done, .done, .values ["b"], .found false, .done, .values ["c"], .done,
          .found false].map fun a => some (.ok a) := by
  have hlength : lapsing.length < integerEnd := by decide
  have hfits : lapsing.fits Time.start 0 = true := by decide +kernel
  refine ⟨Keys.keepsLists, hlength, hfits, ?_⟩
  obtain ⟨as, hmemory, hremote⟩ := logs_agree Keys.keepsLists Time.start 0 hlength hfits
  have hanswers : as.map Reading.answer =
      [LogAnswer.done, .done, .done, .values ["b"], .found false, .done, .values ["c"], .done,
        .found false].map .answer := by
    rw [← hmemory]
    decide
  rw [hremote, (List.map_inj_right fun _ _ h => Reading.answer.inj h).1 hanswers]

end ChatServer.Redis
