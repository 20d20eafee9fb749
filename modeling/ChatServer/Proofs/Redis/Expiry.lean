import ChatServer.Proofs.CommandLine.Accepted
import ChatServer.Proofs.Redis.Agreement

/-!
Times to live as a server is told them: in milliseconds, as a number of 64 bits without a sign. The
number is close to the time, and zero only for none. But a server reads an integer with a sign, and
the greater half of these numbers it refuses. A key that was to get such a time never vanishes.
-/

namespace ChatServer.Redis

open CommandLine (parse)

/-! ### The number of milliseconds -/

section Millis

variable {ttl longer : Nat}

theorem ofMillis_integerEnd : Duration.ofMillis integerEnd = 9223372036854775808000000 := rfl

theorem greatest_natural : naturalEnd - 1 = 18446744073709551615 := rfl

theorem expireMillis_zero : expireMillis 0 = 0 := rfl

theorem expireMillis_of_ne (h : ttl ≠ 0) :
    expireMillis ttl = max 1 (min (ttl / 1000000) (naturalEnd - 1)) := if_neg h

theorem expireMillis_eq_zero : expireMillis ttl = 0 ↔ ttl = 0 := by
  refine ⟨fun h => ?_, fun h => h ▸ expireMillis_zero⟩
  by_contra hne
  rw [expireMillis_of_ne hne] at h
  omega

theorem expireMillis_mono (h : ttl ≤ longer) : expireMillis ttl ≤ expireMillis longer := by
  by_cases hzero : ttl = 0
  · rw [hzero, expireMillis_zero]
    exact Nat.zero_le _
  · have hdiv : ttl / 1000000 ≤ longer / 1000000 := Nat.div_le_div_right h
    rw [expireMillis_of_ne hzero, expireMillis_of_ne (by omega)]
    omega

/-- As long as there is a number for it, a time is told to less than a millisecond. -/
theorem expireMillis_near (h : ttl < Duration.ofMillis naturalEnd) :
    ttl < Duration.ofMillis (expireMillis ttl + 1) ∧
      Duration.ofMillis (expireMillis ttl) < ttl + Duration.ofMillis 1 := by
  show ttl < (expireMillis ttl + 1) * 1000000 ∧ expireMillis ttl * 1000000 < ttl + 1 * 1000000
  by_cases hzero : ttl = 0
  · subst hzero
    decide
  · have hend : Duration.ofMillis naturalEnd = 18446744073709551616000000 := rfl
    rw [hend] at h
    rw [expireMillis_of_ne hzero, greatest_natural]
    omega

/-- A time is told as an integer with a sign just if it is less than 2⁶³ milliseconds. -/
theorem expireMillis_lt_integerEnd :
    expireMillis ttl < integerEnd ↔ ttl < Duration.ofMillis integerEnd := by
  have hend : integerEnd = 9223372036854775808 := rfl
  by_cases hzero : ttl = 0
  · subst hzero
    decide
  · rw [expireMillis_of_ne hzero, ofMillis_integerEnd, hend, greatest_natural]
    omega

theorem ofSeconds_lt_ofMillis {n : Nat} :
    Duration.ofSeconds n < Duration.ofMillis integerEnd ↔ n ≤ 9223372036854775 := by
  rw [ofMillis_integerEnd]
  show n * 1000000000 < 9223372036854775808000000 ↔ _
  omega

end Millis

/-! ### Refusals -/

variable {σ : Type} {S : Server σ} {held : σ → Nat → String → Option Held} {r : Remote σ}
  {ttl : Duration}

/-- A server that takes nothing but an integer of 64 bits for a number of milliseconds: anything
else it refuses with an error, and leaves everything as it is. -/
structure Server.RefusesMillis (S : Server σ) (line : String) : Prop where
  unbroken : (0x0d : UInt8) ∉ bytesOf line
  refuses : ∀ s now key word, integer? word.toList = none →
    S.respond s now ["PEXPIRE", key, word] = (errorBytes line, s)

/-- The error with which a server refuses what is no integer to it. -/
def notInteger : String := "ERR value is not an integer or out of range"

theorem Keys.refusesMillis : Keys.server.RefusesMillis notInteger := by
  have hline : (0x0d : UInt8) ∉ bytesOf notInteger := by
    rw [bytesOf_eq_flatMap]
    decide
  have hbytes : bytesOf "-ERR value is not an integer or out of range\r\n" =
      errorBytes notInteger := by
    rw [errorBytes, bytesOf_eq_flatMap, bytesOf_eq_flatMap]
    rfl
  refine ⟨hline, fun s now key word h => ?_⟩
  simp only [server, h]
  exact congrArg (·, s) hbytes

variable {line key value : String}

/-- A time that is told as no integer with a sign is not set, and nothing changes. -/
theorem Remote.call_refused (hrefuses : S.RefusesMillis line) (hr : r.connection = .new)
    (key : String) (h : integerEnd ≤ expireMillis ttl) :
    r.call S (.expire key ttl) = (some (.error (errorOf line)), r) := by
  have hrespond : S.respond r.server r.now (command (.expire key ttl)) =
      (errorBytes line, r.server) :=
    hrefuses.refuses r.server r.now key _ (integer?_beyond h)
  obtain ⟨server, now, connection⟩ := r
  obtain rfl : connection = .new := hr
  rw [Remote.call_of_new rfl, hrespond,
    Connection.exchange_of_feed (Decoder.feed_error hrefuses.unbroken)]
  rfl

/-- A value is appended under a key that holds nothing, and starts a list that never vanishes. -/
theorem Remote.call_push_fresh (hS : S.KeepsLists held) (hr : r.connection = .new)
    (hfresh : held r.server r.now key = none) (hvalue : isSized value = true) :
    ∃ server, r.call S (.push key value) = (some (.ok .done), { r with server }) ∧
      held server r.now key = some ⟨[value], none⟩ := by
  have hfits : callFits 0 r.now (.push key value) = true := hvalue
  have hdoes := hS.does r.server hfits
  have hnone : ∀ e, held r.server r.now (LogCall.push key value).key = some e → e.Small 0 :=
    fun e he => absurd (hfresh.symm.trans he) (by simp)
  have hexchange := exchange_reply hnone (by decide) hfits
  refine ⟨(S.respond r.server r.now (command (.push key value))).2, ?_, ?_⟩
  · obtain ⟨server, now, connection⟩ := r
    obtain rfl : connection = .new := hr
    rw [Remote.call_of_new rfl, hdoes.reply, hexchange]
    rfl
  · have hown : held (S.respond r.server r.now (command (.push key value))).2 r.now key =
        some (Held.appended (held r.server r.now key) value) := hdoes.own
    rw [hown, hfresh]
    rfl

/-- What is held without an expiry is held for good. -/
theorem Server.KeepsLists.held_later (hS : S.KeepsLists held) {s : σ} {now later : Nat}
    {vs : List String} (h : held s now key = some ⟨vs, none⟩) (hlater : now ≤ later) :
    held s later key = some ⟨vs, none⟩ := by
  rw [hS.lapses s key hlater, h]
  rfl

/-- A value that is appended under a key which holds nothing, and is then to last so long, is there
for good: the append succeeds and setting the expiry fails. -/
def Server.StoresForGood (S : Server σ) (held : σ → Nat → String → Option Held)
    (ttl : Duration) : Prop :=
  ∀ (r : Remote σ) (key value : String), r.connection = .new →
    held r.server r.now key = none → isSized value = true →
    let stored := r.call S (.push key value)
    let left := stored.2.call S (.expire key ttl)
    stored.1 = some (.ok .done) ∧ (∃ e, left.1 = some (.error e)) ∧
      ∀ later, r.now ≤ later → held left.2.server later key = some ⟨[value], none⟩

theorem Server.KeepsLists.storesForGood (hS : S.KeepsLists held)
    (hrefuses : S.RefusesMillis line) (h : integerEnd ≤ expireMillis ttl) :
    S.StoresForGood held ttl := by
  intro r key value hr hfresh hvalue stored left
  obtain ⟨server, hpush, hheld⟩ := Remote.call_push_fresh hS hr hfresh hvalue
  have hstored : stored = (some (.ok .done), { r with server }) := hpush
  have hleft : left = (some (.error (errorOf line)), { r with server }) := by
    show stored.2.call S (.expire key ttl) = _
    rw [hstored]
    exact Remote.call_refused (r := { r with server }) hrefuses hr key h
  refine ⟨by rw [hstored], ⟨errorOf line, by rw [hleft]⟩, fun later hlater => ?_⟩
  rw [hleft]
  exact hS.held_later hheld hlater

/-- **Times to live as a server is told them.** The number of milliseconds is zero only for no time
at all, grows with the time and, while there is a number of 64 bits for it, is less than a
millisecond off. It is an integer of 64 bits with a sign just if the time is less than 2⁶³
milliseconds; otherwise a server that reads such integers refuses it, and what was appended before
is stored for good. All the seconds of 64 bits can be configured, and those up to 9223372036854775
are told as such integers. -/
theorem expiry_arguments (ttl : Duration) :
    (∀ key, command (.expire key ttl) = ["PEXPIRE", key, toString (expireMillis ttl)]) ∧
      (expireMillis ttl = 0 ↔ ttl = 0) ∧
      (∀ longer, ttl ≤ longer → expireMillis ttl ≤ expireMillis longer) ∧
      (ttl < Duration.ofMillis naturalEnd →
        ttl < Duration.ofMillis (expireMillis ttl + 1) ∧
          Duration.ofMillis (expireMillis ttl) < ttl + Duration.ofMillis 1) ∧
      (expireMillis ttl < integerEnd ↔ ttl < Duration.ofMillis integerEnd) ∧
      (∀ {σ : Type} {S : Server σ} {held : σ → Nat → String → Option Held} {line : String},
        S.KeepsLists held → S.RefusesMillis line → integerEnd ≤ expireMillis ttl →
          S.StoresForGood held ttl) ∧
      ((∃ args env s, parse args env = .ok s ∧ s.tuning.ttl = ttl) ↔
        ∃ seconds < naturalEnd, ttl = Duration.ofSeconds seconds) ∧
      ∀ seconds, ttl = Duration.ofSeconds seconds →
        (expireMillis ttl < integerEnd ↔ seconds ≤ 9223372036854775) := by
  refine ⟨fun _ => rfl, expireMillis_eq_zero, fun _ => expireMillis_mono, expireMillis_near,
    expireMillis_lt_integerEnd, Server.KeepsLists.storesForGood, ⟨?_, ?_⟩, ?_⟩
  · rintro ⟨args, env, s, hparse, rfl⟩
    exact ⟨s.messageTtlSeconds, (CommandLine.fits_parse hparse).messageTtl, rfl⟩
  · rintro ⟨seconds, hseconds, rfl⟩
    exact ⟨_, _, _, CommandLine.parse_messageTtl hseconds, rfl⟩
  · rintro seconds rfl
    rw [expireMillis_lt_integerEnd]
    exact ofSeconds_lt_ofMillis

/-- Less than a millisecond beside two, and the first seconds that a server refuses. -/
theorem expiry_arguments_borders :
    let short := Duration.ofMicros 200
    let long := Duration.ofSeconds 9223372036854776
    short ≤ Duration.ofMillis 2 ∧ expireMillis short ≤ expireMillis (Duration.ofMillis 2) ∧
      short < Duration.ofMillis naturalEnd ∧
      Duration.ofMillis (expireMillis short) < short + Duration.ofMillis 1 ∧
      (∃ args env s, parse args env = .ok s ∧ s.tuning.ttl = long) ∧
      ¬expireMillis long < integerEnd ∧
      Keys.server.KeepsLists Keys.held ∧ Keys.server.RefusesMillis notInteger ∧
      let r := Remote.start Keys.server 0
      let stored := r.call Keys.server (.push "k" "a")
      let left := stored.2.call Keys.server (.expire "k" long)
      r.connection = .new ∧ Keys.held r.server r.now "k" = none ∧ isSized "a" = true ∧
        (∃ e, left.1 = some (.error e)) ∧
        ∀ later, Keys.held left.2.server later "k" = some ⟨["a"], none⟩ := by
  intro short long
  obtain ⟨-, -, hmono, hnear, -⟩ := expiry_arguments short
  obtain ⟨-, -, -, -, -, hstores, hconfigured, hseconds⟩ := expiry_arguments long
  have hlonger : short ≤ Duration.ofMillis 2 := by decide
  have hsmall : short < Duration.ofMillis naturalEnd := by decide
  have hbeyond : ¬expireMillis long < integerEnd := mt (hseconds _ rfl).1 (by decide)
  have hsized : isSized "a" = true := by
    rw [isSized, bytesOf_eq_flatMap]
    decide
  obtain ⟨-, hrefused, hheld⟩ := hstores Keys.keepsLists Keys.refusesMillis
    (Nat.le_of_not_lt hbeyond) (Remote.start Keys.server 0) "k" "a" rfl rfl hsized
  exact ⟨hlonger, hmono _ hlonger, hsmall, (hnear hsmall).2,
    hconfigured.2 ⟨9223372036854776, by decide, rfl⟩, hbeyond, Keys.keepsLists,
    Keys.refusesMillis, rfl, rfl, hsized, hrefused, fun later => hheld later (Nat.zero_le later)⟩

/-- A command line is taken with which a server is told a number of milliseconds beyond 2⁶³ - 1,
which is no integer to it. -/
theorem refused_by_settings :
    ∃ s, parse ["--message-ttl-secs", "9223372036854776"] [] = .ok s ∧
      command (.expire "k" s.tuning.ttl) = ["PEXPIRE", "k", "9223372036854776000"] ∧
      ¬expireMillis s.tuning.ttl ≤ 2 ^ 63 - 1 ∧
      integer? "9223372036854776000".toList = none := by
  refine ⟨{ Settings.default with messageTtlSeconds := 9223372036854776 }, ?_, ?_, ?_, ?_⟩
  · decide +kernel
  · rfl
  · decide
  · decide

end ChatServer.Redis
