import ChatServer.Proofs.Log.Live
import ChatServer.Proofs.Log.Range

/-!
Reading a list on a machine whose integers have 64 bits. There every sum and difference must fit,
and every position must be one of the list's, or the read fails. As long as the length of the list
fits it never does, whatever the bounds are, and what is read stands at the positions between them.
-/

namespace ChatServer

/-! ### Integers of 64 bits -/

/-- An integer of 64 bits, its sign included, if it needs no more. -/
def fixed? (n : Int) : Option Int64 :=
  if -(integerEnd : Int) ≤ n ∧ n < integerEnd then some (Int64.ofInt n) else none

theorem exists_fixed? {n : Int} (hlow : -(integerEnd : Int) ≤ n) (hhigh : n < integerEnd) :
    ∃ x, fixed? n = some x ∧ x.toInt = n :=
  ⟨Int64.ofInt n, if_pos ⟨hlow, hhigh⟩, Int64.toInt_ofInt_of_le hlow hhigh⟩

theorem toInt_max (a b : Int64) : (max a b).toInt = max a.toInt b.toInt := by
  show (if a ≤ b then b else a).toInt = _
  by_cases h : a ≤ b
  · rw [if_pos h, Int.max_eq_right (Int64.le_iff_toInt_le.1 h)]
  · rw [if_neg h, Int.max_eq_left (Int.le_of_not_le (mt Int64.le_iff_toInt_le.2 h))]

theorem toInt_min (a b : Int64) : (min a b).toInt = min a.toInt b.toInt := by
  show (if a ≤ b then a else b).toInt = _
  by_cases h : a ≤ b
  · rw [if_pos h, Int.min_eq_left (Int64.le_iff_toInt_le.1 h)]
  · rw [if_neg h, Int.min_eq_right (Int.le_of_not_le (mt Int64.le_iff_toInt_le.2 h))]

/-- What is not negative stays as it is without a sign. -/
theorem toNat_toUInt64 {x : Int64} (h : 0 ≤ x.toInt) : x.toUInt64.toNat = x.toInt.toNat := by
  rw [Int64.toNat_toInt]
  exact Int64.toNat_toUInt64_of_le (Int64.le_iff_toInt_le.2 h)

/-! ### Reading a list -/

/-- The first position to be read of a list of `len` values. -/
def fixedFirst? (len start : Int64) : Option Int64 :=
  if start < 0 then (fixed? (len.toInt + start.toInt)).map (max · 0) else some start

/-- The last position to be read. -/
def fixedLast? (len stop : Int64) : Option Int64 :=
  if stop < 0 then fixed? (len.toInt + stop.toInt) else (fixed? (len.toInt - 1)).map (min stop)

/-- The values from one position up to another; the list must reach that far. -/
def slice? (vs : List String) (first last : UInt64) : Option (List String) :=
  if first.toNat ≤ last.toNat + 1 ∧ last.toNat + 1 ≤ vs.length then
    some ((vs.drop first.toNat).take (last.toNat + 1 - first.toNat))
  else none

/-- The values between two inclusive bounds, unless a sum does not fit or the list does not reach
that far. The length is taken for an integer with a sign, the positions for numbers without. -/
def fixedRange? (vs : List String) (start stop : Int64) : Option (List String) :=
  let len := Int64.ofNat vs.length
  match fixedFirst? len start, fixedLast? len stop with
  | some first, some last =>
    if len = 0 ∨ last < first ∨ len ≤ first then some []
    else slice? vs first.toUInt64 last.toUInt64
  | _, _ => none

variable {len : Int64}

/-- A length and a negative bound add up to an integer of 64 bits. -/
theorem exists_fixed?_add (hlen : 0 ≤ len.toInt) {b : Int64} (hneg : b.toInt < 0) :
    ∃ x, fixed? (len.toInt + b.toInt) = some x ∧ x.toInt = len.toInt + b.toInt := by
  have hlow : -(integerEnd : Int) ≤ b.toInt := b.le_toInt
  have hhigh : len.toInt < integerEnd := len.toInt_lt
  exact exists_fixed? (by omega) (by omega)

theorem exists_fixedFirst? (hlen : 0 ≤ len.toInt) (start : Int64) :
    ∃ first, fixedFirst? len start = some first ∧
      first.toInt = if start.toInt < 0 then max (len.toInt + start.toInt) 0 else start.toInt := by
  have hsign : start < 0 ↔ start.toInt < 0 := Int64.lt_iff_toInt_lt
  by_cases hneg : start.toInt < 0
  · obtain ⟨x, hx, hvalue⟩ := exists_fixed?_add hlen hneg
    refine ⟨max x 0, by rw [fixedFirst?, if_pos (hsign.2 hneg), hx, Option.map_some], ?_⟩
    rw [toInt_max, hvalue, if_pos hneg]
    rfl
  · exact ⟨start, if_neg (mt hsign.1 hneg), (if_neg hneg).symm⟩

theorem exists_fixedLast? (hlen : 0 ≤ len.toInt) (stop : Int64) :
    ∃ last, fixedLast? len stop = some last ∧
      last.toInt =
        if stop.toInt < 0 then len.toInt + stop.toInt else min stop.toInt (len.toInt - 1) := by
  have hsign : stop < 0 ↔ stop.toInt < 0 := Int64.lt_iff_toInt_lt
  by_cases hneg : stop.toInt < 0
  · obtain ⟨x, hx, hvalue⟩ := exists_fixed?_add hlen hneg
    exact ⟨x, by rw [fixedLast?, if_pos (hsign.2 hneg), hx], by rw [hvalue, if_pos hneg]⟩
  · have hhigh : len.toInt < integerEnd := len.toInt_lt
    have hlow : -(integerEnd : Int) ≤ len.toInt - 1 := by
      simp only [integerEnd]
      omega
    obtain ⟨x, hx, hvalue⟩ := exists_fixed? hlow (by omega)
    refine ⟨min stop x, by rw [fixedLast?, if_neg (mt hsign.1 hneg), hx, Option.map_some], ?_⟩
    rw [toInt_min, hvalue, if_neg hneg]

/-- Every sum fits and every position is there: the same is read as with integers of any size. -/
theorem fixedRange?_eq {vs : List String} (hlength : vs.length < integerEnd)
    (start stop : Int64) :
    fixedRange? vs start stop = some (readRange vs start.toInt stop.toInt) := by
  have hlen : (Int64.ofNat vs.length).toInt = vs.length := Int64.toInt_ofNat_of_lt hlength
  have hnonneg : 0 ≤ (Int64.ofNat vs.length).toInt := by omega
  obtain ⟨first, hfirst, hfirstValue⟩ := exists_fixedFirst? hnonneg start
  obtain ⟨last, hlast, hlastValue⟩ := exists_fixedLast? hnonneg stop
  rw [hlen] at hfirstValue hlastValue
  have hnone : (Int64.ofNat vs.length = 0 ∨ last < first ∨ Int64.ofNat vs.length ≤ first) ↔
      (vs.length = 0 ∨ last.toInt < first.toInt ∨ (vs.length : Int) ≤ first.toInt) := by
    rw [← Int64.toInt_inj, Int64.lt_iff_toInt_lt, Int64.le_iff_toInt_le, hlen]
    simp
  simp only [fixedRange?, hfirst, hlast, readRange, resolveRange, ← hfirstValue, ← hlastValue]
  by_cases hempty : vs.length = 0 ∨ last.toInt < first.toInt ∨ (vs.length : Int) ≤ first.toInt
  · rw [if_pos (hnone.2 hempty), if_pos hempty]
  · have hfirstLow : 0 ≤ first.toInt := by
      rw [hfirstValue]
      split <;> omega
    have hlastLow : 0 ≤ last.toInt := by omega
    have hlastHigh : last.toInt < vs.length := by
      rw [hlastValue]
      split <;> omega
    have hinside : first.toInt.toNat ≤ last.toInt.toNat + 1 ∧
        last.toInt.toNat + 1 ≤ vs.length := by omega
    rw [if_neg (mt hnone.1 hempty), if_neg hempty, slice?, toNat_toUInt64 hfirstLow,
      toNat_toUInt64 hlastLow, if_pos hinside]

/-- What stands before a position and what stands from it on make up the list. -/
theorem readRange_append (vs : List String) {m : Int} (hm : 1 ≤ m) :
    readRange vs 0 (m - 1) ++ readRange vs m (-1) = vs := by
  have hfirst : boundPosition vs.length 0 = 0 := rfl
  have hbefore : boundPosition vs.length (m - 1) = m - 1 := if_neg (by omega)
  have hfrom : boundPosition vs.length m = m := if_neg (by omega)
  have hlast : boundPosition vs.length (-1) = vs.length - 1 := if_pos (by decide)
  have hcount : (m - 1 + 1 - max 0 0).toNat = m.toNat := by omega
  have hrest : (vs.drop m.toNat).length ≤ ((vs.length : Int) - 1 + 1 - max m 0).toNat := by
    rw [List.length_drop]
    omega
  rw [readRange_eq_valuesBetween, readRange_eq_valuesBetween, valuesBetween_eq, valuesBetween_eq,
    hfirst, hbefore, hfrom, hlast, hcount, List.take_of_length_le hrest]
  exact List.take_append_drop m.toNat vs

namespace ExpiringLog

/-- Nothing is taken out under a live key. -/
theorem evict_of_live {log : ExpiringLog} {now : Time} {key : String} {e : LogEntry}
    (h : log.live? now key = some e) : log.evict now key = log := by
  obtain ⟨hget, hexpired⟩ := live?_eq_some.1 h
  simp only [evict, hget, hexpired]
  rfl

/-- The values of a live key, read with integers of 64 bits. -/
def fixedRange? (log : ExpiringLog) (now : Time) (key : String) (start stop : Int64) :
    Option (List String) :=
  match log.live? now key with
  | none => some []
  | some e => ChatServer.fixedRange? e.values start stop

/-- **Reading by position.** Between any two bounds of 64 bits a live key is read as the values at
the positions between them, and the log stays as it is. No list in memory is as long as 2⁶³, so no
sum on the way needs more than 64 bits and no position is outside the list. In particular a live key
is read whole from its first position to its last, and in two parts whichever position the second
one begins at. -/
theorem range_by_position {log : ExpiringLog} {now : Time} {key : String} {e : LogEntry}
    (hlive : log.live? now key = some e) :
    (∀ start stop : Int64,
      log.call now (.range key start.toInt stop.toInt) =
          (some (.values (valuesBetween e.values start.toInt stop.toInt)), log) ∧
        (e.values.length < integerEnd →
          log.fixedRange? now key start stop =
            some (valuesBetween e.values start.toInt stop.toInt))) ∧
      log.range now key 0 (-1) = e.values ∧
      ∀ m : Int64, 1 ≤ m →
        log.range now key 0 (m - 1).toInt ++ log.range now key m.toInt (-1) = e.values := by
  have hrange : ∀ start stop, log.range now key start stop = readRange e.values start stop :=
    fun start stop => by rw [range, hlive]
  refine ⟨fun start stop => ⟨?_, fun hlength => ?_⟩, ?_, fun m hm => ?_⟩
  · rw [call, hrange, readRange_eq_valuesBetween, evict_of_live hlive]
  · rw [fixedRange?, hlive, ← readRange_eq_valuesBetween]
    exact fixedRange?_eq hlength start stop
  · rw [hrange, readRange_all]
  · have hone : 1 ≤ m.toInt := Int64.le_iff_toInt_le.1 hm
    have hhigh := m.toInt_lt
    have hsub : (m - 1).toInt = (m.toInt - 1).bmod (2 ^ 64) := Int64.toInt_sub m 1
    have hbefore : (m - 1).toInt = m.toInt - 1 := by
      rw [hsub, Int.bmod_eq_of_le (by omega) (by omega)]
    rw [hrange, hrange, hbefore, readRange_append e.values hone]

/-- Four values, read between the furthest bounds that there are, then between others beyond both
ends, and in two parts. -/
theorem range_by_position_furthest :
    let log := ["a", "b", "c", "d"].foldl (fun log v => log.push Time.start "k" v) empty
    let e : LogEntry := ⟨["a", "b", "c", "d"], none⟩
    log.live? Time.start "k" = some e ∧ e.values.length < integerEnd ∧
      log.fixedRange? Time.start "k" Int64.minValue Int64.maxValue = some e.values ∧
      log.fixedRange? Time.start "k" Int64.maxValue Int64.minValue = some [] ∧
      log.fixedRange? Time.start "k" (-5) (-2) = some ["a", "b", "c"] ∧
      (1 : Int64) ≤ 3 ∧
      log.range Time.start "k" 0 (3 - 1 : Int64).toInt ++
        log.range Time.start "k" (3 : Int64).toInt (-1) = e.values := by
  intro log e
  have hlive : log.live? Time.start "k" = some e := by decide
  have hlength : e.values.length < integerEnd := by decide
  have hthird : (1 : Int64) ≤ 3 := by decide
  obtain ⟨hbounds, -, hparts⟩ := range_by_position hlive
  refine ⟨hlive, hlength, ?_, ?_, ?_, hthird, hparts 3 hthird⟩
  · rw [(hbounds Int64.minValue Int64.maxValue).2 hlength]
    decide
  · rw [(hbounds Int64.maxValue Int64.minValue).2 hlength]
    decide
  · rw [(hbounds (-5) (-2)).2 hlength]
    decide

end ExpiringLog

end ChatServer
