import ChatServer.Proofs.RoundTrip.Digits
import ChatServer.Time.Write

/-!
The written form of a moment reads back as the moment. Each part is read by the step that is made
for it and leaves what follows it untouched, so the whole is read by going through the steps in
order; a leap second is written as second 60 and comes back as second 59 with a longer fraction.
-/

namespace ChatServer.Instant

theorem trimStart_padded (width n : Nat) (rest : List Char) :
    trimStart (padded width n ++ rest) = padded width n ++ rest := by
  obtain ⟨d, ds, h, hd⟩ := exists_padded_eq_cons width n
  rw [h, List.cons_append, trimStart_cons, isBlank_of_isDigit hd]
  rfl

/-- A number of two digits is read as a part. -/
theorem readPart_padded {least most n : Nat} (rest : List Char) (hleast : least ≤ n)
    (hmost : n ≤ most) (hn : n < 100) :
    readPart least most (padded 2 n ++ rest) = .ok (n, rest) := by
  have hlen : (padded 2 n).length = 2 := length_padded (by decide) (by omega)
  rw [readPart, trimStart_padded, readNumber_padded (by omega) (.inl hlen)]
  simp [hleast, hmost]

theorem readMark_cons {mark : Char} (rest : List Char) (h : isBlank mark = false) :
    readMark mark (mark :: rest) = .ok rest := by
  simp [readMark, trimStart_cons, h]

/-- The digits of a year end at the dash behind them. -/
theorem readNumber_year (n : Nat) (rest : List Char) :
    readNumber (padded 4 n ++ '-' :: rest).length (padded 4 n ++ '-' :: rest) =
      .ok (n, '-' :: rest) := by
  apply readNumber_padded
  · simp
  · right
    rintro c cs h
    simp only [List.cons.injEq] at h
    rw [← h.1]
    decide

/-- Every year that a date can have is read from its written form. -/
theorem readYear_yearChars {year : Int} (rest : List Char) (hfirst : firstYear ≤ year)
    (hlast : year ≤ lastYear) :
    readYear (yearChars year ++ '-' :: rest) = .ok (year, '-' :: rest) := by
  have hbounds : -(shortIntegerEnd : Int) ≤ year ∧ year < shortIntegerEnd := by
    simp only [firstYear, lastYear, shortIntegerEnd] at hfirst hlast ⊢
    omega
  unfold yearChars
  split
  case isTrue hy =>
    have hlen : (padded 4 year.natAbs).length = 4 := length_padded (by decide) (by omega)
    have hread : readNumber 4 (padded 4 year.natAbs ++ '-' :: rest) =
        .ok (year.natAbs, '-' :: rest) := readNumber_padded (by omega) (.inl hlen)
    have habs : (year.natAbs : Int) = year := by omega
    obtain ⟨d, ds, hd, hdigit⟩ := exists_padded_eq_cons 4 year.natAbs
    -- a year of four digits begins with neither sign
    rw [readYear, trimStart_padded]
    rw [hd, List.cons_append] at hread ⊢
    split
    case h_1 h => exact absurd (List.cons.inj h).1 (ne_of_isDigit hdigit (by decide))
    case h_2 h => exact absurd (List.cons.inj h).1 (ne_of_isDigit hdigit (by decide))
    case h_3 => simp [hread, habs, hbounds]
  case isFalse =>
    have hread := readNumber_year year.natAbs rest
    by_cases hneg : year < 0
    · have habs : -(year.natAbs : Int) = year := by omega
      have hmark : isBlank '-' = false := by decide
      rw [if_pos hneg, List.cons_append, readYear, trimStart_cons, hmark]
      generalize year.natAbs = n at hread habs ⊢
      simp [-List.length_append, hread, habs, hbounds]
    · have habs : (year.natAbs : Int) = year := by omega
      have hmark : isBlank '+' = false := by decide
      rw [if_neg hneg, List.cons_append, readYear, trimStart_cons, hmark]
      generalize year.natAbs = n at hread habs ⊢
      simp [-List.length_append, hread, habs, hbounds]

/-- A fraction in `places` digits is scaled up to nanoseconds. -/
theorem readFraction_padded {places n : Nat} (hplaces : 0 < places) (hmost : places ≤ 9)
    (hn : n < 10 ^ places) :
    readFraction ('.' :: (padded places n ++ ['Z'])) =
      .ok (n * 10 ^ (9 - places), ['Z']) := by
  have hlen : (padded places n).length = places := length_padded hplaces hn
  have htake : takeDigits 9 (padded places n ++ ['Z']) = (padded places n, ['Z']) := by
    apply takeDigits_append (fun c hc => isDigit_of_mem_padded hc) (by omega)
    right
    rintro c cs h
    rw [← (List.cons.inj h).1]
    decide
  have hvalue := digitsValue_padded places n
  obtain ⟨d, ds, hd, -⟩ := exists_padded_eq_cons places n
  have hletter : List.dropWhile isDigit ['Z'] = ['Z'] := by decide
  rw [readFraction, htake]
  rw [hd] at hvalue hlen ⊢
  simp only [hvalue, hlen, hletter, tenPow]
  rfl

/-- The fewest of zero, three, six or nine digits are enough. -/
theorem readFraction_fractionChars {nano : Nat} (h : nano < 1000000000) :
    readFraction (fractionChars nano ++ ['Z']) = .ok (nano, ['Z']) := by
  unfold fractionChars
  split
  case isTrue hzero =>
    subst hzero
    rfl
  case isFalse =>
    split
    case isTrue hmillis =>
      rw [List.cons_append, readFraction_padded (by decide) (by decide) (by omega)]
      congr 2
      omega
    case isFalse =>
      split
      case isTrue hmicros =>
        rw [List.cons_append, readFraction_padded (by decide) (by decide) (by omega)]
        congr 2
        omega
      case isFalse =>
        rw [List.cons_append, readFraction_padded (by decide) (by decide) (by omega)]
        simp

/-- Clocks at the zero meridian show the moment itself. -/
theorem fromOffset_zero {t : Instant} (h : t.IsValid) : t.fromOffset 0 = some t := by
  obtain ⟨hdate, hhour, hminute, hsecond, -⟩ := h
  have hseconds : ((t.hour * 3600 + t.minute * 60 + t.second : Nat) - 0 : Int) % 86400 =
      (t.hour * 3600 + t.minute * 60 + t.second : Nat) := by omega
  have hnot : ¬((t.hour * 3600 + t.minute * 60 + t.second : Nat) - 0 : Int) < 0 := by omega
  have hnot' : ¬(86400 : Int) ≤ (t.hour * 3600 + t.minute * 60 + t.second : Nat) - 0 := by omega
  simp only [fromOffset, if_neg hnot, if_neg hnot', hseconds, hdate, if_true, Int.toNat_natCast]
  congr 2 <;> omega

/-- A moment is read part by part; the places between the parts are named after what has been read
before them. -/
theorem read_eq_ok {cs ofYear ofMonthMark ofMonth ofDayMark ofDay ofDivider ofHour ofMinuteMark
    ofMinute ofSecondMark ofSecond ofFraction : List Char} {year : Int}
    {month day hour minute second fraction : Nat} {t : Instant}
    (hyear : readYear cs = .ok (year, ofYear))
    (hmonthMark : readMark '-' ofYear = .ok ofMonthMark)
    (hmonth : readPart 1 12 ofMonthMark = .ok (month, ofMonth))
    (hdayMark : readMark '-' ofMonth = .ok ofDayMark)
    (hday : readPart 1 31 ofDayMark = .ok (day, ofDay))
    (hdivider : readDivider ofDay = .ok ofDivider)
    (hhour : readPart 0 23 ofDivider = .ok (hour, ofHour))
    (hminuteMark : readMark ':' ofHour = .ok ofMinuteMark)
    (hminute : readPart 0 59 ofMinuteMark = .ok (minute, ofMinute))
    (hsecondMark : readMark ':' ofMinute = .ok ofSecondMark)
    (hsecond : readPart 0 60 ofSecondMark = .ok (second, ofSecond))
    (hfraction : readFraction ofSecond = .ok (fraction, ofFraction))
    (hzone : readZone (trimStart ofFraction) = .ok (0, []))
    (hdate : isDate year month day = true)
    (ht : fromOffset (if second = 60 then
        ⟨year, month, day, hour, minute, 59, fraction + 1000000000⟩
      else ⟨year, month, day, hour, minute, second, fraction⟩) 0 = some t) :
    read cs = .ok t := by
  simp only [read, hyear, hmonthMark, hmonth, hdayMark, hday, hdivider, hhour, hminuteMark,
    hminute, hsecondMark, hsecond, hfraction, hzone, bind, Except.bind]
  simp [hdate, ht]

theorem chars_eq (t : Instant) :
    t.chars = yearChars t.year ++ '-' :: (padded 2 t.month ++ '-' :: (padded 2 t.day ++
      'T' :: (padded 2 t.hour ++ ':' :: (padded 2 t.minute ++
        ':' :: (padded 2 (if 1000000000 ≤ t.nano then t.second + 1 else t.second) ++
          (fractionChars (if 1000000000 ≤ t.nano then t.nano - 1000000000 else t.nano) ++
            ['Z'])))))) := by
  simp only [chars, List.append_assoc, List.cons_append]

/-- The written form of a moment reads back as the moment. -/
theorem read_chars {t : Instant} (h : t.IsValid) : read t.chars = .ok t := by
  have hzero := fromOffset_zero h
  obtain ⟨hdate, hhour, hminute, hsecond, hnano⟩ := h
  have hparts := hdate
  simp only [isDate, Bool.and_eq_true, decide_eq_true_eq] at hparts
  obtain ⟨⟨⟨⟨⟨hfirst, hlast⟩, hmonth⟩, hmonth'⟩, hday⟩, hday'⟩ := hparts
  have hdays : daysIn t.year t.month ≤ 31 := by
    unfold daysIn
    split <;> (try split) <;> omega
  have hdash : isBlank '-' = false := by decide
  have hcolon : isBlank ':' = false := by decide
  rw [chars_eq]
  refine read_eq_ok (readYear_yearChars _ hfirst hlast) (readMark_cons _ hdash)
    (readPart_padded _ hmonth hmonth' (by omega)) (readMark_cons _ hdash)
    (readPart_padded _ hday (by omega) (by omega)) rfl
    (readPart_padded _ (Nat.zero_le _) hhour (by omega)) (readMark_cons _ hcolon)
    (readPart_padded _ (Nat.zero_le _) hminute (by omega)) (readMark_cons _ hcolon)
    (readPart_padded _ (Nat.zero_le _) ?_ ?_) (readFraction_fractionChars ?_) rfl hdate ?_
  · split <;> omega
  · split <;> omega
  · split <;> omega
  · -- second 60 is taken back to second 59, and the fraction is longer by a second
    by_cases hleap : 1000000000 ≤ t.nano
    · have hback : t.second = 59 := by omega
      rw [if_pos hleap, if_pos hleap, if_pos (by omega), Nat.sub_add_cancel hleap, ← hback]
      exact hzero
    · rw [if_neg hleap, if_neg hleap, if_neg (by omega)]
      exact hzero

theorem read_text {t : Instant} (h : t.IsValid) : read t.text.toList = .ok t := by
  rw [text, String.toList_ofList, read_chars h]

end ChatServer.Instant
