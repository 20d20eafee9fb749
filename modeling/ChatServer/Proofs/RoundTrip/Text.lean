import ChatServer.Json.Read
import ChatServer.Json.Render

/-!
Strings written with escapes read back. Whatever a character is written as, the reader takes just
that and gives the character back, so by induction a written string is read up to its closing
quote, and nothing inside it can end it early.
-/

namespace ChatServer.Json

/-- The value of a hexadecimal digit is the number it was written for. -/
theorem hexValue?_hexDigit : ∀ n < 16, hexValue? (hexDigit n) = some n := by
  decide

/-- The four digits that a control character is written with. -/
theorem readHex_control {n : Nat} (h : n < 0x20) (rest : List Char) :
    readHex ('0' :: '0' :: hexDigit (n / 16) :: hexDigit (n % 16) :: rest) = .ok (n, rest) := by
  have hzero : hexValue? '0' = some 0 := by decide
  have hhigh := hexValue?_hexDigit (n / 16) (by omega)
  have hlow := hexValue?_hexDigit (n % 16) (by omega)
  have hsum : 16 * (n / 16) + n % 16 = n := by omega
  simp [readHex, hexValue4?, hzero, hhigh, hlow, hsum]

/-- A control character without an escape of its own is read from its number. -/
theorem readEscape_control {c : Char} (h : c.toNat < 0x20) (rest : List Char) :
    readEscape ('u' :: '0' :: '0' :: hexDigit (c.toNat / 16) :: hexDigit (c.toNat % 16) ::
      rest) = .ok (c, rest) := by
  have hlow : isLowSurrogate c.toNat = false := by
    simp only [isLowSurrogate, Bool.and_eq_false_iff, decide_eq_false_iff_not]
    omega
  have hhigh : isHighSurrogate c.toNat = false := by
    simp only [isHighSurrogate, Bool.and_eq_false_iff, decide_eq_false_iff_not]
    omega
  simp [readEscape, readHex_control h, hlow, hhigh, Char.ofNat_toNat]

/-- A character of a string is read back from what it is written as. -/
theorem readChars_escapeChar {fuel : Nat} {cs rest s unread : List Char} (c : Char)
    (h : readChars fuel rest = .ok (s, unread)) (hcs : cs = escapeChar c ++ rest) :
    readChars (fuel + 1) cs = .ok (c :: s, unread) := by
  subst hcs
  -- seven characters have escapes of their own, other control characters are written as numbers
  by_cases hquote : c = '"'
  · subst hquote
    simp [escapeChar, readChars, readEscape, h]
  by_cases hslash : c = '\\'
  · subst hslash
    simp [escapeChar, readChars, readEscape, h]
  by_cases hback : c = '\x08'
  · subst hback
    simp [escapeChar, readChars, readEscape, h]
  by_cases hfeed : c = '\x0c'
  · subst hfeed
    simp [escapeChar, readChars, readEscape, h]
  by_cases hline : c = '\n'
  · subst hline
    simp [escapeChar, readChars, readEscape, h]
  by_cases hreturn : c = '\r'
  · subst hreturn
    simp [escapeChar, readChars, readEscape, h]
  by_cases htab : c = '\t'
  · subst htab
    simp [escapeChar, readChars, readEscape, h]
  simp only [escapeChar, if_neg hquote, if_neg hslash, if_neg hback, if_neg hfeed, if_neg hline,
    if_neg hreturn, if_neg htab]
  by_cases hcontrol : c.toNat < 0x20
  · simp [hcontrol, readChars, readEscape_control hcontrol, h]
  · simp [hcontrol, readChars, hquote, hslash, h]

/-- A written string is read up to its closing quote. -/
theorem readChars_escape {fuel : Nat} {cs : List Char} (h : cs.length < fuel)
    (rest : List Char) : readChars fuel (escape cs ++ '"' :: rest) = .ok (cs, rest) := by
  induction cs generalizing fuel with
  | nil =>
      cases fuel with
      | zero => simp at h
      | succ fuel => rfl
  | cons c cs ih =>
      cases fuel with
      | zero => simp at h
      | succ fuel =>
          apply readChars_escapeChar c (ih (Nat.lt_of_succ_lt_succ h))
          simp [escape]

theorem length_pos_escapeChar (c : Char) : 0 < (escapeChar c).length := by
  simp only [escapeChar]
  repeat' split
  all_goals simp

theorem length_le_escape (cs : List Char) : cs.length ≤ (escape cs).length := by
  induction cs with
  | nil => simp
  | cons c cs ih =>
      have hc := length_pos_escapeChar c
      simp only [escape, List.flatMap_cons, List.length_append, List.length_cons] at ih ⊢
      omega

/-- A text between quotes is read back from behind the opening one. -/
theorem readString_escape (s : String) (rest : List Char) :
    readString (escape s.toList ++ '"' :: rest) = .ok (s, rest) := by
  have hlen := length_le_escape s.toList
  have hread : readChars ((escape s.toList ++ '"' :: rest).length + 1)
      (escape s.toList ++ '"' :: rest) = .ok (s.toList, rest) := by
    apply readChars_escape
    simp only [List.length_append]
    omega
  rw [readString, hread]
  simp [String.ofList_toList]

theorem stringChars_append (s : String) (rest : List Char) :
    stringChars s ++ rest = '"' :: (escape s.toList ++ '"' :: rest) := by
  simp [stringChars]

@[simp] theorem skipSpace_nil : skipSpace [] = [] := rfl

/-- What is no blank is not skipped. -/
theorem skipSpace_cons {c : Char} (h : isSpace c = false) (cs : List Char) :
    skipSpace (c :: cs) = c :: cs := by
  simp [skipSpace, h]

theorem skipSpace_stringChars (s : String) (rest : List Char) :
    skipSpace (stringChars s ++ rest) = '"' :: (escape s.toList ++ '"' :: rest) := by
  rw [stringChars_append, skipSpace_cons (by decide)]

/-- A written text is read where a text is expected. -/
theorem readText_stringChars (expected s : String) (rest : List Char) :
    readText expected (stringChars s ++ rest) = .ok (s, rest) := by
  rw [readText, skipSpace_stringChars]
  exact readString_escape s rest

end ChatServer.Json
