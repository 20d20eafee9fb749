import ChatServer.Text.Digits
import ChatServer.Time.Read
import Mathlib.Algebra.Ring.Nat

/-!
Numbers written in decimal digits read back: the digits of a padded number are digits, there are
as many as asked for as long as the number fits, and their value is the number.
-/

namespace ChatServer

theorem isDigit_eq (c : Char) : isDigit c = c.isDigit := by
  have h (a b : Char) : (a ≤ b) = (a.val ≤ b.val) := rfl
  simp [isDigit, Char.isDigit, h]

theorem digitsFrom_eq_ofDigitChars (n : Nat) (cs : List Char) :
    digitsFrom n cs = Nat.ofDigitChars 10 cs n := rfl

theorem isDigit_of_mem_padded {width n : Nat} {c : Char} (h : c ∈ padded width n) :
    isDigit c = true := by
  rw [isDigit_eq]
  simp only [padded, List.mem_append] at h
  rcases h with h | h
  · rw [List.eq_of_mem_replicate h]
    decide
  · exact Nat.isDigit_of_mem_toDigits (by decide) (by decide) h

theorem digitsValue_padded (width n : Nat) : digitsValue (padded width n) = n := by
  simp only [digitsValue, digitsFrom_eq_ofDigitChars, padded, Nat.ofDigitChars_append]
  simp

theorem length_padded {width n : Nat} (hw : 0 < width) (h : n < 10 ^ width) :
    (padded width n).length = width := by
  have := (Nat.length_toDigits_le_iff (b := 10) (by decide) hw).2 h
  simp only [padded, List.length_append, List.length_replicate]
  omega

theorem padded_ne_nil (width n : Nat) : padded width n ≠ [] := by
  simp [padded]

/-- A padded number begins with a digit. -/
theorem exists_padded_eq_cons (width n : Nat) :
    ∃ d ds, padded width n = d :: ds ∧ isDigit d = true := by
  obtain ⟨d, ds, h⟩ := List.exists_cons_of_ne_nil (padded_ne_nil width n)
  exact ⟨d, ds, h, isDigit_of_mem_padded (h ▸ List.mem_cons_self)⟩

theorem isDigit_bounds {c : Char} (h : isDigit c = true) : 48 ≤ c.toNat ∧ c.toNat ≤ 57 := by
  rw [isDigit_eq] at h
  simp only [Char.isDigit, Bool.and_eq_true, decide_eq_true_eq] at h
  exact ⟨UInt32.le_iff_toNat_le.1 h.1, UInt32.le_iff_toNat_le.1 h.2⟩

/-- A digit is no other character. -/
theorem ne_of_isDigit {c d : Char} (h : isDigit c = true) (hd : isDigit d = false) : c ≠ d := by
  rintro rfl
  simp [h] at hd

theorem isBlank_of_isDigit {c : Char} (h : isDigit c = true) : isBlank c = false := by
  have := isDigit_bounds h
  simp only [isBlank, Bool.or_eq_false_iff, Bool.and_eq_false_iff, decide_eq_false_iff_not]
  omega

namespace Instant

/-- Reading as many digits as there are, or all digits before something else, takes them all. -/
theorem takeDigits_append {ds rest : List Char} {width : Nat}
    (hds : ∀ c ∈ ds, isDigit c = true) (hw : ds.length ≤ width)
    (hrest : ds.length = width ∨ ∀ c cs, rest = c :: cs → isDigit c = false) :
    takeDigits width (ds ++ rest) = (ds, rest) := by
  induction ds generalizing width with
  | nil =>
      cases width with
      | zero => rfl
      | succ width =>
        cases rest with
        | nil => rfl
        | cons c cs =>
          have hc : isDigit c = false := by
            rcases hrest with h | h
            · simp at h
            · exact h c cs rfl
          simp [takeDigits, hc]
  | cons d ds ih =>
      cases width with
      | zero => simp at hw
      | succ width =>
        simp only [List.length_cons, Nat.succ_le_succ_iff, Nat.succ.injEq] at hw hrest
        have hd := hds d List.mem_cons_self
        have := ih (fun c hc => hds c (List.mem_cons_of_mem d hc)) hw hrest
        simp [takeDigits, hd, this]

theorem readNumber_padded {places width n : Nat} {rest : List Char}
    (hw : (padded places n).length ≤ width)
    (hrest : (padded places n).length = width ∨ ∀ c cs, rest = c :: cs → isDigit c = false) :
    readNumber width (padded places n ++ rest) = .ok (n, rest) := by
  obtain ⟨d, ds, hp, -⟩ := exists_padded_eq_cons places n
  have htake : takeDigits width (padded places n ++ rest) = (padded places n, rest) :=
    takeDigits_append (fun c hc => isDigit_of_mem_padded hc) hw hrest
  have hvalue := digitsValue_padded places n
  rw [readNumber, htake]
  rw [hp] at hvalue ⊢
  simp [hvalue]

end Instant

end ChatServer
