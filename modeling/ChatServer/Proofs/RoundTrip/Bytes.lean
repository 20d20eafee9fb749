import ChatServer.Number.Integer
import ChatServer.Proofs.RoundTrip.Digits
import ChatServer.Text.Bytes

/-!
Texts read back from their bytes, and integers of 64 bits from their digits. The bytes of an
integer hold neither blanks nor line breaks, so it may stand on a line of its own.
-/

namespace ChatServer

/-! ### Bytes -/

theorem toList_loop (bytes : ByteArray) (i : Nat) (read : List UInt8) :
    ByteArray.toList.loop bytes i read = read.reverse ++ bytes.data.toList.drop i := by
  induction i, read using ByteArray.toList.loop.induct bytes with
  | case1 i read hi ih =>
      have hlength : i < bytes.data.toList.length := by
        rw [Array.length_toList]
        exact hi
      have hget : bytes.get! i = bytes.data.toList[i] := by
        rw [Array.getElem_toList hi]
        exact getElem!_pos bytes.data i hi
      rw [ByteArray.toList.loop.eq_1, if_pos hi, ih, List.drop_eq_getElem_cons hlength, hget]
      simp
  | case2 i read hi =>
      have hlength : bytes.data.toList.length ≤ i := by
        rw [Array.length_toList]
        exact Nat.not_lt.1 hi
      rw [ByteArray.toList.loop.eq_1, if_neg hi, List.drop_of_length_le hlength, List.append_nil]

theorem bytesOf_eq_data (s : String) : bytesOf s = s.toByteArray.data.toList := by
  unfold bytesOf String.toUTF8
  rw [ByteArray.toList, toList_loop]
  rfl

/-- The bytes of a text are those of its characters. -/
theorem bytesOf_eq_flatMap (s : String) : bytesOf s = s.toList.flatMap String.utf8EncodeChar := by
  rw [bytesOf_eq_data, ← String.utf8Encode_toList, List.utf8Encode.eq_1,
    List.toList_data_toByteArray]

/-- Every text is read back from its bytes. -/
theorem spelled?_bytesOf (s : String) : spelled? (bytesOf s) = some s := by
  rw [spelled?, bytesOf_eq_data, Array.toArray_toList]
  exact dif_pos s.isValidUTF8

theorem utf8EncodeChar_ascii {c : Char} (h : c.toNat < 128) :
    String.utf8EncodeChar c = [c.val.toUInt8] := by
  apply String.utf8EncodeChar_eq_singleton
  have hval : c.val ≤ 127 := UInt32.le_iff_toNat_le.2 (Nat.le_of_lt_succ h)
  simp [Char.utf8Size, hval]

/-! ### Integers -/

/-- The text of an integer: digits, behind a minus sign if it is negative. -/
theorem toList_toString (n : Int) :
    (toString n).toList = (if n < 0 then ['-'] else []) ++ padded 0 n.natAbs := by
  cases n with
  | ofNat m =>
      show (String.ofList _).toList = _
      rw [String.toList_ofList]
      simp [padded]
  | negSucc m =>
      show ("-" ++ String.ofList _).toList = _
      rw [String.toList_append, String.toList_ofList]
      simp [padded]

/-- Digits are read as their value, unless it is too large. -/
theorem integer?_of_digits {ds : List Char} (hne : ds ≠ [])
    (hall : ∀ c ∈ ds, isDigit c = true) :
    integer? ds = if digitsValue ds < integerEnd then some (digitsValue ds : Int) else none := by
  obtain ⟨d, ds, rfl⟩ := List.exists_cons_of_ne_nil hne
  have hminus : d ≠ '-' := ne_of_isDigit (hall d List.mem_cons_self) (by decide)
  have hplus : d ≠ '+' := ne_of_isDigit (hall d List.mem_cons_self) (by decide)
  have hdigits : (d :: ds).all isDigit = true := List.all_eq_true.2 hall
  simp only [integer?, List.cons.injEq, hminus, hplus, false_and, false_implies, implies_true,
    List.isEmpty_cons, hdigits, Bool.not_true, Bool.or_self, Bool.false_eq_true, if_false]
  by_cases h : digitsValue (d :: ds) < integerEnd
  · rw [if_pos h]
    exact if_pos (by omega)
  · rw [if_neg h]
    exact if_neg (by omega)

theorem integer?_digits {ds : List Char} (hne : ds ≠ []) (hall : ∀ c ∈ ds, isDigit c = true)
    (h : digitsValue ds < integerEnd) : integer? ds = some (digitsValue ds : Int) := by
  rw [integer?_of_digits hne hall, if_pos h]

theorem integer?_minus {ds : List Char} (hne : ds ≠ []) (hall : ∀ c ∈ ds, isDigit c = true)
    (h : digitsValue ds ≤ integerEnd) : integer? ('-' :: ds) = some (-(digitsValue ds : Int)) := by
  have hempty : ds.isEmpty = false := by simpa using hne
  have hdigits : ds.all isDigit = true := List.all_eq_true.2 hall
  have hpos : 0 < integerEnd := by decide
  have hrange : -(integerEnd : Int) ≤ -(digitsValue ds : Int) ∧
      -(digitsValue ds : Int) < integerEnd := by omega
  simp only [integer?, hempty, hdigits, Bool.not_true, Bool.or_self, Bool.false_eq_true, if_false,
    if_true]
  exact if_pos hrange

/-- An integer of 64 bits is read back from its text. -/
theorem integer?_toString {n : Int} (hlow : -(integerEnd : Int) ≤ n) (hhigh : n < integerEnd) :
    integer? (toString n).toList = some n := by
  have hvalue : digitsValue (padded 0 n.natAbs) = n.natAbs := digitsValue_padded 0 n.natAbs
  have hne := padded_ne_nil 0 n.natAbs
  have hall : ∀ c ∈ padded 0 n.natAbs, isDigit c = true := fun c hc => isDigit_of_mem_padded hc
  rw [toList_toString]
  by_cases hneg : n < 0
  · have habs : -(n.natAbs : Int) = n := by omega
    rw [if_pos hneg, List.singleton_append, integer?_minus hne hall (by omega), hvalue, habs]
  · have habs : (n.natAbs : Int) = n := by omega
    rw [if_neg hneg, List.nil_append, integer?_digits hne hall (by omega), hvalue, habs]

/-- A natural number is written in digits only. -/
theorem toList_toString_natural (n : Nat) : (toString n).toList = padded 0 n := by
  have hinteger : toString n = toString (n : Int) := rfl
  rw [hinteger, toList_toString, if_neg (by omega), List.nil_append, Int.natAbs_natCast]

/-- A natural number beyond them is no integer of 64 bits. -/
theorem integer?_beyond {n : Nat} (h : integerEnd ≤ n) : integer? (toString n).toList = none := by
  rw [toList_toString_natural,
    integer?_of_digits (padded_ne_nil 0 n) fun c hc => isDigit_of_mem_padded hc,
    digitsValue_padded, if_neg (Nat.not_lt.2 h)]

theorem numeral_of_mem_toString {n : Int} {c : Char} (h : c ∈ (toString n).toList) :
    c = '-' ∨ isDigit c = true := by
  rw [toList_toString, List.mem_append] at h
  rcases h with hminus | hdigit
  · split at hminus
    · exact .inl (List.mem_singleton.1 hminus)
    · simp at hminus
  · exact .inr (isDigit_of_mem_padded hdigit)

theorem isBlank_of_mem_toString {n : Int} {c : Char} (h : c ∈ (toString n).toList) :
    isBlank c = false := by
  rcases numeral_of_mem_toString h with rfl | hdigit
  · decide
  · exact isBlank_of_isDigit hdigit

/-- There is no carriage return in an integer. -/
theorem return_not_mem_toString (n : Int) : (0x0d : UInt8) ∉ bytesOf (toString n) := by
  rw [bytesOf_eq_flatMap, List.mem_flatMap]
  rintro ⟨c, hc, hbyte⟩
  have hbounds : 45 ≤ c.toNat ∧ c.toNat ≤ 57 := by
    rcases numeral_of_mem_toString hc with rfl | hdigit
    · decide
    · obtain ⟨hlow, hhigh⟩ := isDigit_bounds hdigit
      omega
  rw [utf8EncodeChar_ascii (by omega), List.mem_singleton] at hbyte
  have hnat : 13 = c.toNat % 256 := congrArg UInt8.toNat hbyte
  omega

end ChatServer
