import ChatServer.Proofs.RoundTrip.Record

/-!
The grammar of blanks, strings and what stands between values, and that the readers follow it. Each
of these readers takes a text apart in the one way in which the grammar allows it, so it gives an
answer just if there is such a way.
-/

namespace ChatServer.Json

/-! ### Blanks -/

/-- Nothing but blanks. -/
def Blank (w : List Char) : Prop := ∀ c ∈ w, isSpace c = true

/-- A text that does not begin with a blank. -/
def Bare (cs : List Char) : Prop := ∀ c ∈ cs.head?, isSpace c = false

theorem blank_nil : Blank [] := fun _ hc => absurd hc List.not_mem_nil

theorem blank_cons {c : Char} (h : isSpace c = true) {w : List Char} (hw : Blank w) :
    Blank (c :: w) := by
  intro x hx
  rcases List.mem_cons.1 hx with rfl | hx
  · exact h
  · exact hw x hx

/-- The blanks that a text begins with, and what follows them. -/
theorem exists_blank (cs : List Char) :
    ∃ w, Blank w ∧ cs = w ++ skipSpace cs ∧ Bare (skipSpace cs) := by
  refine ⟨cs.takeWhile isSpace, fun c hc => ?_, (List.takeWhile_append_dropWhile).symm,
    fun c hc => ?_⟩
  · exact List.all_eq_true.1 List.all_takeWhile c hc
  · have hhead := List.head?_dropWhile_not isSpace cs
    rw [show cs.dropWhile isSpace = skipSpace cs from rfl, Option.mem_def.1 hc] at hhead
    simpa using hhead

theorem skipSpace_append {w : List Char} (h : Blank w) (cs : List Char) :
    skipSpace (w ++ cs) = skipSpace cs := by
  induction w with
  | nil => rfl
  | cons c w ih =>
      have hc := h c List.mem_cons_self
      have hw : Blank w := fun x hx => h x (List.mem_cons_of_mem c hx)
      simpa [skipSpace, List.dropWhile_cons, hc] using ih hw

theorem skipSpace_append_cons {w : List Char} (h : Blank w) {c : Char} (hc : isSpace c = false)
    (cs : List Char) : skipSpace (w ++ c :: cs) = c :: cs := by
  rw [skipSpace_append h, skipSpace_cons hc]

theorem skipSpace_eq_nil_iff {cs : List Char} : skipSpace cs = [] ↔ Blank cs := by
  constructor
  · intro h
    obtain ⟨w, hw, hcs, -⟩ := exists_blank cs
    rw [h, List.append_nil] at hcs
    rwa [hcs]
  · intro h
    have hskip := skipSpace_append h []
    rwa [List.append_nil] at hskip

/-! ### Strings -/

/-- The characters that have an escape of one letter. -/
def shortEscapes : List (Char × Char) :=
  [('"', '"'), ('\\', '\\'), ('/', '/'), ('b', '\x08'), ('f', '\x0c'), ('n', '\n'), ('r', '\r'),
    ('t', '\t')]

/-- What may be written for one character of a string: the character itself unless it has to be
escaped, its letter behind a backslash, its number, or two surrogates for a number that is too
large. -/
inductive CharText : Char → List Char → Prop
  | plain {c : Char} (quote : c ≠ '"') (backslash : c ≠ '\\') (control : 0x20 ≤ c.toNat) :
      CharText c [c]
  | short {letter c : Char} (escape : (letter, c) ∈ shortEscapes) : CharText c ['\\', letter]
  | unit {a b c d : Char} {n : Nat} (digits : hexValue4? a b c d = some n)
      (low : isLowSurrogate n = false) (high : isHighSurrogate n = false) :
      CharText (Char.ofNat n) ['\\', 'u', a, b, c, d]
  | pair {a b c d a' b' c' d' : Char} {n n' : Nat} (digits : hexValue4? a b c d = some n)
      (high : isHighSurrogate n = true) (digits' : hexValue4? a' b' c' d' = some n')
      (low : isLowSurrogate n' = true) :
      CharText (joinSurrogates n n')
        ['\\', 'u', a, b, c, d, '\\', 'u', a', b', c', d']

/-- What may be written for the characters of a string, with the closing quote. -/
def CharsText : List Char → List Char → Prop
  | [], w => w = ['"']
  | c :: cs, w => ∃ u u', CharText c u ∧ CharsText cs u' ∧ w = u ++ u'

/-- What may be written for a string. -/
def StringText (s : String) (w : List Char) : Prop :=
  ∃ u, CharsText s.toList u ∧ w = '"' :: u

theorem readHex_digits {a b c d : Char} {n : Nat} (h : hexValue4? a b c d = some n)
    (rest : List Char) : readHex (a :: b :: c :: d :: rest) = .ok (n, rest) := by
  simp only [readHex, h]

theorem readHex_eq_ok {cs : List Char} {n : Nat} {rest : List Char} :
    readHex cs = .ok (n, rest) ↔
      ∃ a b c d, hexValue4? a b c d = some n ∧ cs = a :: b :: c :: d :: rest := by
  constructor
  · intro h
    unfold readHex at h
    rcases cs with _ | ⟨a, _ | ⟨b, _ | ⟨c, _ | ⟨d, rest'⟩⟩⟩⟩
    case cons.cons.cons.cons =>
      cases hdigits : hexValue4? a b c d with
      | none => simp only [hdigits, reduceCtorEq] at h
      | some m =>
          simp only [hdigits] at h
          obtain ⟨rfl, rfl⟩ := Prod.mk.inj (Except.ok.inj h)
          exact ⟨a, b, c, d, hdigits, rfl⟩
    -- fewer than four characters
    all_goals cases h
  · rintro ⟨a, b, c, d, hdigits, rfl⟩
    exact readHex_digits hdigits rest

theorem readLowSurrogate_escape (high : Nat) (cs : List Char) :
    readLowSurrogate high ('\\' :: 'u' :: cs) =
      match readHex cs with
      | .error f => .error f
      | .ok (low, rest) =>
        if isLowSurrogate low then .ok (joinSurrogates high low, rest)
        else .error (stopAt .loneSurrogate rest) := rfl

theorem readEscape_unit (cs : List Char) :
    readEscape ('u' :: cs) =
      match readHex cs with
      | .error f => .error f
      | .ok (n, rest) =>
        if isLowSurrogate n then .error (stopAt .loneSurrogate rest)
        else if isHighSurrogate n then readLowSurrogate n rest
        else .ok (Char.ofNat n, rest) := rfl

theorem readLowSurrogate_eq_ok {high : Nat} {cs : List Char} {c : Char} {rest : List Char} :
    readLowSurrogate high cs = .ok (c, rest) ↔
      ∃ n u, readHex u = .ok (n, rest) ∧ isLowSurrogate n = true ∧ c = joinSurrogates high n ∧
        cs = '\\' :: 'u' :: u := by
  constructor
  · intro h
    unfold readLowSurrogate at h
    split at h
    case h_3 u =>
      rcases hhex : readHex u with e | ⟨n, rest'⟩
      · simp only [hhex, reduceCtorEq] at h
      · simp only [hhex] at h
        split at h
        case isTrue hlow =>
          obtain ⟨rfl, rfl⟩ := Prod.mk.inj (Except.ok.inj h)
          exact ⟨n, u, hhex, hlow, rfl, rfl⟩
        case isFalse => cases h
    -- no escape of a code unit stands there
    all_goals cases h
  · rintro ⟨n, u, hhex, hlow, hc, hcs⟩
    rw [hcs, readLowSurrogate_escape, hhex, hc]
    simp only [hlow, if_true]

/-- No code unit stands both in front of another and behind one. -/
theorem isLowSurrogate_of_high {n : Nat} (h : isHighSurrogate n = true) :
    isLowSurrogate n = false := by
  simp only [isHighSurrogate, isLowSurrogate, Bool.and_eq_true, Bool.and_eq_false_iff,
    decide_eq_true_eq, decide_eq_false_iff_not] at h ⊢
  omega

/-- An escape is read just if it is one. -/
theorem readEscape_eq_ok {cs : List Char} {c : Char} {rest : List Char} :
    readEscape cs = .ok (c, rest) ↔ ∃ u, CharText c ('\\' :: u) ∧ cs = u ++ rest := by
  constructor
  · intro h
    have hshort : ∀ letter, (letter, c) ∈ shortEscapes → cs = letter :: rest →
        ∃ u, CharText c ('\\' :: u) ∧ cs = u ++ rest :=
      fun letter hescape hcs => ⟨[letter], .short hescape, hcs⟩
    unfold readEscape at h
    split at h
    case h_1 => cases h
    case h_11 => cases h
    case h_10 cs' =>
      rcases hhex : readHex cs' with e | ⟨n, rest'⟩
      · simp only [hhex, reduceCtorEq] at h
      · simp only [hhex] at h
        obtain ⟨a, b, c', d, hdigits, rfl⟩ := readHex_eq_ok.1 hhex
        split at h
        case isTrue => cases h
        case isFalse hlow =>
          split at h
          case isTrue hhigh =>
            obtain ⟨n', u, hhex', hlow', hc, hcs⟩ := readLowSurrogate_eq_ok.1 h
            obtain ⟨a', b', c'', d', hdigits', rfl⟩ := readHex_eq_ok.1 hhex'
            rw [hc, hcs]
            exact ⟨['u', a, b, c', d, '\\', 'u', a', b', c'', d'],
              .pair hdigits hhigh hdigits' hlow', rfl⟩
          case isFalse hhigh =>
            obtain ⟨rfl, rfl⟩ := Prod.mk.inj (Except.ok.inj h)
            exact ⟨['u', a, b, c', d],
              .unit hdigits (Bool.eq_false_iff.2 hlow) (Bool.eq_false_iff.2 hhigh), rfl⟩
    -- the escapes of one letter
    all_goals
      obtain ⟨rfl, rfl⟩ := Prod.mk.inj (Except.ok.inj h)
      exact hshort _ (by decide) rfl
  · rintro ⟨u, htext, rfl⟩
    generalize hw : '\\' :: u = w at htext
    cases htext with
    | plain quote backslash control =>
        exact absurd (List.cons.inj hw).1.symm backslash
    | short escape =>
        obtain ⟨-, rfl⟩ := List.cons.inj hw
        simp only [shortEscapes, List.mem_cons, Prod.mk.injEq, List.not_mem_nil, or_false] at escape
        rcases escape with ⟨rfl, rfl⟩ | ⟨rfl, rfl⟩ | ⟨rfl, rfl⟩ | ⟨rfl, rfl⟩ | ⟨rfl, rfl⟩ |
          ⟨rfl, rfl⟩ | ⟨rfl, rfl⟩ | ⟨rfl, rfl⟩ <;> rfl
    | unit digits low high =>
        obtain ⟨-, rfl⟩ := List.cons.inj hw
        rw [List.cons_append, readEscape_unit]
        simp only [List.cons_append, List.nil_append]
        rw [readHex_digits digits]
        simp only [low, high, Bool.false_eq_true, if_false]
    | pair digits high digits' low =>
        obtain ⟨-, rfl⟩ := List.cons.inj hw
        rw [List.cons_append, readEscape_unit]
        simp only [List.cons_append, List.nil_append]
        rw [readHex_digits digits]
        simp only [isLowSurrogate_of_high high, high, Bool.false_eq_true, if_false, if_true]
        exact readLowSurrogate_eq_ok.2 ⟨_, _, readHex_digits digits' rest, low, rfl, rfl⟩

theorem CharText.cases {c : Char} {u : List Char} (h : CharText c u) :
    (u = [c] ∧ c ≠ '"' ∧ c ≠ '\\' ∧ 0x20 ≤ c.toNat) ∨ ∃ u', u = '\\' :: u' := by
  cases h with
  | plain quote backslash control => exact .inl ⟨rfl, quote, backslash, control⟩
  | short escape => exact .inr ⟨_, rfl⟩
  | unit digits low high => exact .inr ⟨_, rfl⟩
  | pair digits high digits' low => exact .inr ⟨_, rfl⟩

theorem CharText.length_pos {c : Char} {u : List Char} (h : CharText c u) : 0 < u.length := by
  rcases h.cases with ⟨rfl, -⟩ | ⟨u', rfl⟩ <;> simp

theorem CharsText.length_lt {s w : List Char} (h : CharsText s w) : s.length < w.length := by
  induction s generalizing w with
  | nil =>
      rw [show w = ['"'] from h]
      decide
  | cons c s ih =>
      obtain ⟨u, u', hu, hu', rfl⟩ := h
      have hpos := hu.length_pos
      have hlt := ih hu'
      rw [List.length_append, List.length_cons]
      omega

theorem charsText_of_readChars {fuel : Nat} {cs s rest : List Char}
    (h : readChars fuel cs = .ok (s, rest)) : ∃ w, CharsText s w ∧ cs = w ++ rest := by
  induction fuel generalizing cs s with
  | zero => cases h
  | succ fuel ih =>
      cases cs with
      | nil => cases h
      | cons c cs =>
          rw [readChars] at h
          split at h
          case isTrue hquote =>
            obtain ⟨rfl, rfl⟩ := Prod.mk.inj (Except.ok.inj h)
            exact ⟨['"'], rfl, by rw [hquote]; rfl⟩
          case isFalse hquote =>
            split at h
            case isTrue hbackslash =>
              rcases hescape : readEscape cs with e | ⟨c', rest'⟩
              · simp only [hescape, reduceCtorEq] at h
              · simp only [hescape] at h
                obtain ⟨u, hu, rfl⟩ := readEscape_eq_ok.1 hescape
                rcases hchars : readChars fuel rest' with e | ⟨s', rest''⟩
                · simp only [hchars, reduceCtorEq] at h
                · simp only [hchars] at h
                  obtain ⟨rfl, rfl⟩ := Prod.mk.inj (Except.ok.inj h)
                  obtain ⟨w, hw, rfl⟩ := ih hchars
                  exact ⟨'\\' :: u ++ w, ⟨_, w, hu, hw, rfl⟩, by rw [hbackslash]; simp⟩
            case isFalse hbackslash =>
              split at h
              case isTrue => cases h
              case isFalse hcontrol =>
                rcases hchars : readChars fuel cs with e | ⟨s', rest'⟩
                · simp only [hchars, reduceCtorEq] at h
                · simp only [hchars] at h
                  obtain ⟨rfl, rfl⟩ := Prod.mk.inj (Except.ok.inj h)
                  obtain ⟨w, hw, rfl⟩ := ih hchars
                  exact ⟨[c] ++ w,
                    ⟨[c], w, .plain hquote hbackslash (Nat.le_of_not_lt hcontrol), hw, rfl⟩, rfl⟩

theorem readChars_of_charsText {s w : List Char} (h : CharsText s w) {fuel : Nat}
    (hfuel : s.length < fuel) (rest : List Char) : readChars fuel (w ++ rest) = .ok (s, rest) := by
  induction s generalizing w fuel with
  | nil =>
      cases fuel with
      | zero => exact absurd hfuel (Nat.not_lt_zero _)
      | succ fuel =>
          rw [show w = ['"'] from h]
          rfl
  | cons c s ih =>
      cases fuel with
      | zero => exact absurd hfuel (Nat.not_lt_zero _)
      | succ fuel =>
          obtain ⟨u, w, hu, hw, rfl⟩ := h
          have hrest := ih hw (Nat.lt_of_succ_lt_succ hfuel)
          rw [List.append_assoc]
          rcases hu.cases with ⟨rfl, hquote, hbackslash, hcontrol⟩ | ⟨u', rfl⟩
          · rw [List.singleton_append, readChars, if_neg hquote, if_neg hbackslash,
              if_neg (Nat.not_lt.2 hcontrol), hrest]
          · have hescape : readEscape (u' ++ (w ++ rest)) = .ok (c, w ++ rest) :=
              readEscape_eq_ok.2 ⟨u', hu, rfl⟩
            rw [List.cons_append, readChars, if_neg (by decide), if_pos rfl, hescape]
            dsimp only
            rw [hrest]

/-- A string is read from behind its opening quote just if one is written there. -/
theorem readString_eq_ok {cs : List Char} {s : String} {rest : List Char} :
    readString cs = .ok (s, rest) ↔ ∃ w, CharsText s.toList w ∧ cs = w ++ rest := by
  constructor
  · intro h
    unfold readString at h
    rcases hchars : readChars (cs.length + 1) cs with e | ⟨s', rest'⟩
    · simp only [hchars, reduceCtorEq] at h
    · simp only [hchars] at h
      obtain ⟨rfl, rfl⟩ := Prod.mk.inj (Except.ok.inj h)
      rw [String.toList_ofList]
      exact charsText_of_readChars hchars
  · rintro ⟨w, hw, rfl⟩
    have hfuel : s.toList.length < (w ++ rest).length + 1 := by
      have hlt := hw.length_lt
      rw [List.length_append]
      omega
    rw [readString, readChars_of_charsText hw hfuel rest]
    simp only [String.ofList_toList]

theorem readText_eq_ok {expected : String} {cs : List Char} {s : String} {rest : List Char} :
    readText expected cs = .ok (s, rest) ↔
      ∃ b q, Blank b ∧ StringText s q ∧ cs = b ++ (q ++ rest) := by
  constructor
  · intro h
    obtain ⟨b, hb, hcs, -⟩ := exists_blank cs
    unfold readText at h
    split at h
    case h_1 u hskip =>
      obtain ⟨w, hw, rfl⟩ := readString_eq_ok.1 h
      exact ⟨b, '"' :: w, hb, ⟨w, hw, rfl⟩, by rw [hcs, hskip]; rfl⟩
    case h_2 => cases h
  · rintro ⟨b, q, hb, ⟨w, hw, rfl⟩, rfl⟩
    rw [readText, List.cons_append, skipSpace_append_cons hb (by decide)]
    exact readString_eq_ok.2 ⟨w, hw, rfl⟩

theorem readLiteral_eq_ok {ls cs rest : List Char} :
    readLiteral ls cs = .ok rest ↔ cs = ls ++ rest := by
  induction ls generalizing cs with
  | nil => exact ⟨Except.ok.inj, congrArg Except.ok⟩
  | cons l ls ih =>
      cases cs with
      | nil => exact ⟨(nomatch ·), (nomatch ·)⟩
      | cons c cs =>
          rw [readLiteral, List.cons_append, List.cons.injEq, ← ih]
          split
          case isTrue hc =>
            exact ⟨fun h => ⟨hc, h⟩, fun h => h.2⟩
          case isFalse hc =>
            exact ⟨(nomatch ·), fun h => absurd h.1 hc⟩

/-! ### Between values -/

/-- What stands in front of an item or a member: blanks, and unless it is the first one a comma
among them. -/
def Lead : Bool → List Char → Prop
  | true, w => Blank w
  | false, w => ∃ b b', Blank b ∧ Blank b' ∧ w = b ++ ',' :: b'

theorem Blank.append {w w' : List Char} (h : Blank w) (h' : Blank w') : Blank (w ++ w') :=
  fun c hc => (List.mem_append.1 hc).elim (h c) (h' c)

theorem Lead.append {first : Bool} {l b : List Char} (h : Lead first l) (hb : Blank b) :
    Lead first (l ++ b) := by
  cases first with
  | true => exact Blank.append h hb
  | false =>
      obtain ⟨w, w', hw, hw', rfl⟩ := h
      exact ⟨w, w' ++ b, hw, hw'.append hb, by simp⟩

theorem nextItem_eq_closed {first : Bool} {cs rest : List Char} :
    nextItem first cs = .ok (.closed rest) ↔ ∃ b, Blank b ∧ cs = b ++ ']' :: rest := by
  constructor
  · intro h
    obtain ⟨b, hb, hcs, -⟩ := exists_blank cs
    unfold nextItem at h
    split at h
    case h_1 => cases h
    case h_2 u hskip =>
      cases h
      exact ⟨b, hb, by rw [hcs, hskip]⟩
    case h_3 =>
      split at h
      · cases h
      · split at h
        · split at h <;> cases h
        · cases h
  · rintro ⟨b, hb, rfl⟩
    rw [nextItem, skipSpace_append_cons hb (by decide)]
    rfl

theorem lead_of_nextItem {first : Bool} {cs rest : List Char}
    (h : nextItem first cs = .ok (.more () rest)) : ∃ l, Lead first l ∧ cs = l ++ rest := by
  obtain ⟨b, hb, hcs, -⟩ := exists_blank cs
  unfold nextItem at h
  split at h
  case h_1 => cases h
  case h_2 => cases h
  case h_3 c u _ hskip =>
    split at h
    case isTrue hfirst =>
      cases h
      rw [hfirst]
      exact ⟨b, hb, by rw [hcs, hskip]⟩
    case isFalse hlater =>
      split at h
      case isTrue hcomma =>
        obtain ⟨b', hb', hu, -⟩ := exists_blank u
        split at h
        · cases h
        · cases h
        · cases h
          rw [Bool.eq_false_iff.2 hlater]
          refine ⟨b ++ ',' :: b', ⟨b, b', hb, hb', rfl⟩, ?_⟩
          rw [List.append_assoc, List.cons_append, ← hu, ← hcomma, ← hskip]
          exact hcs
      case isFalse => cases h

theorem nextItem_of_lead {first : Bool} {l : List Char} (h : Lead first l) {c : Char}
    (hc : isSpace c = false) (hend : c ≠ ']') (cs : List Char) :
    nextItem first (l ++ c :: cs) = .ok (.more () (c :: cs)) := by
  cases first with
  | true =>
      rw [nextItem, skipSpace_append_cons h hc]
      split
      case h_1 heq => cases heq
      case h_2 heq => exact absurd (List.cons.inj heq).1 hend
      case h_3 heq =>
        rw [← heq]
        rfl
  | false =>
      obtain ⟨b, b', hb, hb', rfl⟩ := h
      rw [List.append_assoc, List.cons_append, nextItem, skipSpace_append_cons hb (by decide)]
      refine (if_neg Bool.false_ne_true).trans ((if_pos rfl).trans ?_)
      rw [skipSpace_append_cons hb' hc]
      split
      case h_1 heq => cases heq
      case h_2 heq => exact absurd (List.cons.inj heq).1 hend
      case h_3 => rfl

/-- The name of a member where one has to stand. -/
def keyHere : List Char → Except Fault (Next String)
  | [] => .error (stopAt .valueEnds [])
  | '"' :: rest =>
    match readString rest with
    | .error f => .error f
    | .ok (k, rest) => .ok (.more k rest)
  | '\x7d' :: rest => .error (stopOn .trailingComma ('\x7d' :: rest))
  | cs => .error (stopOn .keyNotText cs)

theorem nextKey_eq (first : Bool) (cs : List Char) :
    nextKey first cs =
      match skipSpace cs with
      | [] => .error (stopAt .objectEnds [])
      | '\x7d' :: rest => .ok (.closed rest)
      | c :: rest =>
        if first then keyHere (c :: rest)
        else if c = ',' then keyHere (skipSpace rest)
        else .error (stopOn .expectedObjectCommaOrEnd (c :: rest)) := rfl

theorem keyHere_eq_more {cs : List Char} {k : String} {rest : List Char} :
    keyHere cs = .ok (.more k rest) ↔ ∃ q, StringText k q ∧ cs = q ++ rest := by
  constructor
  · intro h
    unfold keyHere at h
    split at h
    case h_2 u =>
      rcases hread : readString u with e | ⟨k', rest'⟩
      · simp only [hread, reduceCtorEq] at h
      · simp only [hread] at h
        cases h
        obtain ⟨w, hw, rfl⟩ := readString_eq_ok.1 hread
        exact ⟨'"' :: w, ⟨w, hw, rfl⟩, rfl⟩
    -- no quote stands there
    all_goals cases h
  · rintro ⟨q, ⟨w, hw, rfl⟩, rfl⟩
    rw [List.cons_append, keyHere, readString_eq_ok.2 ⟨w, hw, rfl⟩]

theorem keyHere_ne_closed {cs rest : List Char} : keyHere cs ≠ .ok (.closed rest) := by
  intro h
  unfold keyHere at h
  split at h
  · cases h
  · split at h <;> cases h
  · cases h
  · cases h

theorem nextKey_eq_closed {first : Bool} {cs rest : List Char} :
    nextKey first cs = .ok (.closed rest) ↔ ∃ b, Blank b ∧ cs = b ++ '\x7d' :: rest := by
  constructor
  · intro h
    obtain ⟨b, hb, hcs, -⟩ := exists_blank cs
    rw [nextKey_eq] at h
    split at h
    case h_1 => cases h
    case h_2 u hskip =>
      cases h
      exact ⟨b, hb, by rw [hcs, hskip]⟩
    case h_3 =>
      split at h
      · exact absurd h keyHere_ne_closed
      · split at h
        · exact absurd h keyHere_ne_closed
        · cases h
  · rintro ⟨b, hb, rfl⟩
    rw [nextKey_eq, skipSpace_append_cons hb (by decide)]
    rfl

/-- A name is read just if it stands there behind what has to stand in front of it. -/
theorem nextKey_eq_more {first : Bool} {cs : List Char} {k : String} {rest : List Char} :
    nextKey first cs = .ok (.more k rest) ↔
      ∃ l q, Lead first l ∧ StringText k q ∧ cs = l ++ (q ++ rest) := by
  constructor
  · intro h
    obtain ⟨b, hb, hcs, -⟩ := exists_blank cs
    rw [nextKey_eq] at h
    split at h
    case h_1 => cases h
    case h_2 => cases h
    case h_3 c u _ hskip =>
      split at h
      case isTrue hfirst =>
        obtain ⟨q, hq, heq⟩ := keyHere_eq_more.1 h
        rw [hfirst]
        exact ⟨b, q, hb, hq, by rw [hcs, hskip, heq]⟩
      case isFalse hlater =>
        split at h
        case isTrue hcomma =>
          obtain ⟨b', hb', hu, -⟩ := exists_blank u
          obtain ⟨q, hq, heq⟩ := keyHere_eq_more.1 h
          rw [Bool.eq_false_iff.2 hlater]
          refine ⟨b ++ ',' :: b', q, ⟨b, b', hb, hb', rfl⟩, hq, ?_⟩
          rw [List.append_assoc, List.cons_append, ← heq, ← hu, ← hcomma, ← hskip]
          exact hcs
        case isFalse => cases h
  · rintro ⟨l, q, hl, hq, rfl⟩
    have hkey : keyHere (q ++ rest) = .ok (.more k rest) := keyHere_eq_more.2 ⟨q, hq, rfl⟩
    obtain ⟨w, -, rfl⟩ := hq
    cases first with
    | true =>
        rw [nextKey_eq, List.cons_append, skipSpace_append_cons hl (by decide)]
        exact hkey
    | false =>
        obtain ⟨b, b', hb, hb', rfl⟩ := hl
        rw [nextKey_eq, List.append_assoc, List.cons_append,
          skipSpace_append_cons hb (by decide)]
        have hskip : skipSpace (b' ++ ('"' :: w ++ rest)) = '"' :: w ++ rest :=
          skipSpace_append_cons hb' (by decide) (w ++ rest)
        exact (congrArg keyHere hskip).trans hkey

theorem readColon_eq_ok {cs rest : List Char} :
    readColon cs = .ok rest ↔ ∃ b, Blank b ∧ cs = b ++ ':' :: rest := by
  constructor
  · intro h
    obtain ⟨b, hb, hcs, -⟩ := exists_blank cs
    unfold readColon at h
    split at h
    case h_1 => cases h
    case h_2 u hskip =>
      cases h
      exact ⟨b, hb, by rw [hcs, hskip]⟩
    case h_3 => cases h
  · rintro ⟨b, hb, rfl⟩
    rw [readColon, skipSpace_append_cons hb (by decide)]
    rfl

end ChatServer.Json
