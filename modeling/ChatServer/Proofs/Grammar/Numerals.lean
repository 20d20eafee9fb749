import ChatServer.Proofs.Grammar.Words
import ChatServer.Proofs.RoundTrip.Digits

/-!
The grammar of numbers, and that the readers follow it. A number ends where its digits do, so what
a reader makes of one does not depend on what follows, as long as that cannot go on with it.
-/

namespace ChatServer.Json

/-! ### Runs of digits -/

/-- Nothing but digits. -/
def Digits (w : List Char) : Prop := ∀ c ∈ w, isDigit c = true

/-- A text that does not begin with a digit. -/
def Undigited (cs : List Char) : Prop := ∀ c ∈ cs.head?, isDigit c = false

/-- A text that cannot go on with a number. -/
def Stops (cs : List Char) : Prop :=
  ∀ c ∈ cs.head?, isDigit c = false ∧ c ≠ '.' ∧ c ≠ 'e' ∧ c ≠ 'E'

theorem Stops.undigited {cs : List Char} (h : Stops cs) : Undigited cs := fun c hc => (h c hc).1

theorem stops_nil : Stops [] := fun _ hc => nomatch hc

theorem undigited_cons {c : Char} (h : isDigit c = false) (cs : List Char) :
    Undigited (c :: cs) := by
  intro x hx
  rw [← Option.some.inj hx]
  exact h

theorem stops_cons {c : Char} (h : isDigit c = false ∧ c ≠ '.' ∧ c ≠ 'e' ∧ c ≠ 'E')
    (cs : List Char) : Stops (c :: cs) := by
  intro x hx
  rw [← Option.some.inj hx]
  exact h

/-- The digits that a text begins with, and what follows them. -/
theorem exists_digits (cs : List Char) : ∃ ds u, Digits ds ∧ Undigited u ∧ cs = ds ++ u := by
  refine ⟨cs.takeWhile isDigit, cs.dropWhile isDigit, fun c hc => ?_, fun c hc => ?_,
    List.takeWhile_append_dropWhile.symm⟩
  · exact List.all_eq_true.1 List.all_takeWhile c hc
  · have hhead := List.head?_dropWhile_not isDigit cs
    rw [Option.mem_def.1 hc] at hhead
    simpa using hhead

theorem dropWhile_digits {ds u : List Char} (hds : Digits ds) (hu : Undigited u) :
    (ds ++ u).dropWhile isDigit = u := by
  rw [List.dropWhile_append_of_pos hds]
  cases u with
  | nil => rfl
  | cons c u => rw [List.dropWhile_cons_of_neg (by rw [hu c rfl]; decide)]

theorem countDigits_digits {ds u : List Char} (hds : Digits ds) (hu : Undigited u) :
    countDigits (ds ++ u) = (ds.length, u) := by
  induction ds with
  | nil =>
      cases u with
      | nil => rfl
      | cons c u => simp [countDigits, hu c rfl]
  | cons d ds ih =>
      have hd := hds d List.mem_cons_self
      have hrest := ih fun c hc => hds c (List.mem_cons_of_mem d hc)
      simp [countDigits, hd, hrest]

/-- How far a run of digits is absorbed does not depend on what follows the run. -/
theorem absorb_digits (bound n : Nat) {ds : List Char} (hds : Digits ds) :
    ∃ m taken left, ds = taken ++ left ∧
      ∀ u, Undigited u → absorb bound n (ds ++ u) = (m, left ++ u) := by
  induction ds generalizing n with
  | nil =>
      refine ⟨n, [], [], rfl, fun u hu => ?_⟩
      cases u with
      | nil => rfl
      | cons c u => simp [absorb, hu c rfl]
  | cons d ds ih =>
      have hd := hds d List.mem_cons_self
      by_cases hfits : 10 * n + (d.toNat - 48) < bound
      · obtain ⟨m, taken, left, heq, hrest⟩ :=
          ih (10 * n + (d.toNat - 48)) fun c hc => hds c (List.mem_cons_of_mem d hc)
        refine ⟨m, d :: taken, left, by rw [heq]; rfl, fun u hu => ?_⟩
        rw [List.cons_append, absorb, if_pos ⟨hd, hfits⟩]
        exact hrest u hu
      · refine ⟨n, [], d :: ds, rfl, fun u _ => ?_⟩
        rw [List.cons_append, absorb, if_neg fun h => hfits h.2]

/-! ### Numbers -/

/-- The whole part of a number: digits, of which the first is zero only if it is alone. -/
def WholeText (w : List Char) : Prop :=
  Digits w ∧ w ≠ [] ∧ ∀ ds, w = '0' :: ds → ds = []

/-- An exponent from behind its letter on. -/
def ExponentText (w : List Char) : Prop :=
  ∃ sign ds, sign ∈ [[], ['+'], ['-']] ∧ Digits ds ∧ ds ≠ [] ∧ w = sign ++ ds

/-- An exponent if there is one. -/
def ScaleText (w : List Char) : Prop :=
  w = [] ∨ ∃ u, ExponentText u ∧ (w = 'e' :: u ∨ w = 'E' :: u)

/-- A fraction from behind the point on. -/
def FractionText (w : List Char) : Prop :=
  ∃ ds u, Digits ds ∧ ds ≠ [] ∧ ScaleText u ∧ w = ds ++ u

/-- What may follow the whole part of a number. -/
def TailText (w : List Char) : Prop := ScaleText w ∨ ∃ u, FractionText u ∧ w = '.' :: u

/-- A number from its first digit on. -/
def UnsignedText (w : List Char) : Prop := ∃ ds u, WholeText ds ∧ TailText u ∧ w = ds ++ u

/-- What may be written for a number. A reader tells what number it is, as it may round. -/
inductive NumberText : Number → List Char → Prop
  | plain {n : Number} {w : List Char} (form : UnsignedText w)
      (value : readNumber false w = .ok (n, [])) : NumberText n w
  | minus {n : Number} {w : List Char} (form : UnsignedText w)
      (value : readNumber true w = .ok (n, [])) : NumberText n ('-' :: w)

/-- A reader takes just this number, whatever stops it. -/
def Takes (reader : Reader Number) (w : List Char) (n : Number) : Prop :=
  ∀ rest, Stops rest → reader (w ++ rest) = .ok (n, rest)

/-- A reader takes a number, or finds it out of range, whatever stops it. -/
def Settles (reader : Reader Number) (w : List Char) : Prop :=
  (∃ n, Takes reader w n) ∨
    ∀ rest, Stops rest → ∃ unread, reader (w ++ rest) = .error (stopAt .numberOutOfRange unread)

/-- A reader follows a form of numbers. What it reads has the form, and nothing that stops the
number changes what it is; and what has the form is read unless it is out of range. -/
structure Conforms (reader : Reader Number) (form : List Char → Prop) : Prop where
  sound : ∀ {cs n rest}, reader cs = .ok (n, rest) →
    ∃ w, form w ∧ cs = w ++ rest ∧ Takes reader w n
  complete : ∀ {w}, form w → Settles reader w

section
variable {reader reader' : Reader Number} {form : List Char → Prop} {c : Char} {w w' : List Char}

theorem Takes.alone {n : Number} (h : Takes reader w n) : reader w = .ok (n, []) := by
  have hread := h [] stops_nil
  rwa [List.append_nil] at hread

theorem Takes.congr {n : Number} (h : Takes reader w n)
    (heq : ∀ rest, Stops rest → reader' (w' ++ rest) = reader (w ++ rest)) : Takes reader' w' n :=
  fun rest hrest => (heq rest hrest).trans (h rest hrest)

theorem Settles.congr (h : Settles reader w)
    (heq : ∀ rest, Stops rest → reader' (w' ++ rest) = reader (w ++ rest)) :
    Settles reader' w' := by
  rcases h with ⟨n, htakes⟩ | hexceeds
  · exact .inl ⟨n, htakes.congr heq⟩
  · refine .inr fun rest hrest => ?_
    obtain ⟨unread, herror⟩ := hexceeds rest hrest
    exact ⟨unread, (heq rest hrest).trans herror⟩

theorem Conforms.sound_mark (h : Conforms reader form) (hc : ∀ cs, reader' (c :: cs) = reader cs)
    {cs : List Char} {n : Number} {rest : List Char} (hread : reader' (c :: cs) = .ok (n, rest)) :
    ∃ w, form w ∧ c :: cs = c :: w ++ rest ∧ Takes reader' (c :: w) n := by
  rw [hc] at hread
  obtain ⟨w, hw, rfl, htakes⟩ := h.sound hread
  exact ⟨w, hw, rfl, htakes.congr fun rest _ => hc (w ++ rest)⟩

theorem Conforms.complete_mark (h : Conforms reader form)
    (hc : ∀ cs, reader' (c :: cs) = reader cs) (hw : form w) : Settles reader' (c :: w) :=
  (h.complete hw).congr fun rest _ => hc (w ++ rest)

end

section
variable (negative : Bool) (digits : Nat) (e : Int)

theorem realNumber_cases :
    (∃ n, ∀ cs, realNumber negative digits e cs = .ok (n, cs)) ∨
      ∀ cs, realNumber negative digits e cs = .error (stopAt .numberOutOfRange cs) := by
  cases h : Double.ofDecimal negative digits e with
  | none =>
      refine .inr fun cs => ?_
      rw [realNumber, h]
  | some x =>
      refine .inl ⟨.real x, fun cs => ?_⟩
      rw [realNumber, h]

/-- An exponent from behind its sign on. -/
def exponentDigits (up : Bool) : Reader Number
  | [] => .error (stopAt .valueEnds [])
  | c :: rest =>
    if !isDigit c then .error (stopOn .invalidNumber (c :: rest))
    else
      match absorb shortIntegerEnd 0 (c :: rest) with
      | (n, d :: rest) =>
        if isDigit d then
          if digits ≠ 0 ∧ up then .error (stopAt .numberOutOfRange rest)
          else .ok (.real { Double.zero with negative }, rest.dropWhile isDigit)
        else realNumber negative digits (if up then e + n else e - n) (d :: rest)
      | (n, []) => realNumber negative digits (if up then e + n else e - n) []

theorem readExponent_cases (cs : List Char) :
    ∃ up sign u, sign ∈ [[], ['+'], ['-']] ∧ cs = sign ++ u ∧
      readExponent negative digits e cs = exponentDigits negative digits e up u := by
  unfold readExponent
  split
  case h_1 up u hsign =>
  split at hsign
  · obtain ⟨rfl, rfl⟩ := Prod.mk.inj hsign
    exact ⟨true, ['+'], _, by decide, rfl, by cases ‹List Char› <;> rfl⟩
  · obtain ⟨rfl, rfl⟩ := Prod.mk.inj hsign
    exact ⟨false, ['-'], _, by decide, rfl, by cases ‹List Char› <;> rfl⟩
  · obtain ⟨rfl, rfl⟩ := Prod.mk.inj hsign
    exact ⟨true, [], cs, by decide, rfl, by cases cs <;> rfl⟩

theorem readExponent_sign {sign : List Char} (h : sign ∈ [[], ['+'], ['-']]) :
    ∃ up, ∀ c cs, isDigit c = true →
      readExponent negative digits e (sign ++ c :: cs) =
        exponentDigits negative digits e up (c :: cs) := by
  simp only [List.mem_cons, List.not_mem_nil, or_false] at h
  rcases h with rfl | rfl | rfl
  · refine ⟨true, fun c cs hc => ?_⟩
    have hplus : c ≠ '+' := ne_of_isDigit hc (by decide)
    have hminus : c ≠ '-' := ne_of_isDigit hc (by decide)
    rw [List.nil_append]
    unfold readExponent
    split
    case h_1 up u hsign =>
    split at hsign
    case h_1 heq => exact absurd (List.cons.inj heq).1 hplus
    case h_2 heq => exact absurd (List.cons.inj heq).1 hminus
    case h_3 =>
      obtain ⟨rfl, rfl⟩ := Prod.mk.inj hsign
      rfl
  · exact ⟨true, fun c cs _ => rfl⟩
  · exact ⟨false, fun c cs _ => rfl⟩

/-- What an exponent makes of a number is settled by the exponent's own digits. -/
theorem exponentDigits_cases (up : Bool) {ds : List Char} (hds : Digits ds) (hne : ds ≠ []) :
    (∃ n, ∀ u, Undigited u → exponentDigits negative digits e up (ds ++ u) = .ok (n, u)) ∨
      ∀ u, Undigited u → ∃ unread,
        exponentDigits negative digits e up (ds ++ u) =
          .error (stopAt .numberOutOfRange unread) := by
  obtain ⟨d, ds, rfl⟩ := List.exists_cons_of_ne_nil hne
  have hd := hds d List.mem_cons_self
  obtain ⟨m, taken, left, hsplit, habsorb⟩ := absorb_digits shortIntegerEnd 0 hds
  cases left with
  | nil =>
      have hreal : ∀ u, Undigited u → exponentDigits negative digits e up (d :: ds ++ u) =
          realNumber negative digits (if up then e + m else e - m) u := by
        intro u hu
        rw [List.cons_append, exponentDigits, ← List.cons_append, habsorb u hu]
        cases u with
        | nil => simp [hd]
        | cons c u => simp [hd, hu c rfl]
      rcases realNumber_cases negative digits (if up then e + m else e - m) with ⟨n, hok⟩ | herror
      · exact .inl ⟨n, fun u hu => (hreal u hu).trans (hok u)⟩
      · exact .inr fun u hu => ⟨u, (hreal u hu).trans (herror u)⟩
  | cons c left =>
      have hdigits : Digits (c :: left) := fun x hx => hds x (by
        rw [hsplit]
        exact List.mem_append_right taken hx)
      have hc := hdigits c List.mem_cons_self
      by_cases hexceeds : digits ≠ 0 ∧ up = true
      · refine .inr fun u hu => ⟨left ++ u, ?_⟩
        rw [List.cons_append, exponentDigits, ← List.cons_append, habsorb u hu]
        simp [hd, hc, hexceeds]
      · refine .inl ⟨.real { Double.zero with negative }, fun u hu => ?_⟩
        have hdrop : (left ++ u).dropWhile isDigit = u :=
          dropWhile_digits (fun x hx => hdigits x (List.mem_cons_of_mem c hx)) hu
        rw [List.cons_append, exponentDigits, ← List.cons_append, habsorb u hu]
        simp only [hd, List.cons_append, hc, if_neg hexceeds, hdrop]
        rfl

theorem conforms_readExponent : Conforms (readExponent negative digits e) ExponentText := by
  -- behind the sign the digits settle what is read
  have hcases : ∀ {sign ds}, sign ∈ [[], ['+'], ['-']] → Digits ds → ds ≠ [] →
      (∃ n, ∀ u, Undigited u →
        readExponent negative digits e (sign ++ ds ++ u) = .ok (n, u)) ∨
      ∀ u, Undigited u → ∃ unread,
        readExponent negative digits e (sign ++ ds ++ u) =
          .error (stopAt .numberOutOfRange unread) := by
    intro sign ds hsign hds hne
    obtain ⟨up, hup⟩ := readExponent_sign negative digits e hsign
    have hread : ∀ u, readExponent negative digits e (sign ++ ds ++ u) =
        exponentDigits negative digits e up (ds ++ u) := by
      intro u
      obtain ⟨d, ds, rfl⟩ := List.exists_cons_of_ne_nil hne
      rw [List.append_assoc]
      exact hup d (ds ++ u) (hds d List.mem_cons_self)
    simp only [hread]
    exact exponentDigits_cases negative digits e up hds hne
  constructor
  case sound =>
    intro cs n rest h
    obtain ⟨up, sign, u, hsign, rfl, hread⟩ := readExponent_cases negative digits e cs
    obtain ⟨ds, u, hds, hu, rfl⟩ := exists_digits u
    have hne : ds ≠ [] := by
      rintro rfl
      rw [hread, List.nil_append] at h
      cases u with
      | nil => cases h
      | cons c u =>
          rw [exponentDigits, hu c rfl] at h
          cases h
    rw [← List.append_assoc] at h ⊢
    rcases hcases hsign hds hne with ⟨m, hok⟩ | herror
    · rw [hok u hu] at h
      obtain ⟨rfl, rfl⟩ := Prod.mk.inj (Except.ok.inj h)
      exact ⟨sign ++ ds, ⟨sign, ds, hsign, hds, hne, rfl⟩, rfl,
        fun rest hrest => hok rest hrest.undigited⟩
    · obtain ⟨unread, heq⟩ := herror u hu
      rw [heq] at h
      cases h
  case complete =>
    rintro w ⟨sign, ds, hsign, hds, hne, rfl⟩
    rcases hcases hsign hds hne with ⟨n, hok⟩ | herror
    · exact .inl ⟨n, fun rest hrest => hok rest hrest.undigited⟩
    · exact .inr fun rest hrest => herror rest hrest.undigited

theorem readScale_of_stops {cs : List Char} (h : Stops cs) :
    readScale negative digits e cs = realNumber negative digits e cs := by
  unfold readScale
  split
  · exact absurd rfl (h 'e' rfl).2.2.1
  · exact absurd rfl (h 'E' rfl).2.2.2
  · rfl

theorem conforms_readScale : Conforms (readScale negative digits e) ScaleText := by
  have hexponent := conforms_readExponent negative digits e
  constructor
  case sound =>
    intro cs n rest h
    have hread := h
    unfold readScale at h
    split at h
    · obtain ⟨w, hw, heq, htakes⟩ := hexponent.sound_mark (fun _ => rfl) hread
      exact ⟨'e' :: w, .inr ⟨w, hw, .inl rfl⟩, heq, htakes⟩
    · obtain ⟨w, hw, heq, htakes⟩ := hexponent.sound_mark (fun _ => rfl) hread
      exact ⟨'E' :: w, .inr ⟨w, hw, .inr rfl⟩, heq, htakes⟩
    · rcases realNumber_cases negative digits e with ⟨m, hok⟩ | herror
      · rw [hok cs] at h
        obtain ⟨rfl, rfl⟩ := Prod.mk.inj (Except.ok.inj h)
        exact ⟨[], .inl rfl, rfl, fun rest hrest =>
          (readScale_of_stops negative digits e hrest).trans (hok rest)⟩
      · rw [herror cs] at h
        cases h
  case complete =>
    rintro w (rfl | ⟨u, hu, rfl | rfl⟩)
    · have hreal : Settles (realNumber negative digits e) [] := by
        rcases realNumber_cases negative digits e with ⟨n, hok⟩ | herror
        · exact .inl ⟨n, fun rest _ => hok rest⟩
        · exact .inr fun rest _ => ⟨rest, herror rest⟩
      exact hreal.congr fun rest hrest => readScale_of_stops negative digits e hrest
    · exact hexponent.complete_mark (fun _ => rfl) hu
    · exact hexponent.complete_mark (fun _ => rfl) hu

end

theorem ScaleText.undigited {w rest : List Char} (h : ScaleText w) (hrest : Stops rest) :
    Undigited (w ++ rest) := by
  rcases h with rfl | ⟨u, -, rfl | rfl⟩
  · exact hrest.undigited
  · exact undigited_cons (by decide) _
  · exact undigited_cons (by decide) _

theorem TailText.undigited {w rest : List Char} (h : TailText w) (hrest : Stops rest) :
    Undigited (w ++ rest) := by
  rcases h with hscale | ⟨u, -, rfl⟩
  · exact hscale.undigited hrest
  · exact undigited_cons (by decide) _

section
variable (negative : Bool) (digits : Nat) (e : Int)

/-- The digits of a fraction settle what number its exponent, if any, stands behind. -/
theorem readFraction_digits {ds : List Char} (hds : Digits ds) (hne : ds ≠ []) :
    ∃ m e', ∀ u, Undigited u →
      readFraction negative digits e (ds ++ u) = readScale negative m e' u := by
  obtain ⟨d, ds, rfl⟩ := List.exists_cons_of_ne_nil hne
  obtain ⟨m, taken, left, hsplit, habsorb⟩ := absorb_digits naturalEnd digits hds
  have hleft : Digits left := fun c hc => hds c (by
    rw [hsplit]
    exact List.mem_append_right taken hc)
  refine ⟨m, e - taken.length, fun u hu => ?_⟩
  have hcount : (d :: ds ++ u).length - (left ++ u).length = taken.length := by
    rw [hsplit]
    simp only [List.length_append]
    omega
  have hd := hds d List.mem_cons_self
  rw [List.cons_append, readFraction]
  simp only [hd]
  rw [← List.cons_append, habsorb u hu]
  dsimp only
  rw [hcount, dropWhile_digits hleft hu]
  rfl

theorem conforms_readFraction : Conforms (readFraction negative digits e) FractionText := by
  constructor
  case sound =>
    intro cs n rest h
    obtain ⟨ds, u, hds, hu, rfl⟩ := exists_digits cs
    have hne : ds ≠ [] := by
      rintro rfl
      cases u with
      | nil => cases h
      | cons c u =>
          rw [List.nil_append, readFraction, hu c rfl] at h
          cases h
    obtain ⟨m, e', hread⟩ := readFraction_digits negative digits e hds hne
    rw [hread u hu] at h
    obtain ⟨w, hw, rfl, htakes⟩ := (conforms_readScale negative m e').sound h
    refine ⟨ds ++ w, ⟨ds, w, hds, hne, hw, rfl⟩, (List.append_assoc ..).symm,
      htakes.congr fun rest hrest => ?_⟩
    rw [List.append_assoc]
    exact hread _ (hw.undigited hrest)
  case complete =>
    rintro w ⟨ds, u, hds, hne, hu, rfl⟩
    obtain ⟨m, e', hread⟩ := readFraction_digits negative digits e hds hne
    refine ((conforms_readScale negative m e').complete hu).congr fun rest hrest => ?_
    rw [List.append_assoc]
    exact hread _ (hu.undigited hrest)

theorem readTail_of_point {cs : List Char} (h : ∀ u, cs ≠ '.' :: u) :
    readTail negative digits e cs = readScale negative digits e cs := by
  unfold readTail
  split
  · exact absurd rfl (h _)
  · rfl

theorem conforms_readTail : Conforms (readTail negative digits e) TailText := by
  have hfraction := conforms_readFraction negative digits e
  have hscale : ∀ w, ScaleText w → ∀ rest, Stops rest →
      readTail negative digits e (w ++ rest) = readScale negative digits e (w ++ rest) := by
    rintro w (rfl | ⟨u, -, rfl | rfl⟩) rest hrest
    · exact readTail_of_point negative digits e fun u hu => (hrest '.' (by
        rw [← List.nil_append rest, hu]
        rfl)).2.1 rfl
    · exact readTail_of_point negative digits e fun u hu => by cases hu
    · exact readTail_of_point negative digits e fun u hu => by cases hu
  constructor
  case sound =>
    intro cs n rest h
    have hread := h
    unfold readTail at h
    split at h
    · obtain ⟨w, hw, heq, htakes⟩ := hfraction.sound_mark (fun _ => rfl) hread
      exact ⟨'.' :: w, .inr ⟨w, hw, rfl⟩, heq, htakes⟩
    · obtain ⟨w, hw, heq, htakes⟩ := (conforms_readScale negative digits e).sound h
      exact ⟨w, .inl hw, heq, htakes.congr (hscale w hw)⟩
  case complete =>
    rintro w (hw | ⟨u, hu, rfl⟩)
    · exact ((conforms_readScale negative digits e).complete hw).congr (hscale w hw)
    · exact hfraction.complete_mark (fun _ => rfl) hu

end

/-- What follows a whole part that has 64 bits. -/
def afterWhole (negative : Bool) (n : Nat) : Reader Number
  | [] => .ok (wholeNumber negative n, [])
  | d :: rest =>
    if d = '.' ∨ d = 'e' ∨ d = 'E' then readTail negative n 0 (d :: rest)
    else .ok (wholeNumber negative n, d :: rest)

theorem afterWhole_of_stops (negative : Bool) (n : Nat) {cs : List Char} (h : Stops cs) :
    afterWhole negative n cs = .ok (wholeNumber negative n, cs) := by
  cases cs with
  | nil => rfl
  | cons d cs =>
      obtain ⟨-, hpoint, he, hE⟩ := h d rfl
      rw [afterWhole, if_neg (by simp [hpoint, he, hE])]

theorem conforms_afterWhole (negative : Bool) (n : Nat) :
    Conforms (afterWhole negative n) TailText := by
  have hfraction := conforms_readFraction negative n 0
  have hexponent := conforms_readExponent negative n 0
  constructor
  case sound =>
    intro cs m rest h
    cases cs with
    | nil =>
        obtain ⟨rfl, rfl⟩ := Prod.mk.inj (Except.ok.inj h)
        exact ⟨[], .inl (.inl rfl), rfl, fun rest hrest => afterWhole_of_stops negative n hrest⟩
    | cons d cs =>
        have hread := h
        rw [afterWhole] at h
        split at h
        case isTrue hmark =>
          rcases hmark with rfl | rfl | rfl
          · obtain ⟨w, hw, heq, htakes⟩ := hfraction.sound_mark (fun _ => rfl) hread
            exact ⟨'.' :: w, .inr ⟨w, hw, rfl⟩, heq, htakes⟩
          · obtain ⟨w, hw, heq, htakes⟩ := hexponent.sound_mark (fun _ => rfl) hread
            exact ⟨'e' :: w, .inl (.inr ⟨w, hw, .inl rfl⟩), heq, htakes⟩
          · obtain ⟨w, hw, heq, htakes⟩ := hexponent.sound_mark (fun _ => rfl) hread
            exact ⟨'E' :: w, .inl (.inr ⟨w, hw, .inr rfl⟩), heq, htakes⟩
        case isFalse =>
          obtain ⟨rfl, rfl⟩ := Prod.mk.inj (Except.ok.inj h)
          exact ⟨[], .inl (.inl rfl), rfl, fun rest hrest => afterWhole_of_stops negative n hrest⟩
  case complete =>
    rintro w ((rfl | ⟨u, hu, rfl | rfl⟩) | ⟨u, hu, rfl⟩)
    · exact .inl ⟨_, fun rest hrest => afterWhole_of_stops negative n hrest⟩
    · exact hexponent.complete_mark (fun _ => rfl) hu
    · exact hexponent.complete_mark (fun _ => rfl) hu
    · exact hfraction.complete_mark (fun _ => rfl) hu

/-- The whole part settles which number it is that a fraction or an exponent may follow. -/
theorem readNumber_digits (negative : Bool) {ds : List Char} (h : WholeText ds) :
    ∃ tail, Conforms tail TailText ∧
      ∀ u, Undigited u → readNumber negative (ds ++ u) = tail u := by
  obtain ⟨hdigits, hne, hzero⟩ := h
  obtain ⟨c, ds, rfl⟩ := List.exists_cons_of_ne_nil hne
  have hc := hdigits c List.mem_cons_self
  have hds : Digits ds := fun x hx => hdigits x (List.mem_cons_of_mem c hx)
  obtain ⟨m, taken, left, hsplit, habsorb⟩ := absorb_digits naturalEnd (c.toNat - 48) hds
  -- no digit follows a zero
  have hlead : ∀ u, Undigited u → ¬(c = '0' ∧ ((ds ++ u).head?.any isDigit) = true) := by
    rintro u hu ⟨rfl, hany⟩
    rw [hzero ds rfl, List.nil_append] at hany
    cases u with
    | nil => cases hany
    | cons x u =>
        have hx : isDigit x = true := hany
        rw [hu x rfl] at hx
        cases hx
  cases left with
  | nil =>
      refine ⟨afterWhole negative m, conforms_afterWhole negative m, fun u hu => ?_⟩
      rw [List.cons_append, readNumber, if_neg (by simp [hc]), if_neg (hlead u hu), habsorb u hu]
      cases u with
      | nil => rfl
      | cons d u =>
          simp only [List.nil_append, hu d rfl]
          rfl
  | cons d left =>
      have hleft : Digits (d :: left) := fun x hx => hds x (by
        rw [hsplit]
        exact List.mem_append_right taken hx)
      refine ⟨readTail negative m (d :: left).length,
        conforms_readTail negative m (d :: left).length, fun u hu => ?_⟩
      rw [List.cons_append, readNumber, if_neg (by simp [hc]), if_neg (hlead u hu), habsorb u hu]
      simp only [List.cons_append, hleft d List.mem_cons_self, if_true]
      rw [← List.cons_append, countDigits_digits hleft hu]

theorem conforms_readNumber (negative : Bool) :
    Conforms (readNumber negative) UnsignedText := by
  constructor
  case sound =>
    intro cs n rest h
    obtain ⟨ds, u, hds, hu, rfl⟩ := exists_digits cs
    have hwhole : WholeText ds := by
      cases ds with
      | nil =>
          cases u with
          | nil => cases h
          | cons c u =>
              rw [List.nil_append, readNumber, hu c rfl] at h
              cases h
      | cons c ds =>
          refine ⟨hds, List.cons_ne_nil c ds, fun ds' heq => ?_⟩
          obtain ⟨rfl, rfl⟩ := List.cons.inj heq
          cases ds with
          | nil => rfl
          | cons d ds =>
              have hd := hds d (List.mem_cons_of_mem _ List.mem_cons_self)
              rw [List.cons_append, readNumber, if_neg (by decide),
                if_pos ⟨rfl, by simp [hd]⟩] at h
              cases h
    obtain ⟨tail, htail, hread⟩ := readNumber_digits negative hwhole
    rw [hread u hu] at h
    obtain ⟨w, hw, rfl, htakes⟩ := htail.sound h
    refine ⟨ds ++ w, ⟨ds, w, hwhole, hw, rfl⟩, (List.append_assoc ..).symm,
      htakes.congr fun rest hrest => ?_⟩
    rw [List.append_assoc]
    exact hread _ (hw.undigited hrest)
  case complete =>
    rintro w ⟨ds, u, hwhole, hu, rfl⟩
    obtain ⟨tail, htail, hread⟩ := readNumber_digits negative hwhole
    refine (htail.complete hu).congr fun rest hrest => ?_
    rw [List.append_assoc]
    exact hread _ (hu.undigited hrest)

theorem Conforms.takes {reader : Reader Number} {form : List Char → Prop}
    (h : Conforms reader form) {w : List Char} {n : Number} (hread : reader w = .ok (n, [])) :
    Takes reader w n := by
  obtain ⟨w', -, heq, htakes⟩ := h.sound hread
  rw [heq, List.append_nil]
  exact htakes

end ChatServer.Json
