import ChatServer.Proofs.Grammar.Numerals

/-!
The grammar of values, and that a text is read as a value just if it is one of the value's texts.
What a reader takes has the form of the value it gives, by induction on its steps; and a text of a
value is read as that value, by induction on the value, as a character pays for two steps.
-/

namespace ChatServer.Json

/-! ### Values and their texts -/

/-- What may be written for a value that is neither array nor object. -/
inductive ScalarText : Value → List Char → Prop
  | null : ScalarText .null ['n', 'u', 'l', 'l']
  | yes : ScalarText (.flag true) ['t', 'r', 'u', 'e']
  | no : ScalarText (.flag false) ['f', 'a', 'l', 's', 'e']
  | number {n : Number} {w : List Char} (h : NumberText n w) : ScalarText (.number n) w
  | text {s : String} {w : List Char} (h : StringText s w) : ScalarText (.text s) w

mutual

/-- What may be written for a value, without blanks around it. -/
def ValueText : Value → List Char → Prop
  | .null, w => ScalarText .null w
  | .flag b, w => ScalarText (.flag b) w
  | .number n, w => ScalarText (.number n) w
  | .text s, w => ScalarText (.text s) w
  | .array vs, w => ∃ u, ItemsText true vs u ∧ w = '[' :: u
  | .object ms, w => ∃ u, MembersText true ms u ∧ w = '\x7b' :: u
termination_by structural v => v

/-- What may be written for the items of an array, up to and with its end. -/
def ItemsText : Bool → List Value → List Char → Prop
  | _, [], w => ∃ b, Blank b ∧ w = b ++ [']']
  | first, v :: vs, w =>
    ∃ l u u', Lead first l ∧ ValueText v u ∧ ItemsText false vs u' ∧ w = l ++ (u ++ u')

/-- What may be written for the members of an object, up to and with its end. -/
def MembersText : Bool → List (String × Value) → List Char → Prop
  | _, [], w => ∃ b, Blank b ∧ w = b ++ ['\x7d']
  | first, (k, v) :: ms, w =>
    ∃ l q b b' u u', Lead first l ∧ StringText k q ∧ Blank b ∧ Blank b' ∧ ValueText v u ∧
      MembersText false ms u' ∧ w = l ++ (q ++ (b ++ ':' :: (b' ++ (u ++ u'))))

end

mutual

/-- How deep arrays and objects are nested in a value. -/
def Value.height : Value → Nat
  | .null => 0
  | .flag _ => 0
  | .number _ => 0
  | .text _ => 0
  | .array vs => itemsHeight vs + 1
  | .object ms => membersHeight ms + 1
termination_by structural v => v

def itemsHeight : List Value → Nat
  | [] => 0
  | v :: vs => max v.height (itemsHeight vs)

def membersHeight : List (String × Value) → Nat
  | [] => 0
  | (_, v) :: ms => max v.height (membersHeight ms)

end

theorem ScalarText.valueText {v : Value} {w : List Char} (h : ScalarText v w) : ValueText v w := by
  cases h with
  | null => exact .null
  | yes => exact .yes
  | no => exact .no
  | number h => exact .number h
  | text h => exact .text h

theorem ScalarText.height_eq {v : Value} {w : List Char} (h : ScalarText v w) : v.height = 0 := by
  cases h <;> rfl

theorem ValueText.stringText {s : String} {w : List Char} (h : ValueText (.text s) w) :
    StringText s w := by
  cases h
  assumption

/-! ### Where a value begins and what stops it -/

theorem UnsignedText.head {w : List Char} (h : UnsignedText w) :
    ∃ c u, w = c :: u ∧ isDigit c = true := by
  obtain ⟨ds, u, ⟨hds, hne, -⟩, -, rfl⟩ := h
  obtain ⟨c, ds, rfl⟩ := List.exists_cons_of_ne_nil hne
  exact ⟨c, ds ++ u, rfl, hds c List.mem_cons_self⟩

theorem bare_of_isDigit {c : Char} (h : isDigit c = true) : isSpace c = false := by
  have hne : ∀ d, isDigit d = false → c ≠ d := fun d hd => ne_of_isDigit h hd
  simp only [isSpace, Bool.or_eq_false_iff, decide_eq_false_iff_not]
  exact ⟨⟨⟨hne ' ' (by decide), hne '\n' (by decide)⟩, hne '\t' (by decide)⟩,
    hne '\r' (by decide)⟩

/-- The first character of a value that is neither array nor object. -/
theorem ScalarText.head {v : Value} {w : List Char} (h : ScalarText v w) :
    ∃ c u, w = c :: u ∧ isSpace c = false ∧ c ≠ ']' ∧ c ≠ '[' ∧ c ≠ '\x7b' := by
  cases h with
  | null => exact ⟨_, _, rfl, by decide⟩
  | yes => exact ⟨_, _, rfl, by decide⟩
  | no => exact ⟨_, _, rfl, by decide⟩
  | text h =>
      obtain ⟨u, -, rfl⟩ := h
      exact ⟨_, _, rfl, by decide⟩
  | number h =>
      cases h with
      | plain form _ =>
          obtain ⟨c, u, rfl, hc⟩ := form.head
          exact ⟨c, u, rfl, bare_of_isDigit hc, ne_of_isDigit hc (by decide),
            ne_of_isDigit hc (by decide), ne_of_isDigit hc (by decide)⟩
      | minus _ _ => exact ⟨_, _, rfl, by decide⟩

/-- The first character of a value, which tells whether the value has parts. -/
theorem ValueText.head {v : Value} {w : List Char} (h : ValueText v w) :
    ∃ c u, w = c :: u ∧ isSpace c = false ∧ c ≠ ']' ∧ (v.height = 0 ↔ c ≠ '[' ∧ c ≠ '\x7b') := by
  have hscalar : ScalarText v w →
      ∃ c u, w = c :: u ∧ isSpace c = false ∧ c ≠ ']' ∧
        (v.height = 0 ↔ c ≠ '[' ∧ c ≠ '\x7b') := by
    intro h
    obtain ⟨c, u, hw, hspace, hend, hbrackets⟩ := h.head
    exact ⟨c, u, hw, hspace, hend, fun _ => hbrackets, fun _ => h.height_eq⟩
  cases v with
  | null => exact hscalar h
  | flag b => exact hscalar h
  | number n => exact hscalar h
  | text s => exact hscalar h
  | array vs =>
      obtain ⟨u, -, rfl⟩ := h
      exact ⟨'[', u, rfl, by decide, by decide, fun hzero => absurd hzero (Nat.succ_ne_zero _),
        fun h => absurd rfl h.1⟩
  | object ms =>
      obtain ⟨u, -, rfl⟩ := h
      exact ⟨'\x7b', u, rfl, by decide, by decide,
        fun hzero => absurd hzero (Nat.succ_ne_zero _), fun h => absurd rfl h.2⟩

theorem ValueText.length_pos {v : Value} {w : List Char} (h : ValueText v w) : 0 < w.length := by
  obtain ⟨c, u, rfl, -⟩ := h.head
  exact Nat.succ_pos _

theorem stops_of_isSpace {c : Char} (h : isSpace c = true) (cs : List Char) : Stops (c :: cs) := by
  simp only [isSpace, Bool.or_eq_true, decide_eq_true_eq] at h
  rcases h with ((rfl | rfl) | rfl) | rfl <;>
    exact stops_cons (by decide) cs

theorem Blank.stops {w : List Char} (h : Blank w) {rest : List Char} (hrest : Stops rest) :
    Stops (w ++ rest) := by
  cases w with
  | nil => exact hrest
  | cons c w => exact stops_of_isSpace (h c List.mem_cons_self) (w ++ rest)

theorem Lead.stops {l : List Char} (h : Lead false l) (rest : List Char) : Stops (l ++ rest) := by
  obtain ⟨b, b', hb, -, rfl⟩ := h
  rw [List.append_assoc]
  exact hb.stops (stops_cons (by decide) _)

theorem ItemsText.stops {vs : List Value} {w : List Char} (h : ItemsText false vs w)
    (rest : List Char) : Stops (w ++ rest) := by
  cases vs with
  | nil =>
      obtain ⟨b, hb, rfl⟩ := h
      rw [List.append_assoc]
      exact hb.stops (stops_cons (by decide) _)
  | cons v vs =>
      obtain ⟨l, u, u', hl, -, -, rfl⟩ := h
      rw [List.append_assoc]
      exact hl.stops _

theorem ItemsText.length_pos {first : Bool} {vs : List Value} {w : List Char}
    (h : ItemsText first vs w) : 0 < w.length := by
  cases vs with
  | nil =>
      obtain ⟨b, -, rfl⟩ := h
      simp
  | cons v vs =>
      obtain ⟨l, u, u', -, hu, -, rfl⟩ := h
      have hpos := hu.length_pos
      simp only [List.length_append]
      omega

theorem MembersText.stops {ms : List (String × Value)} {w : List Char}
    (h : MembersText false ms w) (rest : List Char) : Stops (w ++ rest) := by
  cases ms with
  | nil =>
      obtain ⟨b, hb, rfl⟩ := h
      rw [List.append_assoc]
      exact hb.stops (stops_cons (by decide) _)
  | cons m ms =>
      obtain ⟨l, q, b, b', u, u', hl, -, -, -, -, -, rfl⟩ := h
      rw [List.append_assoc]
      exact hl.stops _

theorem MembersText.length_pos {first : Bool} {ms : List (String × Value)} {w : List Char}
    (h : MembersText first ms w) : 0 < w.length := by
  cases ms with
  | nil =>
      obtain ⟨b, -, rfl⟩ := h
      simp
  | cons m ms =>
      obtain ⟨l, q, b, b', u, u', -, -, -, -, -, -, rfl⟩ := h
      simp only [List.length_append, List.length_cons]
      omega

/-! ### Steps through items and members

The steps that a reader takes to an item or a member, and the text that they are taken through. -/

theorem itemsText_of_closed {first : Bool} {cs rest : List Char}
    (h : nextItem first cs = .ok (.closed rest)) :
    ∃ w, ItemsText first [] w ∧ cs = w ++ rest := by
  obtain ⟨b, hb, rfl⟩ := nextItem_eq_closed.1 h
  exact ⟨b ++ [']'], ⟨b, hb, rfl⟩, by simp⟩

theorem itemsText_of_more {first : Bool} {cs b u u' rest : List Char} {v : Value}
    {vs : List Value} (h : nextItem first cs = .ok (.more () (b ++ (u ++ (u' ++ rest)))))
    (hb : Blank b) (hu : ValueText v u) (hu' : ItemsText false vs u') :
    ∃ w, ItemsText first (v :: vs) w ∧ cs = w ++ rest := by
  obtain ⟨l, hl, rfl⟩ := lead_of_nextItem h
  exact ⟨l ++ b ++ (u ++ u'), ⟨l ++ b, u, u', hl.append hb, hu, hu', rfl⟩, by simp⟩

theorem ItemsText.closed {first : Bool} {w : List Char} (h : ItemsText first [] w)
    (rest : List Char) : nextItem first (w ++ rest) = .ok (.closed rest) := by
  obtain ⟨b, hb, rfl⟩ := h
  exact nextItem_eq_closed.2 ⟨b, hb, by simp⟩

theorem ItemsText.more {first : Bool} {v : Value} {vs : List Value} {w : List Char}
    (h : ItemsText first (v :: vs) w) :
    ∃ u u', ValueText v u ∧ ItemsText false vs u' ∧ u.length + u'.length ≤ w.length ∧
      ∀ rest, nextItem first (w ++ rest) = .ok (.more () (u ++ (u' ++ rest))) := by
  obtain ⟨l, u, u', hl, hu, hu', rfl⟩ := h
  refine ⟨u, u', hu, hu', by simp, fun rest => ?_⟩
  obtain ⟨c, u, rfl, hspace, hend, -⟩ := hu.head
  have hnext := nextItem_of_lead hl hspace hend (u ++ (u' ++ rest))
  simpa using hnext

theorem membersText_of_closed {first : Bool} {cs rest : List Char}
    (h : nextKey first cs = .ok (.closed rest)) :
    ∃ w, MembersText first [] w ∧ cs = w ++ rest := by
  obtain ⟨b, hb, rfl⟩ := nextKey_eq_closed.1 h
  exact ⟨b ++ ['\x7d'], ⟨b, hb, rfl⟩, by simp⟩

theorem membersText_of_more {first : Bool} {cs cs' b u u' rest : List Char} {k : String}
    {v : Value} {ms : List (String × Value)} (h : nextKey first cs = .ok (.more k cs'))
    (hcolon : readColon cs' = .ok (b ++ (u ++ (u' ++ rest)))) (hb : Blank b)
    (hu : ValueText v u) (hu' : MembersText false ms u') :
    ∃ w, MembersText first ((k, v) :: ms) w ∧ cs = w ++ rest := by
  obtain ⟨l, q, hl, hq, rfl⟩ := nextKey_eq_more.1 h
  obtain ⟨d, hd, rfl⟩ := readColon_eq_ok.1 hcolon
  exact ⟨_, ⟨l, q, d, b, u, u', hl, hq, hd, hb, hu, hu', rfl⟩, by simp⟩

theorem MembersText.closed {first : Bool} {w : List Char} (h : MembersText first [] w)
    (rest : List Char) : nextKey first (w ++ rest) = .ok (.closed rest) := by
  obtain ⟨b, hb, rfl⟩ := h
  exact nextKey_eq_closed.2 ⟨b, hb, by simp⟩

theorem MembersText.more {first : Bool} {k : String} {v : Value} {ms : List (String × Value)}
    {w : List Char} (h : MembersText first ((k, v) :: ms) w) :
    ∃ b u u', Blank b ∧ ValueText v u ∧ MembersText false ms u' ∧
      u.length + u'.length < w.length ∧
      ∀ rest, ∃ cs, nextKey first (w ++ rest) = .ok (.more k cs) ∧
        readColon cs = .ok (b ++ (u ++ (u' ++ rest))) := by
  obtain ⟨l, q, d, b, u, u', hl, hq, hd, hb, hu, hu', rfl⟩ := h
  refine ⟨b, u, u', hb, hu, hu', ?_, fun rest => ?_⟩
  · simp only [List.length_append, List.length_cons]
    omega
  · exact ⟨d ++ ':' :: (b ++ (u ++ (u' ++ rest))), nextKey_eq_more.2 ⟨l, q, hl, hq, by simp⟩,
      readColon_eq_ok.2 ⟨d, hd, rfl⟩⟩

/-! ### Values without parts -/

theorem scalarText_of_readScalar {cs : List Char} {v : Value} {rest : List Char}
    (h : readScalar cs = .ok (v, rest)) : ∃ w, ScalarText v w ∧ cs = w ++ rest := by
  unfold readScalar at h
  split at h
  case h_1 => cases h
  case h_2 cs' =>
    cases hread : readLiteral ['u', 'l', 'l'] cs' with
    | error e => simp only [hread, reduceCtorEq] at h
    | ok rest' =>
        simp only [hread] at h
        cases h
        rw [readLiteral_eq_ok.1 hread]
        exact ⟨_, .null, rfl⟩
  case h_3 cs' =>
    cases hread : readLiteral ['r', 'u', 'e'] cs' with
    | error e => simp only [hread, reduceCtorEq] at h
    | ok rest' =>
        simp only [hread] at h
        cases h
        rw [readLiteral_eq_ok.1 hread]
        exact ⟨_, .yes, rfl⟩
  case h_4 cs' =>
    cases hread : readLiteral ['a', 'l', 's', 'e'] cs' with
    | error e => simp only [hread, reduceCtorEq] at h
    | ok rest' =>
        simp only [hread] at h
        cases h
        rw [readLiteral_eq_ok.1 hread]
        exact ⟨_, .no, rfl⟩
  case h_5 cs' =>
    rcases hread : readString cs' with e | ⟨s, rest'⟩
    · simp only [hread, reduceCtorEq] at h
    · simp only [hread] at h
      cases h
      obtain ⟨w, hw, rfl⟩ := readString_eq_ok.1 hread
      exact ⟨'"' :: w, .text ⟨w, hw, rfl⟩, rfl⟩
  case h_6 cs' =>
    rcases hread : readNumber true cs' with e | ⟨n, rest'⟩
    · simp only [hread, reduceCtorEq] at h
    · simp only [hread] at h
      cases h
      obtain ⟨w, hw, rfl, htakes⟩ := (conforms_readNumber true).sound hread
      exact ⟨'-' :: w, .number (.minus hw htakes.alone), rfl⟩
  case h_7 c cs' _ _ _ _ _ =>
    split at h
    · rcases hread : readNumber false (c :: cs') with e | ⟨n, rest'⟩
      · simp only [hread, reduceCtorEq] at h
      · simp only [hread] at h
        cases h
        obtain ⟨w, hw, hcs, htakes⟩ := (conforms_readNumber false).sound hread
        exact ⟨w, .number (.plain hw htakes.alone), hcs⟩
    · cases h

theorem readScalar_digit {c : Char} (hc : isDigit c = true) (cs : List Char) :
    readScalar (c :: cs) =
      match readNumber false (c :: cs) with
      | .error f => .error f
      | .ok (n, rest) => .ok (.number n, rest) := by
  have hne : ∀ d, isDigit d = false → c ≠ d := fun d hd => ne_of_isDigit hc hd
  rw [readScalar, if_pos hc]
  all_goals first
    | rfl
    | exact hne _ (by decide)

theorem readScalar_of_scalarText {v : Value} {w : List Char} (h : ScalarText v w)
    {rest : List Char} (hrest : Stops rest) : readScalar (w ++ rest) = .ok (v, rest) := by
  cases h with
  | null => rfl
  | yes => rfl
  | no => rfl
  | @text s _ h =>
      obtain ⟨u, hu, rfl⟩ := h
      have hread : readString (u ++ rest) = .ok (s, rest) := readString_eq_ok.2 ⟨u, hu, rfl⟩
      rw [List.cons_append, readScalar, hread]
  | number h =>
      cases h with
      | plain form value =>
          have hread := (conforms_readNumber false).takes value rest hrest
          obtain ⟨c, u, rfl, hc⟩ := form.head
          rw [List.cons_append] at hread ⊢
          rw [readScalar_digit hc, hread]
      | minus form value =>
          have hread := (conforms_readNumber true).takes value rest hrest
          rw [List.cons_append, readScalar, hread]

/-! ### What is read is a text of the value

By induction on the steps. Every bracket takes one off the depth that is left, so what is read is
nested less deep than that. -/

mutual

theorem valueText_of_readValueFor : ∀ (fuel : Nat) {depth : Nat} {cs : List Char} {v : Value}
    {rest : List Char}, 0 < depth → readValueFor fuel depth cs = .ok (v, rest) →
    ∃ b w, Blank b ∧ ValueText v w ∧ cs = b ++ (w ++ rest) ∧ v.height < depth
  | 0, depth, cs, v, rest, _, h => by cases h
  | fuel + 1, depth, cs, v, rest, hdepth, h => by
      obtain ⟨b, hb, hcs, -⟩ := exists_blank cs
      rw [readValueFor] at h
      split at h
      case h_1 u hskip =>
        split at h
        case isTrue => cases h
        case isFalse hdeep =>
          rcases hread : readItemsFor fuel (depth - 1) true u with e | ⟨vs, rest'⟩
          · simp only [hread, reduceCtorEq] at h
          · simp only [hread] at h
            cases h
            obtain ⟨w, hw, rfl, hheight⟩ :=
              itemsText_of_readItemsFor fuel (by omega) hread
            refine ⟨b, '[' :: w, hb, ⟨w, hw, rfl⟩, by rw [hcs, hskip]; rfl, ?_⟩
            rw [Value.height]
            omega
      case h_2 u hskip =>
        split at h
        case isTrue => cases h
        case isFalse hdeep =>
          rcases hread : readMembersFor fuel (depth - 1) true u with e | ⟨ms, rest'⟩
          · simp only [hread, reduceCtorEq] at h
          · simp only [hread] at h
            cases h
            obtain ⟨w, hw, rfl, hheight⟩ :=
              membersText_of_readMembersFor fuel (by omega) hread
            refine ⟨b, '\x7b' :: w, hb, ⟨w, hw, rfl⟩, by rw [hcs, hskip]; rfl, ?_⟩
            rw [Value.height]
            omega
      case h_3 =>
        obtain ⟨w, hw, hskip⟩ := scalarText_of_readScalar h
        refine ⟨b, w, hb, hw.valueText, by rw [← hskip, ← hcs], ?_⟩
        rw [hw.height_eq]
        exact hdepth

theorem itemsText_of_readItemsFor : ∀ (fuel : Nat) {depth : Nat} {first : Bool} {cs : List Char}
    {vs : List Value} {rest : List Char}, 0 < depth →
    readItemsFor fuel depth first cs = .ok (vs, rest) →
    ∃ w, ItemsText first vs w ∧ cs = w ++ rest ∧ itemsHeight vs < depth
  | 0, depth, first, cs, vs, rest, _, h => by cases h
  | fuel + 1, depth, first, cs, vs, rest, hdepth, h => by
      rw [readItemsFor] at h
      rcases hnext : nextItem first cs with e | ⟨rest'⟩ | ⟨_, u⟩ <;> simp only [hnext] at h
      · cases h
      · cases h
        obtain ⟨w, hw, rfl⟩ := itemsText_of_closed hnext
        exact ⟨w, hw, rfl, hdepth⟩
      · rcases hvalue : readValueFor fuel depth u with e | ⟨v', u'⟩
        · simp only [hvalue, reduceCtorEq] at h
        · simp only [hvalue] at h
          obtain ⟨b, w, hb, hw, rfl, hheight⟩ := valueText_of_readValueFor fuel hdepth hvalue
          rcases hitems : readItemsFor fuel depth false u' with e | ⟨vs', rest'⟩
          · simp only [hitems, reduceCtorEq] at h
          · simp only [hitems] at h
            cases h
            obtain ⟨w', hw', rfl, hheight'⟩ := itemsText_of_readItemsFor fuel hdepth hitems
            obtain ⟨w'', hw'', rfl⟩ := itemsText_of_more hnext hb hw hw'
            refine ⟨w'', hw'', rfl, ?_⟩
            rw [itemsHeight]
            omega

theorem membersText_of_readMembersFor : ∀ (fuel : Nat) {depth : Nat} {first : Bool}
    {cs : List Char} {ms : List (String × Value)} {rest : List Char}, 0 < depth →
    readMembersFor fuel depth first cs = .ok (ms, rest) →
    ∃ w, MembersText first ms w ∧ cs = w ++ rest ∧ membersHeight ms < depth
  | 0, depth, first, cs, ms, rest, _, h => by cases h
  | fuel + 1, depth, first, cs, ms, rest, hdepth, h => by
      rw [readMembersFor] at h
      rcases hnext : nextKey first cs with e | ⟨rest'⟩ | ⟨k, u⟩ <;> simp only [hnext] at h
      · cases h
      · cases h
        obtain ⟨w, hw, rfl⟩ := membersText_of_closed hnext
        exact ⟨w, hw, rfl, hdepth⟩
      · cases hcolon : readColon u with
        | error e => simp only [hcolon, reduceCtorEq] at h
        | ok u' =>
            simp only [hcolon] at h
            rcases hvalue : readValueFor fuel depth u' with e | ⟨v', u''⟩
            · simp only [hvalue, reduceCtorEq] at h
            · simp only [hvalue] at h
              obtain ⟨b, w, hb, hw, rfl, hheight⟩ := valueText_of_readValueFor fuel hdepth hvalue
              rcases hmembers : readMembersFor fuel depth false u'' with e | ⟨ms', rest'⟩
              · simp only [hmembers, reduceCtorEq] at h
              · simp only [hmembers] at h
                cases h
                obtain ⟨w', hw', rfl, hheight'⟩ :=
                  membersText_of_readMembersFor fuel hdepth hmembers
                obtain ⟨w'', hw'', rfl⟩ := membersText_of_more hnext hcolon hb hw hw'
                refine ⟨w'', hw'', rfl, ?_⟩
                rw [membersHeight]
                omega

end

/-! ### A text of a value is read

By induction on the value. Its text has enough steps: every value and every item begins with a
character of its own. What follows has to stop it only if it could be a number. -/

theorem readValueFor_of_scalarText {v : Value} {w : List Char} (h : ScalarText v w)
    {b : List Char} (hb : Blank b) {rest : List Char} (hrest : Stops rest) (fuel depth : Nat) :
    readValueFor (fuel + 1) depth (b ++ (w ++ rest)) = .ok (v, rest) := by
  have hread := readScalar_of_scalarText h hrest
  obtain ⟨c, u, rfl, hspace, -, hbracket, hbrace⟩ := h.head
  rw [readValueFor, List.cons_append, skipSpace_append_cons hb hspace]
  split
  case h_1 heq => exact absurd (List.cons.inj heq).1 hbracket
  case h_2 heq => exact absurd (List.cons.inj heq).1 hbrace
  case h_3 => exact hread

mutual

theorem readValueFor_of_valueText : ∀ (v : Value) {w : List Char} {fuel depth : Nat}
    {b rest : List Char}, ValueText v w → v.height < depth → 2 * w.length ≤ fuel + 1 → Blank b →
    (v.height = 0 → Stops rest) → readValueFor fuel depth (b ++ (w ++ rest)) = .ok (v, rest)
  | _, w, 0, depth, b, rest, h, hdepth, hfuel, hb, hrest => by
      have hpos := h.length_pos
      omega
  | .null, w, fuel + 1, depth, b, rest, h, hdepth, hfuel, hb, hrest =>
      readValueFor_of_scalarText h hb (hrest rfl) fuel depth
  | .flag _, w, fuel + 1, depth, b, rest, h, hdepth, hfuel, hb, hrest =>
      readValueFor_of_scalarText h hb (hrest rfl) fuel depth
  | .number _, w, fuel + 1, depth, b, rest, h, hdepth, hfuel, hb, hrest =>
      readValueFor_of_scalarText h hb (hrest rfl) fuel depth
  | .text _, w, fuel + 1, depth, b, rest, h, hdepth, hfuel, hb, hrest =>
      readValueFor_of_scalarText h hb (hrest rfl) fuel depth
  | .array vs, w, fuel + 1, depth, b, rest, h, hdepth, hfuel, hb, hrest => by
      obtain ⟨u, hu, rfl⟩ := h
      rw [Value.height] at hdepth
      rw [List.length_cons] at hfuel
      have hitems : readItemsFor fuel (depth - 1) true (u ++ rest) = .ok (vs, rest) :=
        readItemsFor_of_itemsText vs hu (by omega) (by omega)
      rw [readValueFor, List.cons_append, skipSpace_append_cons hb (by decide)]
      refine (if_neg (by omega : ¬depth ≤ 1)).trans ?_
      rw [hitems]
  | .object ms, w, fuel + 1, depth, b, rest, h, hdepth, hfuel, hb, hrest => by
      obtain ⟨u, hu, rfl⟩ := h
      rw [Value.height] at hdepth
      rw [List.length_cons] at hfuel
      have hmembers : readMembersFor fuel (depth - 1) true (u ++ rest) = .ok (ms, rest) :=
        readMembersFor_of_membersText ms hu (by omega) (by omega)
      rw [readValueFor, List.cons_append, skipSpace_append_cons hb (by decide)]
      refine (if_neg (by omega : ¬depth ≤ 1)).trans ?_
      rw [hmembers]

theorem readItemsFor_of_itemsText : ∀ (vs : List Value) {first : Bool} {w : List Char}
    {fuel depth : Nat} {rest : List Char}, ItemsText first vs w → itemsHeight vs < depth →
    2 * w.length ≤ fuel → readItemsFor fuel depth first (w ++ rest) = .ok (vs, rest)
  | _, first, w, 0, depth, rest, h, hdepth, hfuel => by
      have hpos := h.length_pos
      omega
  | [], first, w, fuel + 1, depth, rest, h, hdepth, hfuel => by
      rw [readItemsFor, h.closed rest]
  | v :: vs, first, w, fuel + 1, depth, rest, h, hdepth, hfuel => by
      obtain ⟨u, u', hu, hu', hlength, hnext⟩ := h.more
      have hpos := hu.length_pos
      have hpos' := hu'.length_pos
      rw [itemsHeight] at hdepth
      have hvalue : readValueFor fuel depth (u ++ (u' ++ rest)) = .ok (v, u' ++ rest) :=
        readValueFor_of_valueText v hu (by omega) (by omega) blank_nil
          fun _ => hu'.stops rest
      have hitems : readItemsFor fuel depth false (u' ++ rest) = .ok (vs, rest) :=
        readItemsFor_of_itemsText vs hu' (by omega) (by omega)
      rw [readItemsFor, hnext]
      dsimp only
      rw [hvalue]
      dsimp only
      rw [hitems]

theorem readMembersFor_of_membersText : ∀ (ms : List (String × Value)) {first : Bool}
    {w : List Char} {fuel depth : Nat} {rest : List Char}, MembersText first ms w →
    membersHeight ms < depth → 2 * w.length ≤ fuel →
    readMembersFor fuel depth first (w ++ rest) = .ok (ms, rest)
  | _, first, w, 0, depth, rest, h, hdepth, hfuel => by
      have hpos := h.length_pos
      omega
  | [], first, w, fuel + 1, depth, rest, h, hdepth, hfuel => by
      rw [readMembersFor, h.closed rest]
  | (k, v) :: ms, first, w, fuel + 1, depth, rest, h, hdepth, hfuel => by
      obtain ⟨b, u, u', hb, hu, hu', hlength, hsteps⟩ := h.more
      obtain ⟨cs, hkey, hcolon⟩ := hsteps rest
      rw [membersHeight] at hdepth
      have hvalue : readValueFor fuel depth (b ++ (u ++ (u' ++ rest))) = .ok (v, u' ++ rest) :=
        readValueFor_of_valueText v hu (by omega) (by omega) hb
          fun _ => hu'.stops rest
      have hmembers : readMembersFor fuel depth false (u' ++ rest) = .ok (ms, rest) :=
        readMembersFor_of_membersText ms hu' (by omega) (by omega)
      rw [readMembersFor, hkey]
      dsimp only
      rw [hcolon]
      dsimp only
      rw [hvalue]
      dsimp only
      rw [hmembers]

end

/-! ### Whole texts -/

theorem readWhole_eq_ok_iff {α : Type} {reader : Reader α} {text : String} {a : α} :
    readWhole reader text = .ok a ↔ ∃ rest, reader text.toList = .ok (a, rest) ∧ Blank rest := by
  constructor
  · intro h
    unfold readWhole at h
    dsimp only at h
    rcases hread : reader text.toList with e | ⟨a, rest⟩
    · simp only [hread, reduceCtorEq] at h
    · simp only [hread] at h
      cases hskip : skipSpace rest with
      | nil =>
          simp only [hskip] at h
          cases h
          exact ⟨rest, rfl, skipSpace_eq_nil_iff.1 hskip⟩
      | cons c cs => simp only [hskip, reduceCtorEq] at h
  · rintro ⟨rest, hread, hblank⟩
    simp only [readWhole, hread, skipSpace_eq_nil_iff.2 hblank]

/-- A text holds a value: nothing but the value and blanks around it, and the value is nested no
deeper than the limit. -/
def TextOf (v : Value) (text : String) : Prop :=
  v.height < depthLimit ∧
    ∃ b w b', Blank b ∧ ValueText v w ∧ Blank b' ∧ text.toList = b ++ (w ++ b')

theorem Blank.stops_nil {w : List Char} (h : Blank w) : Stops w := by
  have hstops := h.stops Json.stops_nil
  rwa [List.append_nil] at hstops

/-- A text is read as a value just if it holds the value. -/
theorem parse_eq_ok_iff {text : String} {v : Value} : parse text = .ok v ↔ TextOf v text := by
  rw [parse, readWhole_eq_ok_iff]
  constructor
  · rintro ⟨rest, hread, hblank⟩
    obtain ⟨b, w, hb, hw, hcs, hheight⟩ :=
      valueText_of_readValueFor _ (by decide) hread
    exact ⟨hheight, b, w, rest, hb, hw, hblank, hcs⟩
  · rintro ⟨hheight, b, w, b', hb, hw, hb', htext⟩
    refine ⟨b', ?_, hb'⟩
    rw [readValue, htext]
    apply readValueFor_of_valueText v hw hheight _ hb fun _ => hb'.stops_nil
    simp only [enough, List.length_append]
    omega

/-- A text holds one value at most. -/
theorem TextOf.unique {v v' : Value} {text : String} (h : TextOf v text) (h' : TextOf v' text) :
    v = v' := by
  have hparse := parse_eq_ok_iff.2 h
  rw [parse_eq_ok_iff.2 h'] at hparse
  exact (Except.ok.inj hparse).symm

/-- Where something that is no blank follows the text of a value, the two together hold a value
only if neither that one nor the first is an array or an object. -/
theorem TextOf.height_of_trailing {v v' : Value} {front back : String} (h : TextOf v front)
    (hback : ¬Blank back.toList) (h' : TextOf v' (front ++ back)) :
    v.height = 0 ∧ v'.height = 0 := by
  obtain ⟨hheight, b, w, b', hb, hw, -, hfront⟩ := h
  have htext : (front ++ back).toList = b ++ (w ++ (b' ++ back.toList)) := by
    rw [String.toList_append, hfront]
    simp
  have hzero : v.height = 0 := by
    by_contra hparts
    -- a value with parts is read whatever follows it
    have hread : readValue depthLimit (front ++ back).toList = .ok (v, b' ++ back.toList) := by
      rw [readValue, htext]
      apply readValueFor_of_valueText v hw hheight _ hb fun hzero => absurd hzero hparts
      simp only [enough, List.length_append]
      omega
    obtain ⟨rest, hread', hblank⟩ := readWhole_eq_ok_iff.1 (parse_eq_ok_iff.2 h')
    rw [hread] at hread'
    obtain ⟨-, rfl⟩ := Prod.mk.inj (Except.ok.inj hread')
    exact hback fun c hc => hblank c (List.mem_append_right b' hc)
  refine ⟨hzero, ?_⟩
  -- both values begin with the same character
  obtain ⟨-, d, w', d', hd, hw', -, htext'⟩ := h'
  obtain ⟨c, u, rfl, hspace, -, hc⟩ := hw.head
  obtain ⟨c', u', rfl, hspace', -, hc'⟩ := hw'.head
  have hskip : skipSpace (b ++ c :: (u ++ (b' ++ back.toList))) =
      skipSpace (d ++ c' :: (u' ++ d')) := congrArg skipSpace (htext.symm.trans htext')
  rw [skipSpace_append_cons hb hspace, skipSpace_append_cons hd hspace'] at hskip
  rw [hc', ← (List.cons.inj hskip).1]
  exact hc.1 hzero

end ChatServer.Json
