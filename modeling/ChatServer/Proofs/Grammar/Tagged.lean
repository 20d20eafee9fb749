import ChatServer.Json.Tagged
import ChatServer.Proofs.Grammar.Values

/-!
Which values a tagged value can be read from. The reader takes the members of an object in any
order and puts the tag aside when it comes to it, so what counts is what stands under each name: the
tag has to stand there once, and what is left of the members are all the others.
-/

namespace ChatServer.Json

/-- What stands under a name among members: the content of each member with the name. -/
def under (ms : List (String × Value)) (name : String) : List Value :=
  (ms.filter fun m => m.1 = name).map Prod.snd

@[simp] theorem under_nil (name : String) : under [] name = [] := rfl

theorem under_cons_of_eq {k name : String} (h : k = name) (v : Value)
    (ms : List (String × Value)) : under ((k, v) :: ms) name = v :: under ms name := by
  simp [under, h]

theorem under_cons_of_ne {k name : String} (h : k ≠ name) (v : Value)
    (ms : List (String × Value)) : under ((k, v) :: ms) name = under ms name := by
  simp [under, h]

/-- The members that do not bear the tag. -/
def untagged (ms : List (String × Value)) : List (String × Value) :=
  ms.filter fun m => m.1 ≠ tagName

theorem untagged_cons_of_eq {k : String} (h : k = tagName) (v : Value)
    (ms : List (String × Value)) : untagged ((k, v) :: ms) = untagged ms := by
  simp [untagged, h]

theorem untagged_cons_of_ne {k : String} (h : k ≠ tagName) (v : Value)
    (ms : List (String × Value)) : untagged ((k, v) :: ms) = (k, v) :: untagged ms := by
  simp [untagged, h]

theorem under_untagged {name : String} (h : name ≠ tagName) (ms : List (String × Value)) :
    under (untagged ms) name = under ms name := by
  rw [under, untagged, List.filter_filter, under]
  congr 1
  apply List.filter_congr
  intro m _
  by_cases hm : m.1 = name
  · simp [hm, h]
  · simp [hm]

/-! ### The tag -/

theorem readTag_eq_ok {known : List String} {cs : List Char} {t : String} {rest : List Char} :
    readTag known cs = .ok (t, rest) ↔
      t ∈ known ∧ ∃ b q, Blank b ∧ StringText t q ∧ cs = b ++ (q ++ rest) := by
  rw [← @readText_eq_ok "variant identifier"]
  constructor
  · intro h
    unfold readTag at h
    rcases hread : readText "variant identifier" cs with e | ⟨s, rest'⟩
    · simp only [hread, reduceCtorEq] at h
    · simp only [hread] at h
      split at h
      case isTrue hknown =>
        cases h
        exact ⟨hknown, rfl⟩
      case isFalse => cases h
  · rintro ⟨hknown, hread⟩
    simp only [readTag, hread, hknown, if_true]

/-- The tag is known: it has been read already, or it is still to come among the members. In either
case it does not come again. -/
def Tags (known : List String) : Option String → List (String × Value) → String → Prop
  | some s, ms, t => s = t ∧ under ms tagName = []
  | none, ms, t => t ∈ known ∧ under ms tagName = [.text t]

theorem tags_cons_of_ne {known : List String} {tag : Option String} {k : String}
    (h : k ≠ tagName) (v : Value) (ms : List (String × Value)) (t : String) :
    Tags known tag ((k, v) :: ms) t ↔ Tags known tag ms t := by
  cases tag with
  | none => rw [Tags, Tags, under_cons_of_ne h]
  | some s => rw [Tags, Tags, under_cons_of_ne h]

/-- What the reader takes are the members of an object with one tag, and what it gives beside the
tag are all the other members. -/
theorem membersText_of_readTaggedMembers {known : List String} {depth : Nat} (hdepth : 0 < depth)
    {fuel : Nat} {tag : Option String} {first : Bool} {cs : List Char} {t : String}
    {others : List (String × Value)} {rest : List Char}
    (h : readTaggedMembers known depth fuel tag first cs = .ok ((t, others), rest)) :
    ∃ ms w, MembersText first ms w ∧ cs = w ++ rest ∧ membersHeight ms < depth ∧
      Tags known tag ms t ∧ others = untagged ms := by
  induction fuel generalizing tag first cs others with
  | zero => cases h
  | succ fuel ih =>
      rw [readTaggedMembers] at h
      rcases hnext : nextKey first cs with e | ⟨rest'⟩ | ⟨k, u⟩ <;> simp only [hnext] at h
      · cases h
      · obtain ⟨w, hw, rfl⟩ := membersText_of_closed hnext
        split at h
        · cases h
        · cases h
          exact ⟨[], w, hw, rfl, hdepth, ⟨rfl, rfl⟩, rfl⟩
      · split at h
        case isTrue hname =>
          split at h
          case isTrue => cases h
          case isFalse hnew =>
            obtain rfl : tag = none := Option.not_isSome_iff_eq_none.1 hnew
            cases hcolon : readColon u with
            | error e => simp only [hcolon, reduceCtorEq] at h
            | ok u' =>
                simp only [hcolon] at h
                rcases htag : readTag known u' with e | ⟨s, u''⟩
                · simp only [htag, reduceCtorEq] at h
                · simp only [htag] at h
                  obtain ⟨hknown, b, q, hb, hq, rfl⟩ := readTag_eq_ok.1 htag
                  obtain ⟨ms, w, hw, rfl, hheight, ⟨rfl, hnone⟩, rfl⟩ := ih h
                  have hvalue : ValueText (.text s) q := .text hq
                  obtain ⟨w', hw', rfl⟩ := membersText_of_more hnext hcolon hb hvalue hw
                  refine ⟨(k, .text s) :: ms, w', hw', rfl, ?_, ⟨hknown, ?_⟩,
                    (untagged_cons_of_eq hname _ ms).symm⟩
                  · rw [membersHeight, Value.height]
                    omega
                  · rw [under_cons_of_eq hname, hnone]
        case isFalse hname =>
          cases hcolon : readColon u with
          | error e => simp only [hcolon, reduceCtorEq] at h
          | ok u' =>
              simp only [hcolon] at h
              rcases hvalue : readValue depth u' with e | ⟨v, u''⟩
              · simp only [hvalue, reduceCtorEq] at h
              · simp only [hvalue] at h
                obtain ⟨b, w, hb, hw, rfl, hheight⟩ := valueText_of_readValueFor _ hdepth hvalue
                rcases hmembers : readTaggedMembers known depth fuel tag false u'' with
                  e | ⟨⟨t', others'⟩, rest'⟩
                · simp only [hmembers, reduceCtorEq] at h
                · simp only [hmembers] at h
                  cases h
                  obtain ⟨ms, w', hw', rfl, hheight', htags, rfl⟩ := ih hmembers
                  obtain ⟨w'', hw'', rfl⟩ := membersText_of_more hnext hcolon hb hw hw'
                  refine ⟨(k, v) :: ms, w'', hw'', rfl, ?_, (tags_cons_of_ne hname v ms t).2 htags,
                    (untagged_cons_of_ne hname v ms).symm⟩
                  rw [membersHeight]
                  omega

theorem readTaggedMembers_of_membersText {known : List String} {depth fuel : Nat}
    {tag : Option String} {first : Bool} {ms : List (String × Value)} {w : List Char} {t : String}
    (h : MembersText first ms w) (hheight : membersHeight ms < depth) (hfuel : w.length ≤ fuel)
    (htags : Tags known tag ms t) (rest : List Char) :
    readTaggedMembers known depth fuel tag first (w ++ rest) = .ok ((t, untagged ms), rest) := by
  induction ms generalizing fuel tag first w with
  | nil =>
      cases fuel with
      | zero =>
          have hpos := h.length_pos
          omega
      | succ fuel =>
          cases tag with
          | none => exact absurd htags.2 (List.cons_ne_nil _ _).symm
          | some s =>
              rw [readTaggedMembers, h.closed rest, htags.1]
              rfl
  | cons m ms ih =>
      obtain ⟨k, v⟩ := m
      obtain ⟨b, u, u', hb, hu, hu', hlength, hsteps⟩ := h.more
      obtain ⟨cs, hkey, hcolon⟩ := hsteps rest
      rw [membersHeight] at hheight
      cases fuel with
      | zero => omega
      | succ fuel =>
          rw [readTaggedMembers, hkey]
          dsimp only
          by_cases hname : k = tagName
          · cases tag with
            | some s =>
                rw [Tags, under_cons_of_eq hname] at htags
                exact absurd htags.2 (List.cons_ne_nil _ _)
            | none =>
                obtain ⟨hknown, hunder⟩ := htags
                rw [under_cons_of_eq hname] at hunder
                obtain ⟨rfl, hnone⟩ := List.cons.inj hunder
                have htag : readTag known (b ++ (u ++ (u' ++ rest))) = .ok (t, u' ++ rest) :=
                  readTag_eq_ok.2 ⟨hknown, b, u, hb, hu.stringText, rfl⟩
                have htags : Tags known (some t) ms t := ⟨rfl, hnone⟩
                rw [if_pos hname, if_neg (by simp), hcolon]
                dsimp only
                rw [htag]
                dsimp only
                rw [ih hu' (by omega) (by omega) htags, untagged_cons_of_eq hname]
          · have hvalue : readValue depth (b ++ (u ++ (u' ++ rest))) = .ok (v, u' ++ rest) := by
              apply readValueFor_of_valueText v hu (by omega) _ hb fun _ => hu'.stops rest
              simp only [enough, List.length_append]
              omega
            rw [if_neg hname, hcolon]
            dsimp only
            rw [hvalue]
            dsimp only
            rw [ih hu' (by omega) (by omega) ((tags_cons_of_ne hname v ms t).1 htags),
              untagged_cons_of_ne hname]

/-- A tagged value: an object with one tag, a known one, or an array that begins with one. -/
inductive Holds (known : List String) : Value → String → Body → Prop
  | object {ms : List (String × Value)} {t : String} (tag : t ∈ known)
      (once : under ms tagName = [.text t]) :
      Holds known (.object ms) t (.members (untagged ms))
  | array {vs : List Value} {t : String} (tag : t ∈ known) :
      Holds known (.array (.text t :: vs)) t (.items vs)

section
variable {known : List String} {expected : String} {b : List Char}

theorem readTagged_object (hb : Blank b) (cs : List Char) :
    readTagged known expected (b ++ '\x7b' :: cs) =
      match readTaggedMembers known (depthLimit - 1) (cs.length + 1) none true cs with
      | .error f => .error f
      | .ok ((t, ms), rest) => .ok ((t, .members ms), rest) := by
  rw [readTagged, skipSpace_append_cons hb (by decide)]
  rfl

theorem readTagged_array (hb : Blank b) (cs : List Char) :
    readTagged known expected (b ++ '[' :: cs) =
      match nextItem true cs with
      | .error f => .error f
      | .ok (.closed rest) => .error (stopAt (.missingField tagName) rest)
      | .ok (.more _ rest) =>
        match readTag known rest with
        | .error f => .error f
        | .ok (t, rest) =>
          match readItems (depthLimit - 1) false rest with
          | .error f => .error f
          | .ok (vs, rest) => .ok ((t, .items vs), rest) := by
  rw [readTagged, skipSpace_append_cons hb (by decide)]
  rfl

end

/-- A tagged value is read just if the text begins with one. -/
theorem readTagged_eq_ok {known : List String} {expected : String} {cs : List Char} {t : String}
    {body : Body} {rest : List Char} :
    readTagged known expected cs = .ok ((t, body), rest) ↔
      ∃ v b w, Holds known v t body ∧ v.height < depthLimit ∧ Blank b ∧ ValueText v w ∧
        cs = b ++ (w ++ rest) := by
  constructor
  · intro h
    obtain ⟨b, hb, hcs, -⟩ := exists_blank cs
    unfold readTagged at h
    split at h
    case h_1 u hskip =>
      rcases hread : readTaggedMembers known (depthLimit - 1) (u.length + 1) none true u with
        e | ⟨⟨t', others⟩, rest'⟩
      · simp only [hread, reduceCtorEq] at h
      · simp only [hread] at h
        cases h
        obtain ⟨ms, w, hw, rfl, hheight, ⟨hknown, honce⟩, rfl⟩ :=
          membersText_of_readTaggedMembers (by decide) hread
        refine ⟨.object ms, b, '\x7b' :: w, .object hknown honce, ?_, hb, ⟨w, hw, rfl⟩,
          by rw [hcs, hskip]; rfl⟩
        rw [Value.height]
        exact Nat.succ_lt_of_lt_pred hheight
    case h_2 u hskip =>
      rcases hnext : nextItem true u with e | ⟨u'⟩ | ⟨_, u'⟩ <;> simp only [hnext] at h
      · cases h
      · cases h
      · rcases htag : readTag known u' with e | ⟨s, u''⟩
        · simp only [htag, reduceCtorEq] at h
        · simp only [htag] at h
          obtain ⟨hknown, b', q, hb', hq, rfl⟩ := readTag_eq_ok.1 htag
          rcases hitems : readItems (depthLimit - 1) false u'' with e | ⟨vs, rest'⟩
          · simp only [hitems, reduceCtorEq] at h
          · simp only [hitems] at h
            cases h
            obtain ⟨w, hw, rfl, hheight⟩ := itemsText_of_readItemsFor _ (by decide) hitems
            have hvalue : ValueText (.text t) q := .text hq
            obtain ⟨w', hw', rfl⟩ := itemsText_of_more hnext hb' hvalue hw
            refine ⟨.array (.text t :: vs), b, '[' :: w', .array hknown, ?_, hb, ⟨w', hw', rfl⟩,
              by rw [hcs, hskip]; rfl⟩
            rw [Value.height, itemsHeight, Value.height, Nat.zero_max]
            exact Nat.succ_lt_of_lt_pred hheight
    case h_3 => cases h
  · rintro ⟨v, b, w, hholds, hheight, hb, hw, rfl⟩
    cases hholds with
    | @object ms _ tag once =>
        obtain ⟨u, hu, rfl⟩ := hw
        rw [Value.height] at hheight
        have hread : readTaggedMembers known (depthLimit - 1) ((u ++ rest).length + 1) none true
            (u ++ rest) = .ok ((t, untagged ms), rest) := by
          have htags : Tags known none ms t := ⟨tag, once⟩
          apply readTaggedMembers_of_membersText hu (Nat.lt_pred_of_succ_lt hheight) _ htags
          rw [List.length_append]
          omega
        rw [List.cons_append, readTagged_object hb, hread]
    | @array vs _ tag =>
        obtain ⟨u, hu, rfl⟩ := hw
        obtain ⟨q, w, hq, hw, -, hnext⟩ := hu.more
        rw [Value.height, itemsHeight, Value.height, Nat.zero_max] at hheight
        have htag : readTag known (q ++ (w ++ rest)) = .ok (t, w ++ rest) :=
          readTag_eq_ok.2 ⟨tag, [], q, blank_nil, hq.stringText, rfl⟩
        have hitems : readItems (depthLimit - 1) false (w ++ rest) = .ok (vs, rest) := by
          apply readItemsFor_of_itemsText vs hw (Nat.lt_pred_of_succ_lt hheight)
          simp only [enough, List.length_append]
          omega
        rw [List.cons_append, readTagged_array hb, hnext]
        dsimp only
        rw [htag]
        dsimp only
        rw [hitems]

/-! ### The fields -/

theorem asText_eq_ok {v : Value} {s : String} : v.asText = .ok s ↔ v = .text s := by
  cases v with
  | text s' => exact ⟨fun h => congrArg Value.text (Except.ok.inj h), fun h => by cases h; rfl⟩
  | null => exact ⟨(nomatch ·), (nomatch ·)⟩
  | flag _ => exact ⟨(nomatch ·), (nomatch ·)⟩
  | number _ => exact ⟨(nomatch ·), (nomatch ·)⟩
  | array _ => exact ⟨(nomatch ·), (nomatch ·)⟩
  | object _ => exact ⟨(nomatch ·), (nomatch ·)⟩

/-- What has been found under a name, as it stood there. -/
def foundUnder (found : List (String × String)) (name : String) : List Value :=
  (found.lookup name).toList.map Value.text

theorem foundUnder_cons_of_eq {k name : String} (h : k = name) (s : String)
    {found : List (String × String)} (hnew : found.lookup name = none) :
    foundUnder ((k, s) :: found) name = foundUnder found name ++ [.text s] := by
  simp [foundUnder, h, hnew]

theorem foundUnder_cons_of_ne {k name : String} (h : k ≠ name) (s : String)
    (found : List (String × String)) :
    foundUnder ((k, s) :: found) name = foundUnder found name := by
  simp [foundUnder, List.lookup_cons, beq_eq_false_iff_ne.2 h.symm]

/-- What was found under a name at the end is what had been found before, and then what stands
there: nothing is replaced. -/
theorem foundUnder_collect {names : List String} {found found' : List (String × String)}
    {ms : List (String × Value)} (h : collect names found ms = .ok found') {name : String}
    (hname : name ∈ names) : foundUnder found' name = foundUnder found name ++ under ms name := by
  induction ms generalizing found with
  | nil =>
      cases h
      rw [under_nil, List.append_nil]
  | cons m ms ih =>
      obtain ⟨k, v⟩ := m
      rw [collect] at h
      split at h
      case isTrue =>
        split at h
        case isTrue => cases h
        case isFalse hnew =>
          cases htext : v.asText with
          | error e => simp only [htext, reduceCtorEq] at h
          | ok s =>
              simp only [htext] at h
              rw [ih h, asText_eq_ok.1 htext]
              by_cases hk : k = name
              · rw [under_cons_of_eq hk, foundUnder_cons_of_eq hk s
                  (by rw [← hk]; exact Option.not_isSome_iff_eq_none.1 hnew), List.append_assoc]
                rfl
              · rw [under_cons_of_ne hk, foundUnder_cons_of_ne hk]
      case isFalse hother =>
        rw [ih h, under_cons_of_ne fun hk : k = name => hother (hk ▸ hname)]

/-- Collecting succeeds where one string at most stands under each name. -/
theorem exists_collect {names : List String} {found : List (String × String)}
    {ms : List (String × Value)}
    (h : ∀ name ∈ names, ∃ s? : Option String,
      foundUnder found name ++ under ms name = s?.toList.map Value.text) :
    ∃ found', collect names found ms = .ok found' := by
  induction ms generalizing found with
  | nil => exact ⟨found, rfl⟩
  | cons m ms ih =>
      obtain ⟨k, v⟩ := m
      rw [collect]
      split
      case isTrue hk =>
        obtain ⟨s?, hs⟩ := h k hk
        rw [under_cons_of_eq rfl, foundUnder] at hs
        -- the member is the only one that stands under its name
        have hnew : found.lookup k = none := by
          cases hlookup : found.lookup k with
          | none => rfl
          | some s =>
              rw [hlookup] at hs
              cases s? with
              | none => cases hs
              | some s' => cases List.cons.inj hs |>.2
        rw [hnew] at hs
        obtain ⟨s, rfl⟩ : ∃ s, v = .text s := by
          cases s? with
          | none => cases hs
          | some s => exact ⟨s, (List.cons.inj hs).1⟩
        rw [hnew]
        dsimp only [Option.isSome, Value.asText]
        rw [if_neg (by decide)]
        apply ih
        intro name hname
        obtain ⟨s?, hs⟩ := h name hname
        refine ⟨s?, ?_⟩
        rw [← hs]
        by_cases hk' : k = name
        · rw [under_cons_of_eq hk', foundUnder_cons_of_eq hk' s (hk' ▸ hnew), List.append_assoc]
          rfl
        · rw [under_cons_of_ne hk', foundUnder_cons_of_ne hk']
      case isFalse hk =>
        apply ih
        intro name hname
        obtain ⟨s?, hs⟩ := h name hname
        rw [under_cons_of_ne fun hk' : k = name => hk (hk' ▸ hname)] at hs
        exact ⟨s?, hs⟩

theorem pick_eq_ok {found : List (String × String)} {names ss : List String} :
    pick found names = .ok ss ↔ names.map (found.lookup ·) = ss.map some := by
  induction names generalizing ss with
  | nil =>
      cases ss with
      | nil => exact ⟨fun _ => rfl, fun _ => rfl⟩
      | cons s ss => exact ⟨(nomatch ·), (nomatch ·)⟩
  | cons name names ih =>
      rw [pick]
      constructor
      · intro h
        cases hlookup : List.lookup name found with
        | none => simp only [hlookup, reduceCtorEq] at h
        | some s =>
            simp only [hlookup] at h
            cases hpick : pick found names with
            | error e => simp only [hpick, reduceCtorEq] at h
            | ok ss' =>
                simp only [hpick] at h
                cases h
                rw [List.map_cons, List.map_cons, hlookup, ih.1 hpick]
      · intro h
        cases ss with
        | nil => cases h
        | cons s ss =>
            obtain ⟨hlookup, hrest⟩ := List.cons.inj h
            rw [show found.lookup name = some s from hlookup]
            dsimp only
            rw [ih.2 hrest]

theorem itemTexts_eq_ok {title : String} {all : List String} {vs₀ : List Value} {index : Nat}
    {names ss : List String} {vs : List Value} :
    itemTexts title all vs₀ index names vs = .ok ss ↔
      vs = ss.map Value.text ∧ names.length = ss.length := by
  induction names generalizing index vs ss with
  | nil =>
      cases vs with
      | nil =>
          constructor
          · intro h
            cases h
            exact ⟨rfl, rfl⟩
          · rintro ⟨h, -⟩
            rw [List.map_eq_nil_iff.1 h.symm]
            rfl
      | cons v vs =>
          constructor
          · intro h
            cases h
          · rintro ⟨h, hlength⟩
            rw [List.eq_nil_of_length_eq_zero hlength.symm] at h
            cases h
  | cons name names ih =>
      cases vs with
      | nil =>
          constructor
          · intro h
            cases h
          · rintro ⟨h, hlength⟩
            rw [List.map_eq_nil_iff.1 h.symm] at hlength
            cases hlength
      | cons v vs =>
          rw [itemTexts]
          constructor
          · intro h
            cases htext : v.asText with
            | error e => simp only [htext, reduceCtorEq] at h
            | ok s =>
                simp only [htext] at h
                cases hrest : itemTexts title all vs₀ (index + 1) names vs with
                | error e => simp only [hrest, reduceCtorEq] at h
                | ok ss' =>
                    simp only [hrest] at h
                    cases h
                    obtain ⟨rfl, hlength⟩ := ih.1 hrest
                    rw [asText_eq_ok.1 htext]
                    exact ⟨rfl, congrArg (· + 1) hlength⟩
          · rintro ⟨h, hlength⟩
            cases ss with
            | nil => cases h
            | cons s ss =>
                obtain ⟨rfl, rfl⟩ := List.cons.inj h
                rw [asText_eq_ok.2 rfl]
                dsimp only
                rw [ih.2 ⟨rfl, Nat.succ.inj hlength⟩]

/-- A body holds strings for the names: each name stands there once, with its string, or the
strings are all there is, in the names' order. -/
def Body.HoldsTexts (names ss : List String) : Body → Prop
  | .members ms => names.map (under ms) = ss.map fun s => [.text s]
  | .items vs => vs = ss.map Value.text ∧ names.length = ss.length

/-- What stands under a name tells what string is found there. -/
theorem toList_map_text_injective (s? s?' : Option String)
    (h : s?.toList.map Value.text = s?'.toList.map Value.text) : s? = s?' := by
  cases s? with
  | none =>
      cases s?' with
      | none => rfl
      | some s' => cases h
  | some s =>
      cases s?' with
      | none => cases h
      | some s' => exact congrArg some (Value.text.inj (List.cons.inj h).1)

theorem Body.texts_eq_ok {title : String} {names ss : List String} {body : Body} :
    body.texts title names = .ok ss ↔ body.HoldsTexts names ss := by
  cases body with
  | items vs => exact itemTexts_eq_ok
  | members ms =>
      have hunder : ∀ {found}, collect names [] ms = .ok found →
          names.map (under ms) = names.map (foundUnder found) := by
        intro found hcollect
        apply List.map_congr_left
        intro name hname
        exact (foundUnder_collect hcollect hname).symm
      constructor
      · intro h
        rw [Body.texts] at h
        cases hcollect : collect names [] ms with
        | error e => simp only [hcollect, reduceCtorEq] at h
        | ok found =>
            simp only [hcollect] at h
            calc names.map (under ms)
                = (names.map (found.lookup ·)).map fun s? => s?.toList.map Value.text := by
                  rw [hunder hcollect, List.map_map]
                  rfl
              _ = ss.map fun s => [.text s] := by
                  rw [pick_eq_ok.1 h, List.map_map]
                  rfl
      · intro h
        have hone : ∀ name ∈ names, ∃ s? : Option String,
            foundUnder [] name ++ under ms name = s?.toList.map Value.text := by
          intro name hname
          have hmem : under ms name ∈ ss.map fun s => [Value.text s] := by
            rw [← show names.map (under ms) = _ from h]
            exact List.mem_map_of_mem hname
          obtain ⟨s, -, hs⟩ := List.mem_map.1 hmem
          exact ⟨some s, hs.symm⟩
        obtain ⟨found, hcollect⟩ := exists_collect hone
        have hpick : pick found names = .ok ss := by
          rw [pick_eq_ok]
          rw [← List.map_inj_right toList_map_text_injective, List.map_map, List.map_map]
          exact (hunder hcollect).symm.trans h
        rw [Body.texts, hcollect]
        exact hpick

end ChatServer.Json
