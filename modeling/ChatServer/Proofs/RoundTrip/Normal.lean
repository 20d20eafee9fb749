import ChatServer.Proofs.RoundTrip.Record
import Mathlib.Data.List.Forall2

/-!
Whatever text a record is read from, the record has only parts that can be written: its moment has
every part in range, since each part is checked as it is read and the distance from the zero
meridian, a number of whole minutes, leaves the seconds alone. So a record that has been read is
written in a form that reads back as that record, and reading and writing it again changes nothing.
-/

namespace ChatServer

namespace Instant

/-! ### The parts of a moment -/

/-- What a chain of steps gives is what its last step gives. -/
theorem of_bind {α β : Type} {x : Except ReadError α} {f : α → Except ReadError β} {b : β}
    (h : x >>= f = .ok b) : ∃ a, x = .ok a ∧ f a = .ok b := by
  cases x with
  | error e => cases h
  | ok a => exact ⟨a, rfl, h⟩

theorem isDigit_of_mem_takeDigits {width : Nat} {cs ds rest : List Char}
    (h : takeDigits width cs = (ds, rest)) : ds.length ≤ width ∧ ∀ c ∈ ds, isDigit c = true := by
  induction width generalizing cs ds rest with
  | zero =>
      obtain ⟨rfl, -⟩ := Prod.mk.inj h
      simp
  | succ width ih =>
      cases cs with
      | nil =>
          obtain ⟨rfl, -⟩ := Prod.mk.inj h
          simp
      | cons c cs =>
          cases hc : isDigit c with
          | false =>
              simp only [takeDigits, hc] at h
              obtain ⟨rfl, -⟩ := Prod.mk.inj h
              simp
          | true =>
              simp only [takeDigits, hc] at h
              obtain ⟨rfl, -⟩ := Prod.mk.inj h
              obtain ⟨hlen, hdigits⟩ := @ih cs _ _ rfl
              refine ⟨Nat.succ_le_succ hlen, fun x hx => ?_⟩
              rcases List.mem_cons.1 hx with rfl | hx
              · exact hc
              · exact hdigits x hx

/-- So many digits write a number below that power of ten. -/
theorem digitsFrom_lt {ds : List Char} (h : ∀ c ∈ ds, isDigit c = true) (n : Nat) :
    digitsFrom n ds < (n + 1) * 10 ^ ds.length := by
  induction ds generalizing n with
  | nil => simp [digitsFrom]
  | cons c ds ih =>
      have hc := isDigit_bounds (h c List.mem_cons_self)
      have hnext : 10 * n + (c.toNat - 48) + 1 ≤ (n + 1) * 10 := by omega
      calc digitsFrom (10 * n + (c.toNat - 48)) ds
          < (10 * n + (c.toNat - 48) + 1) * 10 ^ ds.length :=
            ih (fun x hx => h x (List.mem_cons_of_mem c hx)) _
        _ ≤ (n + 1) * 10 * 10 ^ ds.length := Nat.mul_le_mul_right _ hnext
        _ = (n + 1) * 10 ^ (c :: ds).length := by
            rw [List.length_cons, Nat.pow_succ, Nat.mul_assoc, Nat.mul_comm 10]

theorem readPart_bounds {least most n : Nat} {cs rest : List Char}
    (h : readPart least most cs = .ok (n, rest)) : least ≤ n ∧ n ≤ most := by
  unfold readPart at h
  split at h
  · cases h
  · split at h
    case isTrue hbounds =>
      cases h
      exact hbounds
    case isFalse => cases h

/-- A fraction is shorter than a second. -/
theorem readFraction_lt {n : Nat} {cs rest : List Char} (h : readFraction cs = .ok (n, rest)) :
    n < 1000000000 := by
  unfold readFraction at h
  split at h
  · split at h
    case h_1 => cases h
    case h_2 => cases h
    case h_3 ds rest' _ _ htake =>
      cases h
      obtain ⟨hlen, hdigits⟩ := isDigit_of_mem_takeDigits htake
      have hvalue : digitsValue ds < 10 ^ ds.length := by
        simpa [digitsValue] using digitsFrom_lt hdigits 0
      calc digitsValue ds * tenPow (9 - ds.length)
          < 10 ^ ds.length * 10 ^ (9 - ds.length) :=
            Nat.mul_lt_mul_of_pos_right hvalue (Nat.pow_pos (by decide))
        _ = 1000000000 := by rw [← Nat.pow_add, Nat.add_sub_cancel' hlen]
  · cases h
    decide

/-- A distance from the zero meridian is given in whole minutes. -/
theorem readOffset_minutes {n : Int} {cs rest : List Char} (h : readOffset cs = .ok (n, rest)) :
    n % 60 = 0 := by
  unfold readOffset at h
  split at h
  · cases h
  · split at h
    · cases h
    · split at h
      · cases h
        omega
      · cases h

theorem readZone_minutes {n : Int} {cs rest : List Char} (h : readZone cs = .ok (n, rest)) :
    n % 60 = 0 := by
  unfold readZone at h
  cases cs with
  | nil => cases h
  | cons c cs =>
      dsimp only at h
      split at h
      · cases h
        rfl
      · split at h
        · cases h
          rfl
        · split at h
          · exact readOffset_minutes h
          · split at h
            case isTrue =>
              rcases hread : readOffset cs with e | ⟨n', rest'⟩
              · simp only [hread, reduceCtorEq] at h
              · simp only [hread] at h
                cases h
                have := readOffset_minutes hread
                omega
            case isFalse => cases h

/-- Clocks that differ by whole minutes show the same second, and it is a leap second for both. -/
theorem isValid_of_fromOffset {t t' : Instant} {offset : Int} (h : t.fromOffset offset = some t')
    (hoffset : offset % 60 = 0) (hsecond : t.second ≤ 59)
    (hnano : t.nano < 1000000000 ∨ (t.second = 59 ∧ t.nano < 2000000000)) : t'.IsValid := by
  simp only [fromOffset, Option.ite_none_right_eq_some, Option.some.injEq] at h
  obtain ⟨hdate, rfl⟩ := h
  have hkept : (((t.hour * 3600 + t.minute * 60 + t.second : Nat) - offset : Int) %
      86400).toNat % 60 = t.second := by omega
  refine ⟨hdate, ?_, ?_, ?_, ?_⟩ <;> dsimp only
  · omega
  · omega
  · omega
  · rwa [hkept]

/-- A moment that has been read has its parts in range, however it was written. -/
theorem isValid_of_read {cs : List Char} {t : Instant} (h : read cs = .ok t) : t.IsValid := by
  obtain ⟨⟨year, cs⟩, -, h⟩ := of_bind h
  obtain ⟨cs, -, h⟩ := of_bind h
  obtain ⟨⟨month, cs⟩, -, h⟩ := of_bind h
  obtain ⟨cs, -, h⟩ := of_bind h
  obtain ⟨⟨day, cs⟩, -, h⟩ := of_bind h
  obtain ⟨cs, -, h⟩ := of_bind h
  obtain ⟨⟨hour, cs⟩, -, h⟩ := of_bind h
  obtain ⟨cs, -, h⟩ := of_bind h
  obtain ⟨⟨minute, cs⟩, -, h⟩ := of_bind h
  obtain ⟨cs, -, h⟩ := of_bind h
  obtain ⟨⟨second, cs⟩, hsecond, h⟩ := of_bind h
  obtain ⟨⟨fraction, cs⟩, hfraction, h⟩ := of_bind h
  obtain ⟨⟨offset, cs⟩, hzone, h⟩ := of_bind h
  have hmost := (readPart_bounds hsecond).2
  have hshort := readFraction_lt hfraction
  have hminutes := readZone_minutes hzone
  simp only at h
  split at h
  · cases h
  · split at h
    · cases h
    · split at h
      · cases h
      · split at h
        case h_1 t' ht =>
          cases h
          -- second 60 is kept as second 59 with a longer fraction
          by_cases hleap : second = 60
          · rw [if_pos hleap] at ht
            have hlonger : fraction + 1000000000 < 2000000000 := by omega
            exact isValid_of_fromOffset ht hminutes (Nat.le_refl 59) (.inr ⟨rfl, hlonger⟩)
          · rw [if_neg hleap] at ht
            have hfew : second ≤ 59 := by omega
            exact isValid_of_fromOffset ht hminutes hfew (.inl hshort)
        case h_2 => cases h

end Instant

/-! ### The fields of a record -/

namespace Json

theorem fits_of_readDatum {kind : Kind} {d : Datum} {cs rest : List Char}
    (h : readDatum kind cs = .ok (d, rest)) : d.Fits kind := by
  cases kind with
  | text =>
      simp only [readDatum] at h
      split at h <;> cases h
      trivial
  | flag =>
      simp only [readDatum] at h
      split at h <;> cases h
      trivial
  | timestamp =>
      simp only [readDatum] at h
      rcases hread : readTimestamp cs with e | ⟨t, rest'⟩
      · simp only [hread, reduceCtorEq] at h
      · simp only [hread] at h
        cases h
        simp only [readTimestamp] at hread
        rcases htext : readText "an RFC 3339 formatted date and time string" cs with e | ⟨s, u⟩
        · simp only [htext, reduceCtorEq] at hread
        · simp only [htext] at hread
          cases hmoment : Instant.read s.toList with
          | error e => simp only [hmoment, reduceCtorEq] at hread
          | ok t' =>
              simp only [hmoment] at hread
              cases hread
              exact Instant.isValid_of_read hmoment

/-- The contents of an array are those of the fields in declared order. -/
theorem fits_of_readFieldItems {s : Schema} {index : Nat} {fields : List Field} {ds : List Datum}
    {cs rest : List Char} (h : readFieldItems s index fields cs = .ok (ds, rest)) :
    List.Forall₂ (fun d field => d.Fits field.kind) ds fields := by
  induction fields generalizing index ds cs rest with
  | nil =>
      simp only [readFieldItems] at h
      split at h <;> cases h
      exact .nil
  | cons field fields ih =>
      simp only [readFieldItems] at h
      rcases hnext : nextItem (index = 0) cs with e | ⟨u⟩ | ⟨_, u⟩ <;> simp only [hnext] at h
      · cases h
      · cases h
      · rcases hread : readDatum field.kind u with e | ⟨d, u'⟩
        · simp only [hread, reduceCtorEq] at h
        · simp only [hread] at h
          rcases hrest : readFieldItems s (index + 1) fields u' with e | ⟨ds', rest'⟩
          · simp only [hrest, reduceCtorEq] at h
          · simp only [hrest] at h
            cases h
            exact .cons (fits_of_readDatum hread) (ih hrest)

/-- What has been collected under the name of a field has the type that the field asks for. -/
def Suits (s : Schema) (found : Partial) : Prop :=
  ∀ k d, found.lookup k = some d →
    ∃ field, (s.fields.find? fun f => f.name = k) = some field ∧ d.Fits field.kind

theorem Suits.cons {s : Schema} {found : Partial} {k : String} {field : Field} {d : Datum}
    (h : Suits s found) (hfield : (s.fields.find? fun f => f.name = k) = some field)
    (hd : d.Fits field.kind) : Suits s ((k, d) :: found) := by
  intro k' d' hlookup
  rw [List.lookup_cons] at hlookup
  by_cases hk : k' = k
  · subst hk
    rw [beq_self_eq_true] at hlookup
    exact ⟨field, hfield, Option.some.inj hlookup ▸ hd⟩
  · rw [beq_eq_false_iff_ne.2 hk] at hlookup
    exact h k' d' hlookup

theorem find?_of_nodup {fields : List Field} (h : (fields.map Field.name).Nodup) {field : Field}
    (hfield : field ∈ fields) : (fields.find? fun f => f.name = field.name) = some field := by
  have hmem : (field, Datum.flag true) ∈ fields.map fun f => (f, Datum.flag true) :=
    List.mem_map_of_mem hfield
  have hfilled := find?_name (by simpa [Function.comp_def] using h) hmem
  simpa [Function.comp_def] using hfilled

theorem fits_of_gather {s : Schema} {found : Partial} {fields : List Field} {ds : List Datum}
    (hnodup : (s.fields.map Field.name).Nodup) (hsub : ∀ field ∈ fields, field ∈ s.fields)
    (hsuits : Suits s found) (h : gather found fields = .ok ds) :
    List.Forall₂ (fun d field => d.Fits field.kind) ds fields := by
  induction fields generalizing ds with
  | nil =>
      cases h
      exact .nil
  | cons field fields ih =>
      simp only [gather] at h
      cases hlookup : List.lookup field.name found with
      | none => simp only [hlookup, reduceCtorEq] at h
      | some d =>
          simp only [hlookup] at h
          cases hrest : gather found fields with
          | error e => simp only [hrest, reduceCtorEq] at h
          | ok ds' =>
              simp only [hrest] at h
              cases h
              obtain ⟨field', hfound, hd⟩ := hsuits field.name d hlookup
              -- a name is borne by one field only
              rw [find?_of_nodup hnodup (hsub field List.mem_cons_self)] at hfound
              obtain rfl : field = field' := Option.some.inj hfound
              exact .cons hd (ih (fun f hf => hsub f (List.mem_cons_of_mem field hf)) hrest)

/-- By induction on the members: each is collected as its field asks, in whatever order they come
and whatever stands between them. -/
theorem fits_of_readFieldMembers {s : Schema} {fuel : Nat} {found : Partial} {first : Bool}
    {ds : List Datum} {cs rest : List Char} (hnodup : (s.fields.map Field.name).Nodup)
    (hsuits : Suits s found) (h : readFieldMembers s fuel found first cs = .ok (ds, rest)) :
    List.Forall₂ (fun d field => d.Fits field.kind) ds s.fields := by
  induction fuel generalizing found first cs with
  | zero => cases h
  | succ fuel ih =>
      simp only [readFieldMembers] at h
      rcases hnext : nextKey first cs with e | ⟨u⟩ | ⟨k, u⟩ <;> simp only [hnext] at h
      · cases h
      · cases hgather : gather found s.fields with
        | error e => simp only [hgather, reduceCtorEq] at h
        | ok ds' =>
            simp only [hgather] at h
            cases h
            exact fits_of_gather hnodup (fun _ hf => hf) hsuits hgather
      · cases hfield : s.fields.find? fun f => f.name = k with
        | none =>
            simp only [hfield] at h
            -- a member that no field is named after
            split at h
            · cases h
            · split at h
              · cases h
              · exact ih hsuits h
        | some field =>
            simp only [hfield] at h
            split at h
            · cases h
            · split at h
              · cases h
              case h_2 u' _ =>
                rcases hread : readDatum field.kind u' with e | ⟨d, u''⟩
                · simp only [hread, reduceCtorEq] at h
                · simp only [hread] at h
                  exact ih (hsuits.cons hfield (fits_of_readDatum hread)) h

/-- A record that has been read has contents of the types its fields ask for. -/
theorem fits_of_readRecord {s : Schema} {ds : List Datum} {cs rest : List Char}
    (hnodup : (s.fields.map Field.name).Nodup) (h : readRecord s cs = .ok (ds, rest)) :
    List.Forall₂ (fun d field => d.Fits field.kind) ds s.fields := by
  unfold readRecord at h
  split at h
  · exact fits_of_readFieldItems h
  · exact fits_of_readFieldMembers hnodup (fun k d hlookup => by simp at hlookup) h
  · cases h

/-- What a text holds has been read from its front. -/
theorem exists_of_readWhole {α : Type} {reader : Reader α} {text : String} {a : α}
    (h : readWhole reader text = .ok a) : ∃ rest, reader text.toList = .ok (a, rest) := by
  simp only [readWhole] at h
  rcases hread : reader text.toList with e | ⟨a', rest⟩
  · simp only [hread, reduceCtorEq] at h
  · simp only [hread] at h
    split at h <;> cases h
    exact ⟨rest, rfl⟩

end Json

/-! ### Records -/

/-- A message that has been read was sent at a moment that exists. -/
theorem ChatRecord.isValid_of_parse {text : String} {r : ChatRecord} (h : parse text = .ok r) :
    r.sentAt.IsValid := by
  obtain ⟨rest, hread⟩ := Json.exists_of_readWhole h
  simp only [reader] at hread
  rcases hrecord : Json.readRecord schema text.toList with e | ⟨ds, rest'⟩
  · simp only [hrecord, reduceCtorEq] at hread
  · simp only [hrecord] at hread
    cases hdata : ofData ds with
    | none => simp only [hdata, reduceCtorEq] at hread
    | some r' =>
        simp only [hdata] at hread
        cases hread
        have hfits := Json.fits_of_readRecord (by decide) hrecord
        unfold ofData at hdata
        split at hdata
        · cases hdata
          cases hfits with
          | cons _ hfits => cases hfits with
            | cons _ hfits => cases hfits with
              | cons _ hfits => cases hfits with
                | cons hmoment _ => exact hmoment
        · cases hdata

/-- A record that has been read is written as a text that reads back as the record and is written
the same again; two that have been read are the same just if they are written the same. -/
structure Normal {α : Type} (parse : String → Except Json.Refusal α) (json : α → String) :
    Prop where
  back : ∀ text r, parse text = .ok r → parse (json r) = .ok r
  again : ∀ text r, parse text = .ok r → (parse (json r)).map json = .ok (json r)
  apart : ∀ text text' r r', parse text = .ok r → parse text' = .ok r' →
    (json r = json r' ↔ r = r')

theorem normal_of_back {α : Type} {parse : String → Except Json.Refusal α} {json : α → String}
    (h : ∀ text r, parse text = .ok r → parse (json r) = .ok r) : Normal parse json where
  back := h
  again text r hr := by
    rw [h text r hr]
    rfl
  apart text text' r r' hr hr' := by
    refine ⟨fun hjson => ?_, fun hsame => hsame ▸ rfl⟩
    have hback := h text r hr
    rw [hjson, h text' r' hr'] at hback
    exact (Except.ok.inj hback).symm

/-- **Records that are kept read back.** Every message sent at a moment that exists and every
direct message is read from what is kept of it; whatever text a record is read from, keeping the
record and reading it again changes nothing. -/
theorem records_read_back :
    (∀ r : ChatRecord, r.sentAt.IsValid → ChatRecord.parse r.json = .ok r) ∧
      (∀ r : DirectRecord, DirectRecord.parse r.json = .ok r) ∧
      Normal ChatRecord.parse ChatRecord.json ∧ Normal DirectRecord.parse DirectRecord.json :=
  ⟨fun _ h => ChatRecord.parse_json h, DirectRecord.parse_json,
    normal_of_back fun _ _ h => ChatRecord.parse_json (ChatRecord.isValid_of_parse h),
    normal_of_back fun _ r _ => DirectRecord.parse_json r⟩

/-- Half way through a leap second, by clocks five hours behind the zero meridian. -/
def leapText : String :=
  "\x7b \"sent_at\": \"2016-12-31t18:59:60.5-05:00\", \"extra\": [1, null], " ++
    "\"text\": \"\\u00e9\\n\", \"room_id\": \"r\", \"sender_id\": \"u\" \x7d"

def leapRecord : ChatRecord :=
  ⟨⟨"u"⟩, ⟨"r"⟩, "é\n", ⟨2016, 12, 31, 23, 59, 59, 1500000000⟩⟩

/-- Fields in another order, one too many, an escape, an offset and a leap second. -/
theorem records_read_back_leap :
    leapRecord.sentAt.IsValid ∧ ChatRecord.parse leapText = .ok leapRecord ∧
      leapRecord.json = "\x7b\"sender_id\":\"u\",\"room_id\":\"r\",\"text\":\"é\\n\"," ++
        "\"sent_at\":\"2016-12-31T23:59:60.500Z\"\x7d" ∧
      ChatRecord.parse leapRecord.json = .ok leapRecord ∧
      (ChatRecord.parse leapRecord.json).map ChatRecord.json = .ok leapRecord.json := by
  have hvalid : leapRecord.sentAt.IsValid := by decide
  have hread : (ChatRecord.parse leapText).toOption = some leapRecord := by decide +kernel
  have hread : ChatRecord.parse leapText = .ok leapRecord := by
    cases h : ChatRecord.parse leapText with
    | error e => simp [h, Except.toOption] at hread
    | ok r => rw [h] at hread; exact congrArg Except.ok (Option.some.inj hread)
  exact ⟨hvalid, hread, by decide +kernel, records_read_back.1 leapRecord hvalid,
    records_read_back.2.2.1.again leapText leapRecord hread⟩

end ChatServer
