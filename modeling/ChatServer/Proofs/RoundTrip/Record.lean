import ChatServer.Message.Record
import ChatServer.Proofs.RoundTrip.Instant
import ChatServer.Proofs.RoundTrip.Text

/-!
Records written as JSON objects read back. A written record is its fields in declared order; the
reader finds each of them by its name, collects it, and gathers the fields at the closing brace.
The argument is made once for any schema, by induction on the members that are still to come.
-/

namespace ChatServer.Json

/-- The JSON value a field is written as. -/
def Datum.toValue : Datum → Value
  | .text s => .text s
  | .flag b => .flag b
  | .timestamp t => .text t.text

/-- The content has the type that the field asks for, and a moment exists. -/
def Datum.Fits : Datum → Kind → Prop
  | .text _, .text => True
  | .flag _, .flag => True
  | .timestamp t, .timestamp => t.IsValid
  | _, _ => False

theorem readDatum_toValue {d : Datum} {kind : Kind} (h : d.Fits kind) (rest : List Char) :
    readDatum kind (d.toValue.chars ++ rest) = .ok (d, rest) := by
  cases d with
  | text s =>
      cases kind with
      | text => simp [readDatum, Datum.toValue, Value.chars, readText_stringChars]
      | flag => exact h.elim
      | timestamp => exact h.elim
  | flag b =>
      cases kind with
      | text => exact h.elim
      | flag => cases b <;> rfl
      | timestamp => exact h.elim
  | timestamp t =>
      cases kind with
      | text => exact h.elim
      | flag => exact h.elim
      | timestamp =>
          have hread : Instant.read t.text.toList = .ok t := Instant.read_text h
          simp [readDatum, readTimestamp, Datum.toValue, Value.chars, readText_stringChars, hread]

/-! ### The steps through an object -/

theorem nextKey_first (k : String) (rest : List Char) :
    nextKey true (stringChars k ++ rest) = .ok (.more k rest) := by
  simp [nextKey, skipSpace_stringChars, readString_escape]

theorem nextKey_comma (k : String) (rest : List Char) :
    nextKey false (',' :: (stringChars k ++ rest)) = .ok (.more k rest) := by
  have hcomma : isSpace ',' = false := by decide
  simp [nextKey, skipSpace_cons hcomma, skipSpace_stringChars, readString_escape]

theorem nextKey_close (first : Bool) (rest : List Char) :
    nextKey first ('\x7d' :: rest) = .ok (.closed rest) := by
  have hbrace : isSpace '\x7d' = false := by decide
  simp [nextKey, skipSpace_cons hbrace]

theorem readColon_cons (rest : List Char) : readColon (':' :: rest) = .ok rest := by
  have hcolon : isSpace ':' = false := by decide
  simp [readColon, skipSpace_cons hcolon]

/-- A member whose name is a field's and new is read and collected. -/
theorem readFieldMembers_step {s : Schema} (field : Field) (d : Datum) {found : Partial}
    {first : Bool} {cs rest : List Char} (fuel : Nat)
    (hkey : nextKey first cs = .ok (.more field.name (':' :: (d.toValue.chars ++ rest))))
    (hfield : (s.fields.find? fun f => f.name = field.name) = some field)
    (hnew : found.lookup field.name = none) (hfit : d.Fits field.kind) :
    readFieldMembers s (fuel + 1) found first cs =
      readFieldMembers s fuel ((field.name, d) :: found) false rest := by
  simp [readFieldMembers, hkey, hfield, hnew, readColon_cons, readDatum_toValue hfit]

/-- Behind the last member the fields are gathered. -/
theorem readFieldMembers_close {s : Schema} {found : Partial} {first : Bool} {ds : List Datum}
    (fuel : Nat) (rest : List Char) (hgather : gather found s.fields = .ok ds) :
    readFieldMembers s (fuel + 1) found first ('\x7d' :: rest) = .ok (ds, rest) := by
  simp [readFieldMembers, nextKey_close, hgather]

/-! ### Whole records -/

/-- A field with its content. -/
abbrev Filled := Field × Datum

/-- A field with its content as a member of an object. -/
def Filled.member (e : Filled) : String × Value := (e.1.name, e.2.toValue)

/-- A field with its content as the reader collects it. -/
def Filled.found (e : Filled) : String × Datum := (e.1.name, e.2)

/-- Where names differ, a later field does not bear the name of the first one. -/
theorem name_ne_of_mem {e e' : Filled} {es : List Filled}
    (h : e.1.name ∉ es.map fun e => e.1.name) (he' : e' ∈ es) : e'.1.name ≠ e.1.name := by
  intro heq
  exact h (heq ▸ List.mem_map.2 ⟨e', he', rfl⟩)

/-- Members that follow others, each behind a comma. -/
def laterChars (es : List Filled) : List Char :=
  es.flatMap fun e => ',' :: (stringChars e.1.name ++ ':' :: e.2.toValue.chars)

/-- Every member takes a character at least. -/
theorem length_le_laterChars (es : List Filled) : es.length ≤ (laterChars es).length := by
  induction es with
  | nil => simp
  | cons e es ih =>
      simp only [laterChars, List.flatMap_cons, List.length_append, List.length_cons] at ih ⊢
      omega

theorem membersChars_cons (e : Filled) (es : List Filled) :
    membersChars ((e :: es).map Filled.member) =
      stringChars e.1.name ++ ':' :: (e.2.toValue.chars ++ laterChars es) := by
  induction es generalizing e with
  | nil => simp [membersChars, Filled.member, laterChars]
  | cons e' es ih =>
      have hlater := ih e'
      simp only [List.map_cons] at hlater ⊢
      rw [show e.member = (e.1.name, e.2.toValue) from rfl, membersChars, hlater]
      simp [laterChars]

theorem gather_eq_ok {found : Partial} {es : List Filled}
    (h : ∀ e ∈ es, found.lookup e.1.name = some e.2) :
    gather found (es.map Prod.fst) = .ok (es.map Prod.snd) := by
  induction es with
  | nil => rfl
  | cons e es ih =>
      have hrest := ih fun e' he' => h e' (List.mem_cons_of_mem e he')
      simp [gather, h e List.mem_cons_self, hrest]

/-- Collecting the remaining members and gathering gives what gathering all of them gives. The
induction is on the members to come; those collected so far bear other names. -/
theorem readFieldMembers_laterChars {s : Schema} {es : List Filled} {found : Partial}
    {fuel : Nat} {ds : List Datum} (rest : List Char)
    (hfields : ∀ e ∈ es, (s.fields.find? fun f => f.name = e.1.name) = some e.1)
    (hfit : ∀ e ∈ es, e.2.Fits e.1.kind)
    (hnew : ∀ e ∈ es, found.lookup e.1.name = none)
    (hnodup : (es.map fun e => e.1.name).Nodup) (hfuel : es.length < fuel)
    (hgather : gather ((es.map Filled.found).reverse ++ found) s.fields = .ok ds) :
    readFieldMembers s fuel found false (laterChars es ++ '\x7d' :: rest) = .ok (ds, rest) := by
  induction es generalizing found fuel with
  | nil =>
      cases fuel with
      | zero => simp at hfuel
      | succ fuel => exact readFieldMembers_close fuel rest hgather
  | cons e es ih =>
      cases fuel with
      | zero => simp at hfuel
      | succ fuel =>
          simp only [List.map_cons, List.nodup_cons] at hnodup
          have hkey : nextKey false (laterChars (e :: es) ++ '\x7d' :: rest) =
              .ok (.more e.1.name (':' :: (e.2.toValue.chars ++
                (laterChars es ++ '\x7d' :: rest)))) := by
            simp only [laterChars, List.flatMap_cons, List.cons_append, List.append_assoc]
            exact nextKey_comma e.1.name _
          rw [readFieldMembers_step e.1 e.2 fuel hkey (hfields e List.mem_cons_self)
            (hnew e List.mem_cons_self) (hfit e List.mem_cons_self)]
          -- the member just read is new to those that follow, as no name comes twice
          apply ih
          · exact fun e' he' => hfields e' (List.mem_cons_of_mem e he')
          · exact fun e' he' => hfit e' (List.mem_cons_of_mem e he')
          · intro e' he'
            have hlookup := hnew e' (List.mem_cons_of_mem e he')
            rw [List.lookup_cons, beq_eq_false_iff_ne.2 (name_ne_of_mem hnodup.1 he')]
            exact hlookup
          · exact hnodup.2
          · simpa using hfuel
          · simpa [Filled.found] using hgather

theorem find?_name {es : List Filled} (hnodup : (es.map fun e => e.1.name).Nodup) {e : Filled}
    (he : e ∈ es) : ((es.map Prod.fst).find? fun f => f.name = e.1.name) = some e.1 := by
  induction es with
  | nil => simp at he
  | cons e' es ih =>
      simp only [List.map_cons, List.nodup_cons] at hnodup
      rcases List.mem_cons.1 he with rfl | he
      · simp
      · have hne := name_ne_of_mem hnodup.1 he
        simpa [hne.symm] using ih hnodup.2 he

theorem lookup_found {es : List Filled} (hnodup : (es.map fun e => e.1.name).Nodup) {e : Filled}
    (he : e ∈ es) : (es.map Filled.found).reverse.lookup e.1.name = some e.2 := by
  induction es with
  | nil => simp at he
  | cons e' es ih =>
      simp only [List.map_cons, List.nodup_cons] at hnodup
      simp only [List.map_cons, List.reverse_cons, List.lookup_append]
      rcases List.mem_cons.1 he with rfl | he
      · have hnone : (es.map Filled.found).reverse.lookup e.1.name = none := by
          rw [List.lookup_eq_none_iff]
          rintro ⟨k, d⟩ hk
          simp only [List.mem_reverse, List.mem_map, Filled.found] at hk
          obtain ⟨e', he', heq⟩ := hk
          rw [bne_iff_ne, ← (Prod.mk.inj heq).1]
          exact (name_ne_of_mem hnodup.1 he').symm
        rw [hnone]
        simp [Filled.found]
      · rw [ih hnodup.2 he]
        rfl

/-- A record written as an object with all its fields reads back, whatever follows it. -/
theorem readRecord_object {s : Schema} {es : List Filled} (rest : List Char)
    (hfields : s.fields = es.map Prod.fst) (hnodup : (es.map fun e => e.1.name).Nodup)
    (hfit : ∀ e ∈ es, e.2.Fits e.1.kind) :
    readRecord s ((Value.object (es.map Filled.member)).chars ++ rest) =
      .ok (es.map Prod.snd, rest) := by
  have hbrace : isSpace '\x7b' = false := by decide
  have hfind : ∀ e ∈ es, (s.fields.find? fun f => f.name = e.1.name) = some e.1 := by
    intro e he
    rw [hfields]
    exact find?_name hnodup he
  have hgather : gather (es.map Filled.found).reverse s.fields = .ok (es.map Prod.snd) := by
    rw [hfields]
    exact gather_eq_ok fun e he => lookup_found hnodup he
  simp only [Value.chars, List.cons_append, List.append_assoc, readRecord,
    skipSpace_cons hbrace, List.nil_append]
  -- the first member has no comma before it
  cases es with
  | nil => exact readFieldMembers_close _ rest hgather
  | cons e es =>
      simp only [List.map_cons, List.nodup_cons] at hnodup
      have hlater := length_le_laterChars es
      rw [membersChars_cons]
      rw [readFieldMembers_step e.1 e.2 _ (by
          simp only [List.append_assoc, List.cons_append]
          exact nextKey_first e.1.name _) (hfind e List.mem_cons_self) rfl
        (hfit e List.mem_cons_self)]
      apply readFieldMembers_laterChars
      · exact fun e' he' => hfind e' (List.mem_cons_of_mem e he')
      · exact fun e' he' => hfit e' (List.mem_cons_of_mem e he')
      · intro e' he'
        rw [List.lookup_cons, beq_eq_false_iff_ne.2 (name_ne_of_mem hnodup.1 he')]
        rfl
      · exact hnodup.2
      · simp only [List.length_append, List.length_cons]
        omega
      · simpa [Filled.found] using hgather

end ChatServer.Json

namespace ChatServer

open Json (Datum Filled readRecord_object)

/-- What a whole text holds is what a reader takes if it takes all of it. -/
theorem Json.readWhole_eq_ok {α : Type} {reader : Json.Reader α} {text : String} {a : α}
    (h : reader text.toList = .ok (a, [])) : Json.readWhole reader text = .ok a := by
  simp [Json.readWhole, h]

/-- Entries that all read back are all readable. -/
theorem readable_map {α : Type} {parse : String → Except Json.Refusal α} {json : α → String}
    {rs : List α} (h : ∀ r ∈ rs, parse (json r) = .ok r) : readable parse (rs.map json) = rs := by
  induction rs with
  | nil => rfl
  | cons r rs ih =>
      have hrest := ih fun r' hr' => h r' (List.mem_cons_of_mem r hr')
      simp only [readable] at hrest
      simp only [readable, List.map_cons, List.filterMap_cons, h r List.mem_cons_self, hrest]
      rfl

namespace ChatRecord

/-- The fields of a message with their contents. -/
def filled (r : ChatRecord) : List Filled :=
  [(⟨"sender_id", .text⟩, .text r.sender.text), (⟨"room_id", .text⟩, .text r.room.text),
    (⟨"text", .text⟩, .text r.text), (⟨"sent_at", .timestamp⟩, .timestamp r.sentAt)]

/-- A message that was sent at a moment that exists reads back from what is kept of it. -/
theorem parse_json {r : ChatRecord} (h : r.sentAt.IsValid) : parse r.json = .ok r := by
  have hread : Json.readRecord schema r.json.toList = .ok (r.filled.map Prod.snd, []) := by
    have hobject : r.json.toList =
        (Json.Value.object (r.filled.map Filled.member)).chars ++ [] := by
      simp [json, Json.Value.render, toValue, filled, Filled.member, Datum.toValue]
    rw [hobject]
    apply readRecord_object [] rfl
    · simp [filled]
    · intro e he
      simp only [filled, List.mem_cons, List.not_mem_nil, or_false] at he
      rcases he with rfl | rfl | rfl | rfl
      · trivial
      · trivial
      · trivial
      · exact h
  apply Json.readWhole_eq_ok
  rw [reader, hread]
  rfl

/-- Messages that are kept are all readable. -/
theorem readable_map_json {rs : List ChatRecord} (h : ∀ r ∈ rs, r.sentAt.IsValid) :
    readable parse (rs.map json) = rs :=
  readable_map fun r hr => parse_json (h r hr)

end ChatRecord

namespace DirectRecord

/-- The fields of a direct message with their contents. -/
def filled (r : DirectRecord) : List Filled :=
  [(⟨"sender_id", .text⟩, .text r.sender.text), (⟨"receiver_id", .text⟩, .text r.receiver.text),
    (⟨"text", .text⟩, .text r.text), (⟨"is_dm", .flag⟩, .flag r.isDirect)]

/-- Every direct message reads back from what is kept of it. -/
theorem parse_json (r : DirectRecord) : parse r.json = .ok r := by
  have hread : Json.readRecord schema r.json.toList = .ok (r.filled.map Prod.snd, []) := by
    have hobject : r.json.toList =
        (Json.Value.object (r.filled.map Filled.member)).chars ++ [] := by
      simp [json, Json.Value.render, toValue, filled, Filled.member, Datum.toValue]
    rw [hobject]
    apply readRecord_object [] rfl
    · simp [filled]
    · intro e he
      simp only [filled, List.mem_cons, List.not_mem_nil, or_false] at he
      rcases he with rfl | rfl | rfl | rfl <;> trivial
  apply Json.readWhole_eq_ok
  rw [reader, hread]
  rfl

end DirectRecord

end ChatServer
