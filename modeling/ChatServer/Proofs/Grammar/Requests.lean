import ChatServer.Message.Request
import ChatServer.Proofs.Grammar.Rendered
import ChatServer.Proofs.Grammar.Tagged

/-!
What a client can ask, and in which texts. A request is its type and its fields by name; a text asks
it as an object in which each of them stands once, among whatever else, or as an array of them in
their order. No other text asks anything.
-/

namespace ChatServer

open Json

namespace Request

def typeName : Request → String
  | .identify _ => "identify"
  | .createRoom _ => "create_room"
  | .join _ => "join"
  | .leave => "leave"
  | .chat _ => "chat"
  | .deleteRoom _ => "delete_room"
  | .history _ => "history"
  | .direct .. => "direct"
  | .fetchDirect .. => "fetch_direct"
  | .deleteDirect .. => "delete_direct"

/-- The fields of a request, by name, in their declared order. -/
def fields : Request → List (String × String)
  | .identify user => [("user_id", user)]
  | .createRoom room => [("room_id", room)]
  | .join room => [("room_id", room)]
  | .leave => []
  | .chat text => [("text", text)]
  | .deleteRoom room => [("room_id", room)]
  | .history room => [("room_id", room)]
  | .direct receiver text => [("receiver_id", receiver), ("text", text)]
  | .fetchDirect sender receiver => [("sender_id", sender), ("receiver_id", receiver)]
  | .deleteDirect sender receiver => [("sender_id", sender), ("receiver_id", receiver)]

/-- An object asks a request: its type stands there once and each of its fields once, as strings. -/
def InObject (r : Request) (ms : List (String × Value)) : Prop :=
  under ms "type" = [.text r.typeName] ∧ ∀ e ∈ r.fields, under ms e.1 = [.text e.2]

/-- An array asks a request: it holds the type and the fields, and nothing else. -/
def InArray (r : Request) (vs : List Value) : Prop :=
  vs = .text r.typeName :: r.fields.map fun e => .text e.2

/-- A value asks a request. -/
def InValue (r : Request) : Value → Prop
  | .object ms => r.InObject ms
  | .array vs => r.InArray vs
  | _ => False

/-! ### Forms and requests -/

theorem field_ne_tag (r : Request) : ∀ e ∈ r.fields, e.1 ≠ tagName := by
  cases r <;> simp [fields, tagName]

theorem typeName_mem_tags (r : Request) : r.typeName ∈ tags := by
  cases r <;> simp [typeName, tags, forms, form0, form1, form2]

/-- Every request has a form, which makes it from its fields. -/
theorem exists_form (r : Request) :
    ∃ form, (forms.find? fun f => f.tag = r.typeName) = some form ∧
      form.fields = r.fields.map Prod.fst ∧ form.make (r.fields.map Prod.snd) = some r := by
  cases r <;> exact ⟨_, rfl, rfl, rfl⟩

theorem make_form0 {tag title : String} {r r' : Request} {values : List String}
    (h : (form0 tag title r).make values = some r') : values = [] ∧ r = r' := by
  cases values with
  | nil => exact ⟨rfl, Option.some.inj h⟩
  | cons _ _ => cases h

theorem make_form1 {tag title field : String} {make : String → Request} {r : Request}
    {values : List String} (h : (form1 tag title field make).make values = some r) :
    ∃ a, values = [a] ∧ make a = r := by
  rcases values with _ | ⟨a, _ | ⟨b, values⟩⟩
  · cases h
  · exact ⟨a, rfl, Option.some.inj h⟩
  · cases h

theorem make_form2 {tag title field field' : String} {make : String → String → Request}
    {r : Request} {values : List String}
    (h : (form2 tag title field field' make).make values = some r) :
    ∃ a b, values = [a, b] ∧ make a b = r := by
  rcases values with _ | ⟨a, _ | ⟨b, _ | ⟨c, values⟩⟩⟩
  · cases h
  · cases h
  · exact ⟨a, b, rfl, Option.some.inj h⟩
  · cases h

/-- A form makes requests of its own type, from their fields. -/
theorem form_eq {form : Form} (hform : form ∈ forms) {values : List String} {r : Request}
    (h : form.make values = some r) :
    form.tag = r.typeName ∧ form.fields = r.fields.map Prod.fst ∧
      values = r.fields.map Prod.snd := by
  simp only [forms, List.mem_cons, List.not_mem_nil, or_false] at hform
  rcases hform with rfl | rfl | rfl | rfl | rfl | rfl | rfl | rfl | rfl | rfl
  case inr.inr.inr.inl =>
    obtain ⟨rfl, rfl⟩ := make_form0 h
    exact ⟨rfl, rfl, rfl⟩
  case inr.inr.inr.inr.inr.inr.inr.inl =>
    obtain ⟨a, b, rfl, rfl⟩ := make_form2 h
    exact ⟨rfl, rfl, rfl⟩
  case inr.inr.inr.inr.inr.inr.inr.inr.inl =>
    obtain ⟨a, b, rfl, rfl⟩ := make_form2 h
    exact ⟨rfl, rfl, rfl⟩
  case inr.inr.inr.inr.inr.inr.inr.inr.inr =>
    obtain ⟨a, b, rfl, rfl⟩ := make_form2 h
    exact ⟨rfl, rfl, rfl⟩
  all_goals
    obtain ⟨a, rfl, rfl⟩ := make_form1 h
    exact ⟨rfl, rfl, rfl⟩

theorem ofBody_eq_ok {tag : String} {body : Body} {r : Request} :
    ofBody tag body = .ok r ↔
      tag = r.typeName ∧ body.HoldsTexts (r.fields.map Prod.fst) (r.fields.map Prod.snd) := by
  constructor
  · intro h
    unfold ofBody at h
    cases hfind : List.find? (fun f => decide (f.tag = tag)) forms with
    | none => simp only [hfind, reduceCtorEq] at h
    | some form =>
        simp only [hfind] at h
        cases htexts : Body.texts form.heading form.fields body with
        | error e => simp only [htexts, reduceCtorEq] at h
        | ok values =>
            simp only [htexts] at h
            cases hmake : form.make values with
            | none => simp only [hmake, reduceCtorEq] at h
            | some r' =>
                simp only [hmake] at h
                cases h
                obtain ⟨htag, hfields, rfl⟩ := form_eq (List.mem_of_find?_eq_some hfind) hmake
                have hfound : form.tag = tag := by simpa using List.find?_some hfind
                rw [← hfields]
                exact ⟨hfound.symm.trans htag, Body.texts_eq_ok.1 htexts⟩
  · rintro ⟨rfl, hholds⟩
    obtain ⟨form, hfind, hfields, hmake⟩ := r.exists_form
    rw [← hfields] at hholds
    simp only [ofBody, hfind, Body.texts_eq_ok.2 hholds, hmake]

/-! ### Texts and requests -/

/-- A value asks a request just if it is tagged with the request's type and holds its fields. -/
theorem inValue_iff {r : Request} {v : Value} :
    r.InValue v ↔ ∃ body, Holds tags v r.typeName body ∧
      body.HoldsTexts (r.fields.map Prod.fst) (r.fields.map Prod.snd) := by
  have hmembers : ∀ ms, (Body.members (untagged ms)).HoldsTexts (r.fields.map Prod.fst)
      (r.fields.map Prod.snd) ↔ ∀ e ∈ r.fields, under ms e.1 = [.text e.2] := by
    intro ms
    rw [Body.HoldsTexts, List.map_map, List.map_map, List.map_inj_left]
    constructor
    · intro h e he
      exact (under_untagged (r.field_ne_tag e he) ms).symm.trans (h e he)
    · intro h e he
      exact (under_untagged (r.field_ne_tag e he) ms).trans (h e he)
  constructor
  · intro h
    cases v with
    | object ms =>
        exact ⟨.members (untagged ms), .object r.typeName_mem_tags h.1, (hmembers ms).2 h.2⟩
    | array vs =>
        obtain rfl : vs = _ := h
        refine ⟨.items _, .array r.typeName_mem_tags, ?_, by simp⟩
        rw [List.map_map]
        rfl
    | null => exact h.elim
    | flag _ => exact h.elim
    | number _ => exact h.elim
    | text _ => exact h.elim
  · rintro ⟨body, hholds, htexts⟩
    generalize ht : r.typeName = t at hholds
    cases hholds with
    | @object ms _ tag once =>
        rw [← ht] at once
        exact ⟨once, (hmembers ms).1 htexts⟩
    | array tag =>
        obtain ⟨rfl, -⟩ := htexts
        show _ = _
        rw [ht, List.map_map]
        rfl

/-- A text is read as a request just if it holds a value that asks it. -/
theorem parse_eq_ok_iff {text : String} {r : Request} :
    parse text = .ok r ↔ ∃ v, TextOf v text ∧ r.InValue v := by
  rw [parse, readWhole_eq_ok_iff]
  constructor
  · rintro ⟨rest, hread, hblank⟩
    unfold reader at hread
    rcases htagged : readTagged tags "internally tagged enum ClientMessage" text.toList with
      e | ⟨⟨tag, body⟩, rest'⟩
    · simp only [htagged, reduceCtorEq] at hread
    · simp only [htagged] at hread
      cases hbody : ofBody tag body with
      | error e => simp only [hbody, reduceCtorEq] at hread
      | ok r' =>
          simp only [hbody] at hread
          cases hread
          obtain ⟨v, b, w, hholds, hheight, hb, hw, htext⟩ := readTagged_eq_ok.1 htagged
          obtain ⟨rfl, htexts⟩ := ofBody_eq_ok.1 hbody
          exact ⟨v, ⟨hheight, b, w, rest, hb, hw, hblank, htext⟩,
            inValue_iff.2 ⟨body, hholds, htexts⟩⟩
  · rintro ⟨v, ⟨hheight, b, w, b', hb, hw, hb', htext⟩, hasks⟩
    obtain ⟨body, hholds, htexts⟩ := inValue_iff.1 hasks
    have htagged : readTagged tags "internally tagged enum ClientMessage" text.toList =
        .ok ((r.typeName, body), b') :=
      readTagged_eq_ok.2 ⟨v, b, w, hholds, hheight, hb, hw, htext⟩
    refine ⟨b', ?_, hb'⟩
    rw [reader, htagged]
    dsimp only
    rw [ofBody_eq_ok.2 ⟨rfl, htexts⟩]

/-- The reader of requests accepts just its grammar. A text is read as a request just if it holds a
value that asks it. Where the text holds an object, whatever the order of the members, the blanks
between them and the members that are not asked for, that is so if the type and every field stand
there once, as strings; where it holds an array, if the array is the type followed by the fields.
Any other text is refused, and so is any text behind whose value something else follows. -/
theorem parse_grammar :
    (∀ text r, parse text = .ok r ↔ ∃ v, TextOf v text ∧ r.InValue v) ∧
    (∀ ms text, TextOf (.object ms) text →
      (∀ r, parse text = .ok r ↔ r.InObject ms) ∧
      ((∀ r, ¬InObject r ms) → ∃ e, parse text = .error e)) ∧
    (∀ vs text, TextOf (.array vs) text →
      (∀ r, parse text = .ok r ↔ r.InArray vs) ∧
      ((∀ r, ¬InArray r vs) → ∃ e, parse text = .error e)) ∧
    (∀ text, (∀ ms, ¬TextOf (.object ms) text) → (∀ vs, ¬TextOf (.array vs) text) →
      ∃ e, parse text = .error e) ∧
    (∀ v front back, TextOf v front → ¬Blank back.toList →
      ∃ e, parse (front ++ back) = .error e) := by
  have hvalue : ∀ {v text}, TextOf v text → ∀ r, parse text = .ok r ↔ r.InValue v := by
    intro v text htext r
    rw [parse_eq_ok_iff]
    constructor
    · rintro ⟨v', htext', hasks⟩
      rwa [htext.unique htext']
    · exact fun hasks => ⟨v, htext, hasks⟩
  have hrefused : ∀ {text}, (∀ r, parse text ≠ .ok r) → ∃ e, parse text = .error e := by
    intro text h
    cases hparse : parse text with
    | error e => exact ⟨e, rfl⟩
    | ok r => exact absurd hparse (h r)
  refine ⟨fun text r => parse_eq_ok_iff, fun ms text htext => ⟨hvalue htext, fun h => ?_⟩,
    fun vs text htext => ⟨hvalue htext, fun h => ?_⟩, fun text hobject harray => ?_,
    fun v front back hfront hback => ?_⟩
  · exact hrefused fun r hparse => h r ((hvalue htext r).1 hparse)
  · exact hrefused fun r hparse => h r ((hvalue htext r).1 hparse)
  · refine hrefused fun r hparse => ?_
    obtain ⟨v, htext, hasks⟩ := parse_eq_ok_iff.1 hparse
    cases v with
    | object ms => exact hobject ms htext
    | array vs => exact harray vs htext
    | null => exact hasks
    | flag _ => exact hasks
    | number _ => exact hasks
    | text _ => exact hasks
  · refine hrefused fun r hparse => ?_
    obtain ⟨v', htext, hasks⟩ := parse_eq_ok_iff.1 hparse
    obtain ⟨-, hheight⟩ := hfront.height_of_trailing hback htext
    cases v' with
    | object ms => exact absurd hheight (Nat.succ_ne_zero _)
    | array vs => exact absurd hheight (Nat.succ_ne_zero _)
    | null => exact hasks
    | flag _ => exact hasks
    | number _ => exact hasks
    | text _ => exact hasks

/-- Members of a request with its type at the end, behind members that nobody asked for. -/
def scatteredMembers : List (String × Value) :=
  [("text", .text "hi \"Bob\""), ("extra", .array [.object [("type", .text "leave")]]),
    ("extra", .flag false), ("receiver_id", .text "bob"), ("type", .text "direct")]

/-- A text of the object with these members. -/
def scattered : String :=
  "\n \x7b\"text\":\"hi \\\"Bob\\\"\",\"extra\":[\x7b\"type\":\"leave\"\x7d]," ++
    "\"extra\":false,\"receiver_id\":\"bob\",\"type\":\"direct\"\x7d "

theorem renders_scattered : Renders 3 (.object scatteredMembers) := by
  apply renders_object
  intro m hm
  simp only [scatteredMembers, List.mem_cons, List.not_mem_nil, or_false] at hm
  rcases hm with rfl | rfl | rfl | rfl | rfl
  · exact renders_text 2 _
  · apply renders_array
    intro v hv
    rw [List.mem_singleton.1 hv]
    apply renders_object
    intro m hm
    rw [List.mem_singleton.1 hm]
    exact renders_text 0 _
  · exact renders_flag 2 _
  · exact renders_text 2 _
  · exact renders_text 2 _

theorem textOf_scattered : TextOf (.object scatteredMembers) scattered := by
  obtain ⟨hw, hheight⟩ := renders_scattered
  have hsplit : scattered.toList =
      ['\n', ' '] ++ ((Value.object scatteredMembers).chars ++ [' ']) := by decide +kernel
  exact ⟨Nat.lt_of_le_of_lt hheight (by decide), _, _, _,
    blank_cons rfl (blank_cons rfl blank_nil), hw, blank_cons rfl blank_nil, hsplit⟩

/-- The scattered request is read, and no longer when a comma follows it; the array of a type alone
asks to leave; and a string asks nothing. -/
theorem parse_scattered :
    (TextOf (.object scatteredMembers) scattered ∧
      InObject (.direct "bob" "hi \"Bob\"") scatteredMembers ∧
      parse scattered = .ok (.direct "bob" "hi \"Bob\"")) ∧
    (¬Blank ",".toList ∧ ∃ e, parse (scattered ++ ",") = .error e) ∧
    (InArray .leave [.text "leave"] ∧
      parse (Value.array [.text "leave"]).render = .ok .leave) ∧
    ∃ e, parse (Value.text "leave").render = .error e := by
  have harray : TextOf (.array [.text "leave"]) (Value.array [.text "leave"]).render := by
    have hrenders : Renders 1 (.array [.text "leave"]) := by
      apply renders_array
      intro v hv
      rw [List.mem_singleton.1 hv]
      exact renders_text 0 _
    exact hrenders.textOf (by decide)
  have htext : TextOf (.text "leave") (Value.text "leave").render :=
    (renders_text 0 "leave").textOf (by decide)
  have hasks : InObject (.direct "bob" "hi \"Bob\"") scatteredMembers := by
    refine ⟨rfl, fun e he => ?_⟩
    rcases List.mem_cons.1 he with rfl | he
    · rfl
    · rw [List.mem_singleton.1 he]
      rfl
  have hcomma : ¬Blank ",".toList := fun h => absurd (h ',' (by decide)) (by decide)
  obtain ⟨-, hobjects, harrays, hothers, htrailing⟩ := parse_grammar
  refine ⟨⟨textOf_scattered, hasks, ((hobjects _ _ textOf_scattered).1 _).2 hasks⟩,
    ⟨hcomma, htrailing _ _ _ textOf_scattered hcomma⟩,
    ⟨rfl, ((harrays _ _ harray).1 .leave).2 rfl⟩, hothers _ (fun ms h => ?_) fun vs h => ?_⟩
  · cases htext.unique h
  · cases htext.unique h

/-- The order of an object's members does not matter, nor the blanks between them. -/
theorem parse_perm {ms ms' : List (String × Value)} {text text' : String} (h : ms.Perm ms')
    (htext : TextOf (.object ms) text) (htext' : TextOf (.object ms') text') (r : Request) :
    parse text = .ok r ↔ parse text' = .ok r := by
  have hunder : ∀ name v, under ms name = [v] ↔ under ms' name = [v] := by
    intro name v
    have hperm : (under ms name).Perm (under ms' name) := (h.filter _).map _
    constructor
    · intro hone
      rw [hone] at hperm
      exact List.perm_singleton.1 hperm.symm
    · intro hone
      rw [hone] at hperm
      exact List.perm_singleton.1 hperm
  have hmembers : r.InObject ms ↔ r.InObject ms' := by
    rw [InObject, InObject, hunder]
    simp only [hunder]
  rw [parse_eq_ok_iff, parse_eq_ok_iff]
  constructor
  · rintro ⟨v, hv, hasks⟩
    rw [hv.unique htext] at hasks
    exact ⟨_, htext', hmembers.1 hasks⟩
  · rintro ⟨v, hv, hasks⟩
    rw [hv.unique htext'] at hasks
    exact ⟨_, htext, hmembers.2 hasks⟩

end Request

end ChatServer
