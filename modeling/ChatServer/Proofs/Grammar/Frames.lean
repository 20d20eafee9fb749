import ChatServer.Message.Frame
import ChatServer.Proofs.Grammar.Rendered
import ChatServer.Proofs.Grammar.Tagged
import ChatServer.Proofs.RoundTrip.Normal

/-!
What a frame says. The text of a frame holds one object, and no other value: the type of the frame
and then its fields. Whatever strings are put into the fields, they stay whole and within their
members, so frames that say different things are never written alike.
-/

namespace ChatServer

open Json

theorem ChatRecord.renders_toValue (r : ChatRecord) : Renders 1 r.toValue := by
  apply renders_object
  intro m hm
  simp only [List.mem_cons, List.not_mem_nil, or_false] at hm
  rcases hm with rfl | rfl | rfl | rfl <;> exact renders_text 0 _

theorem DirectRecord.renders_toValue (r : DirectRecord) : Renders 1 r.toValue := by
  apply renders_object
  intro m hm
  simp only [List.mem_cons, List.not_mem_nil, or_false] at hm
  rcases hm with rfl | rfl | rfl | rfl
  · exact renders_text 0 _
  · exact renders_text 0 _
  · exact renders_text 0 _
  · exact renders_flag 0 _

theorem ErrorCode.name_injective {c c' : ErrorCode} (h : c.name = c'.name) : c = c' := by
  cases c <;> cases c' <;> first | rfl | simp [ErrorCode.name] at h

namespace Frame

/-- Every moment that a frame tells exists. -/
def IsDated : Frame → Prop
  | .history _ messages => ∀ r ∈ messages, r.sentAt.IsValid
  | _ => True

/-- A frame that tells what is readable of the log is dated. -/
theorem isDated_history (room : String) (entries : List String) :
    (Frame.history room (readable ChatRecord.parse entries)).IsDated := by
  intro r hr
  obtain ⟨entry, -, hentry⟩ := List.mem_filterMap.1 hr
  cases hparse : ChatRecord.parse entry with
  | error e =>
      rw [hparse] at hentry
      cases hentry
  | ok r' =>
      rw [hparse] at hentry
      cases hentry
      exact ChatRecord.isValid_of_parse hparse

theorem renders_members (f : Frame) : ∀ m ∈ f.members, Renders 2 m.2 := by
  have htexts : ∀ ms : List (String × Value), (∀ m ∈ ms, ∃ s, m.2 = .text s) →
      ∀ m ∈ ms, Renders 2 m.2 := by
    intro ms h m hm
    obtain ⟨s, hs⟩ := h m hm
    rw [hs]
    exact renders_text 2 s
  cases f with
  | history room messages =>
      intro m hm
      simp only [members, List.mem_cons, List.not_mem_nil, or_false] at hm
      rcases hm with rfl | rfl
      · exact renders_text 2 _
      · apply renders_array
        intro v hv
        obtain ⟨r, -, rfl⟩ := List.mem_map.1 hv
        exact r.renders_toValue
  | directMessages sender receiver messages =>
      intro m hm
      simp only [members, List.mem_cons, List.not_mem_nil, or_false] at hm
      rcases hm with rfl | rfl | rfl
      · exact renders_text 2 _
      · exact renders_text 2 _
      · apply renders_array
        intro v hv
        obtain ⟨r, -, rfl⟩ := List.mem_map.1 hv
        exact r.renders_toValue
  | _ => exact htexts _ (by simp [members])

/-- The text of a frame holds the frame's object. -/
theorem textOf_json (f : Frame) :
    TextOf (.object (("type", .text f.typeName) :: f.members)) f.json := by
  have hrenders : Renders 3 f.toValue := by
    apply renders_object
    intro m hm
    rcases List.mem_cons.1 hm with rfl | hm
    · exact renders_text 2 f.typeName
    · exact f.renders_members m hm
  exact hrenders.textOf (by decide)

theorem name_ne_type (f : Frame) : ∀ m ∈ f.members, m.1 ≠ "type" := by
  cases f <;> simp [members]

/-- Frames of one type have members of the same names, in the same order. -/
theorem names_eq {f f' : Frame} (h : f.typeName = f'.typeName) :
    f.members.map Prod.fst = f'.members.map Prod.fst := by
  cases f <;> cases f' <;> first | rfl | simp [typeName] at h

/-- Messages whose values are the same are the same, as they read back from the values. -/
theorem eq_of_map_toValue {rs rs' : List ChatRecord} (h : ∀ r ∈ rs, r.sentAt.IsValid)
    (h' : ∀ r ∈ rs', r.sentAt.IsValid)
    (heq : rs.map ChatRecord.toValue = rs'.map ChatRecord.toValue) : rs = rs' := by
  have hjson : rs.map ChatRecord.json = rs'.map ChatRecord.json := by
    have hrender := congrArg (List.map Value.render) heq
    rw [List.map_map, List.map_map] at hrender
    exact hrender
  rw [← ChatRecord.readable_map_json h, hjson, ChatRecord.readable_map_json h']

theorem eq_of_map_toValue_direct {rs rs' : List DirectRecord}
    (heq : rs.map DirectRecord.toValue = rs'.map DirectRecord.toValue) : rs = rs' := by
  have hjson : rs.map DirectRecord.json = rs'.map DirectRecord.json := by
    have hrender := congrArg (List.map Value.render) heq
    rw [List.map_map, List.map_map] at hrender
    exact hrender
  have hread : ∀ rs, readable DirectRecord.parse (rs.map DirectRecord.json) = rs :=
    fun rs => readable_map fun r _ => DirectRecord.parse_json r
  rw [← hread rs, hjson, hread]

/-- Type and fields make the frame. -/
theorem eq_of_members {f f' : Frame} (hf : f.IsDated) (hf' : f'.IsDated)
    (htype : f.typeName = f'.typeName) (hmembers : f.members = f'.members) : f = f' := by
  -- frames of two types differ in the name of the type
  cases f <;> cases f' <;> first
    | (exfalso; simp [typeName] at htype; done)
    | simp only [members, List.cons.injEq, Prod.mk.injEq, true_and, and_true,
        Value.text.injEq, Value.array.injEq] at hmembers
  case history.history =>
    obtain ⟨rfl, hmessages⟩ := hmembers
    rw [eq_of_map_toValue hf hf' hmessages]
  case directMessages.directMessages =>
    obtain ⟨rfl, rfl, hmessages⟩ := hmembers
    rw [eq_of_map_toValue_direct hmessages]
  case error.error =>
    obtain ⟨hcode, rfl⟩ := hmembers
    rw [ErrorCode.name_injective hcode]
  all_goals simp [hmembers]

/-- A frame says what it means. Its text is read as one object and as nothing else, whose members
are the type and the fields in their order, each with its own content; records are in it as what
their own texts hold. Whatever the strings are, the type stands there once and the names of the
members depend on the type alone; and frames written alike are the same. -/
theorem json_faithful :
    (∀ f : Frame,
      Json.parse f.json = .ok (.object (("type", .text f.typeName) :: f.members)) ∧
      ∀ v, TextOf v f.json → v = .object (("type", .text f.typeName) :: f.members)) ∧
    (∀ r : ChatRecord, Json.parse r.json = .ok r.toValue) ∧
    (∀ r : DirectRecord, Json.parse r.json = .ok r.toValue) ∧
    (∀ (f : Frame) ms, Json.parse f.json = .ok (.object ms) →
      under ms "type" = [.text f.typeName] ∧
      ∀ (f' : Frame) ms', Json.parse f'.json = .ok (.object ms') → f'.typeName = f.typeName →
        ms'.map Prod.fst = ms.map Prod.fst) ∧
    ∀ f f' : Frame, f.IsDated → f'.IsDated → f.json = f'.json → f = f' := by
  have hparse : ∀ f : Frame,
      Json.parse f.json = .ok (.object (("type", .text f.typeName) :: f.members)) :=
    fun f => parse_eq_ok_iff.2 f.textOf_json
  have hmembers : ∀ {f : Frame} {ms}, Json.parse f.json = .ok (.object ms) →
      ms = ("type", .text f.typeName) :: f.members := by
    intro f ms h
    rw [hparse f] at h
    exact (Value.object.inj (Except.ok.inj h)).symm
  refine ⟨fun f => ⟨hparse f, fun v hv => hv.unique f.textOf_json⟩,
    fun r => parse_eq_ok_iff.2 (r.renders_toValue.textOf (by decide)),
    fun r => parse_eq_ok_iff.2 (r.renders_toValue.textOf (by decide)),
    fun f ms h => ⟨?_, fun f' ms' h' htype => ?_⟩, fun f f' hf hf' heq => ?_⟩
  · have hnone : under f.members "type" = [] := by
      rw [under, List.filter_eq_nil_iff.2 fun m hm => by simpa using f.name_ne_type m hm]
      rfl
    rw [hmembers h, under_cons_of_eq rfl, hnone]
  · rw [hmembers h, hmembers h', List.map_cons, List.map_cons, names_eq htype]
  · have hvalue := hparse f
    rw [heq, hparse f'] at hvalue
    obtain ⟨htype, hrest⟩ := List.cons.inj (Value.object.inj (Except.ok.inj hvalue))
    exact eq_of_members hf hf' (Value.text.inj (Prod.mk.inj htype).2).symm hrest.symm

/-- A payload that tries to leave its string and to begin a frame of another type. -/
def hostile : Frame :=
  .message "r" "\",\"type\":\"connected\",\"connection_id\":\"\\"

/-- A message that tries to end the list it stands in. -/
def crowded : Frame :=
  .history "r" [⟨⟨"a\""⟩, ⟨"r"⟩, "\"\x7d]\x7d", ⟨2024, 2, 29, 12, 30, 0, 0⟩⟩]

theorem json_hostile :
    Json.parse hostile.json = .ok (.object [("type", .text "message"), ("room_id", .text "r"),
      ("payload", .text "\",\"type\":\"connected\",\"connection_id\":\"\\")]) ∧
    hostile.IsDated ∧ crowded.IsDated ∧ hostile.json ≠ crowded.json := by
  obtain ⟨hparse, -, -, -, hinjective⟩ := json_faithful
  have hcrowded : crowded.IsDated := by
    intro r hr
    rw [List.mem_singleton.1 hr]
    decide
  refine ⟨(hparse hostile).1, trivial, hcrowded, fun h => ?_⟩
  cases hinjective hostile crowded trivial hcrowded h

end Frame

end ChatServer
