import ChatServer.Proofs.Grammar.Values

/-!
The written form of a value is one of its texts, so a value reads back from it. The written form of
an array or an object is put together from those of its parts, and so is the argument; numbers have
no part in it.
-/

namespace ChatServer.Json

theorem stringText_stringChars (s : String) : StringText s (stringChars s) := by
  obtain ⟨w, hw, heq⟩ := readString_eq_ok.1 (readString_escape s [])
  rw [List.append_nil] at heq
  exact ⟨w, hw, congrArg ('"' :: ·) heq⟩

/-- A value, nested no deeper than `n`, whose written form is one of its texts. -/
def Renders (n : Nat) (v : Value) : Prop := ValueText v v.chars ∧ v.height ≤ n

theorem renders_text (n : Nat) (s : String) : Renders n (.text s) :=
  ⟨.text (stringText_stringChars s), Nat.zero_le n⟩

theorem renders_flag (n : Nat) (b : Bool) : Renders n (.flag b) := by
  cases b with
  | false => exact ⟨.no, Nat.zero_le n⟩
  | true => exact ⟨.yes, Nat.zero_le n⟩

theorem lead_nil : Lead true [] := blank_nil

theorem lead_comma : Lead false [','] := ⟨[], [], blank_nil, blank_nil, rfl⟩

theorem itemsText_itemsChars {n : Nat} {v : Value} {vs : List Value}
    (h : ∀ x ∈ v :: vs, Renders n x) {first : Bool} {l : List Char} (hl : Lead first l) :
    ItemsText first (v :: vs) (l ++ (itemsChars (v :: vs) ++ [']'])) := by
  induction vs generalizing v first l with
  | nil =>
      have hend : ItemsText false [] [']'] := ⟨[], blank_nil, rfl⟩
      exact ⟨l, v.chars, [']'], hl, (h v List.mem_cons_self).1, hend, rfl⟩
  | cons v' vs ih =>
      have hrest := ih (fun x hx => h x (List.mem_cons_of_mem v hx)) lead_comma
      refine ⟨l, v.chars, _, hl, (h v List.mem_cons_self).1, hrest, ?_⟩
      simp [itemsChars]

theorem membersText_membersChars {n : Nat} {m : String × Value} {ms : List (String × Value)}
    (h : ∀ x ∈ m :: ms, Renders n x.2) {first : Bool} {l : List Char} (hl : Lead first l) :
    MembersText first (m :: ms) (l ++ (membersChars (m :: ms) ++ ['\x7d'])) := by
  induction ms generalizing m first l with
  | nil =>
      obtain ⟨k, v⟩ := m
      have hend : MembersText false [] ['\x7d'] := ⟨[], blank_nil, rfl⟩
      refine ⟨l, stringChars k, [], [], v.chars, ['\x7d'], hl, stringText_stringChars k,
        blank_nil, blank_nil, (h (k, v) List.mem_cons_self).1, hend, ?_⟩
      simp [membersChars]
  | cons m' ms ih =>
      obtain ⟨k, v⟩ := m
      have hrest := ih (fun x hx => h x (List.mem_cons_of_mem (k, v) hx)) lead_comma
      refine ⟨l, stringChars k, [], [], v.chars, _, hl, stringText_stringChars k, blank_nil,
        blank_nil, (h (k, v) List.mem_cons_self).1, hrest, ?_⟩
      simp [membersChars]

theorem itemsHeight_le {n : Nat} {vs : List Value} (h : ∀ v ∈ vs, v.height ≤ n) :
    itemsHeight vs ≤ n := by
  induction vs with
  | nil => exact Nat.zero_le n
  | cons v vs ih =>
      rw [itemsHeight]
      exact Nat.max_le.2 ⟨h v List.mem_cons_self, ih fun x hx => h x (List.mem_cons_of_mem v hx)⟩

theorem membersHeight_le {n : Nat} {ms : List (String × Value)} (h : ∀ m ∈ ms, m.2.height ≤ n) :
    membersHeight ms ≤ n := by
  induction ms with
  | nil => exact Nat.zero_le n
  | cons m ms ih =>
      rw [membersHeight]
      exact Nat.max_le.2 ⟨h m List.mem_cons_self, ih fun x hx => h x (List.mem_cons_of_mem m hx)⟩

theorem renders_array {n : Nat} {vs : List Value} (h : ∀ v ∈ vs, Renders n v) :
    Renders (n + 1) (.array vs) := by
  constructor
  · cases vs with
    | nil => exact ⟨[']'], ⟨[], blank_nil, rfl⟩, rfl⟩
    | cons v vs => exact ⟨_, itemsText_itemsChars h lead_nil, rfl⟩
  · exact Nat.succ_le_succ (itemsHeight_le fun v hv => (h v hv).2)

theorem renders_object {n : Nat} {ms : List (String × Value)} (h : ∀ m ∈ ms, Renders n m.2) :
    Renders (n + 1) (.object ms) := by
  constructor
  · cases ms with
    | nil => exact ⟨['\x7d'], ⟨[], blank_nil, rfl⟩, rfl⟩
    | cons m ms => exact ⟨_, membersText_membersChars h lead_nil, rfl⟩
  · exact Nat.succ_le_succ (membersHeight_le fun m hm => (h m hm).2)

theorem Renders.textOf {n : Nat} {v : Value} (h : Renders n v) (hn : n < depthLimit) :
    TextOf v v.render := by
  refine ⟨Nat.lt_of_le_of_lt h.2 hn, [], v.chars, [], blank_nil, h.1, blank_nil, ?_⟩
  rw [Value.render, String.toList_ofList, List.append_nil]
  rfl

end ChatServer.Json
