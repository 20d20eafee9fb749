/-!
Finite maps as lists of entries in order of first insertion. That no key stands twice is part
of the type, so the number of entries is the number of keys. Each operation is described by its
effect on `get?`.
-/

namespace ChatServer

/-- The value of the first entry with key `k`. -/
def valueIn {α β : Type} [DecidableEq α] : List (α × β) → α → Option β
  | [], _ => none
  | (k', v) :: rest, k => if k' = k then some v else valueIn rest k

/-- The entries after `k` has been given the value `v`, at its old place if it has one. -/
def putIn {α β : Type} [DecidableEq α] : List (α × β) → α → β → List (α × β)
  | [], k, v => [(k, v)]
  | (k', v') :: rest, k, v => if k' = k then (k, v) :: rest else (k', v') :: putIn rest k v

/-- A finite map; no key stands twice. -/
structure Table (α β : Type) where
  entries : List (α × β)
  nodup : (entries.map Prod.fst).Nodup

theorem mem_keys_putIn {α β : Type} [DecidableEq α] (es : List (α × β)) (k x : α) (v : β) :
    x ∈ (putIn es k v).map Prod.fst ↔ x = k ∨ x ∈ es.map Prod.fst := by
  induction es with
  | nil => simp [putIn]
  | cons e es ih =>
    obtain ⟨k', v'⟩ := e
    simp only [putIn]
    split
    case isTrue h =>
      subst h
      simp
    case isFalse =>
      simp only [List.map_cons, List.mem_cons, ih]
      constructor
      · rintro (h | h | h) <;> simp [h]
      · rintro (h | h | h) <;> simp [h]

theorem nodup_putIn {α β : Type} [DecidableEq α] {es : List (α × β)}
    (h : (es.map Prod.fst).Nodup) (k : α) (v : β) : ((putIn es k v).map Prod.fst).Nodup := by
  induction es with
  | nil => simp [putIn]
  | cons e es ih =>
    obtain ⟨k', v'⟩ := e
    simp only [List.map_cons, List.nodup_cons] at h
    simp only [putIn]
    split
    case isTrue hk =>
      subst hk
      simpa using h
    case isFalse hk =>
      simp only [List.map_cons, List.nodup_cons, mem_keys_putIn]
      exact ⟨fun hc => hc.elim hk h.1, ih h.2⟩

theorem nodup_filter_keys {α β : Type} {es : List (α × β)} (h : (es.map Prod.fst).Nodup)
    (p : α × β → Bool) : ((es.filter p).map Prod.fst).Nodup :=
  List.Nodup.sublist (List.Sublist.map Prod.fst List.filter_sublist) h

namespace Table

variable {α β : Type}

instance [DecidableEq α] [DecidableEq β] : DecidableEq (Table α β) := fun s t =>
  if h : s.entries = t.entries then
    isTrue (by cases s; cases t; simp only at h; subst h; rfl)
  else
    isFalse (fun hst => h (congrArg entries hst))

def empty : Table α β := ⟨[], List.nodup_nil⟩

instance : Inhabited (Table α β) := ⟨empty⟩

/-- The keys in order of first insertion. -/
def keys (t : Table α β) : List α := t.entries.map Prod.fst

def size (t : Table α β) : Nat := t.entries.length

variable [DecidableEq α]

def get? (t : Table α β) (k : α) : Option β := valueIn t.entries k

def contains (t : Table α β) (k : α) : Bool := (t.get? k).isSome

/-- Gives `k` the value `v`, whether or not it had one. -/
def put (t : Table α β) (k : α) (v : β) : Table α β :=
  ⟨putIn t.entries k v, nodup_putIn t.nodup k v⟩

/-- Gives `k` the value `v` unless it has one already. -/
def putNew (t : Table α β) (k : α) (v : β) : Table α β :=
  if t.contains k then t else t.put k v

def erase (t : Table α β) (k : α) : Table α β :=
  ⟨t.entries.filter (fun e => e.1 ≠ k), nodup_filter_keys t.nodup _⟩

def filter (t : Table α β) (p : α → β → Bool) : Table α β :=
  ⟨t.entries.filter (fun e => p e.1 e.2), nodup_filter_keys t.nodup _⟩

/-- Applies `f` to the value of `k`, if it has one. -/
def modify (t : Table α β) (k : α) (f : β → β) : Table α β :=
  match t.get? k with
  | none => t
  | some v => t.put k (f v)

theorem valueIn_putIn (es : List (α × β)) (k x : α) (v : β) :
    valueIn (putIn es k v) x = if x = k then some v else valueIn es x := by
  induction es with
  | nil => simp [putIn, valueIn, eq_comm]
  | cons e es ih => grind [putIn, valueIn]

theorem valueIn_filter_ne (es : List (α × β)) (k x : α) :
    valueIn (es.filter (fun e => e.1 ≠ k)) x = if x = k then none else valueIn es x := by
  induction es with
  | nil => simp [valueIn]
  | cons e es ih => grind [valueIn]

theorem valueIn_eq_none {es : List (α × β)} {k : α} (h : k ∉ es.map Prod.fst) :
    valueIn es k = none := by
  induction es with
  | nil => rfl
  | cons e es ih => grind [valueIn]

theorem valueIn_filter {es : List (α × β)} (h : (es.map Prod.fst).Nodup) (p : α → β → Bool)
    (x : α) : valueIn (es.filter (fun e => p e.1 e.2)) x = (valueIn es x).filter (p x) := by
  induction es with
  | nil => rfl
  | cons e es ih =>
    obtain ⟨k, v⟩ := e
    simp only [List.map_cons, List.nodup_cons] at h
    have := valueIn_eq_none h.1
    grind [valueIn, Option.filter]

@[simp] theorem get?_empty (k : α) : (empty : Table α β).get? k = none := rfl

@[simp] theorem get?_put (t : Table α β) (k x : α) (v : β) :
    (t.put k v).get? x = if x = k then some v else t.get? x :=
  valueIn_putIn t.entries k x v

@[simp] theorem get?_erase (t : Table α β) (k x : α) :
    (t.erase k).get? x = if x = k then none else t.get? x :=
  valueIn_filter_ne t.entries k x

@[simp] theorem get?_filter (t : Table α β) (p : α → β → Bool) (x : α) :
    (t.filter p).get? x = (t.get? x).filter (p x) :=
  valueIn_filter t.nodup p x

@[simp] theorem get?_modify (t : Table α β) (k x : α) (f : β → β) :
    (t.modify k f).get? x = if x = k then (t.get? x).map f else t.get? x := by
  unfold modify
  cases h : t.get? k with
  | none =>
      by_cases hx : x = k
      · simp [hx, h]
      · simp [hx]
  | some v =>
      by_cases hx : x = k
      · simp [hx, h]
      · simp [hx]

theorem get?_putNew (t : Table α β) (k x : α) (v : β) :
    (t.putNew k v).get? x = if x = k then some ((t.get? k).getD v) else t.get? x := by
  unfold putNew contains
  cases h : t.get? k with
  | none => simp
  | some w =>
    by_cases hx : x = k
    · simp [hx, h]
    · simp [hx]

end Table

end ChatServer
