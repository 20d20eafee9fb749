import ChatServer.Number.Bounds
import ChatServer.Table

/-!
Bounded buffers between one sender and one receiver. The sender never waits: what does not fit
is not delivered. Either end may go away, and what is buffered when the sender goes can still be
received.
-/

namespace ChatServer

/-- A bounded buffer and which of its two ends are still held. -/
structure Channel (α : Type) where
  capacity : Nat
  /-- What has been sent and not yet received, oldest first. -/
  buffer : List α
  sending : Bool
  receiving : Bool
  deriving DecidableEq, Inhabited

inductive Delivery
  | accepted
  | full
  | gone
  deriving DecidableEq

inductive Received (α : Type)
  | item (a : α)
  /-- Nothing is buffered but more may come. -/
  | empty
  /-- Nothing is buffered and the sender is gone. -/
  | disconnected
  deriving DecidableEq

namespace Channel

variable {α : Type}

def maxCapacity : Nat := naturalEnd / 8 - 1

def isCapacity (n : Nat) : Bool := 0 < n && n ≤ maxCapacity

def new (capacity : Nat) : Channel α := ⟨capacity, [], true, true⟩

/-- A lost receiver is noticed before a full buffer. -/
def delivery (c : Channel α) : Delivery :=
  if !c.receiving then .gone else if c.capacity ≤ c.buffer.length then .full else .accepted

def offer (c : Channel α) (a : α) : Channel α :=
  if c.delivery = .accepted then { c with buffer := c.buffer ++ [a] } else c

def receive (c : Channel α) : Received α × Channel α :=
  match c.buffer with
  | a :: rest => (.item a, { c with buffer := rest })
  | [] => (if c.sending then .empty else .disconnected, c)

def dropSender (c : Channel α) : Channel α := { c with sending := false }

/-- The receiver goes away and what is buffered is lost. -/
def dropReceiver (c : Channel α) : Channel α := { c with receiving := false, buffer := [] }

@[simp] theorem capacity_offer (c : Channel α) (a : α) : (c.offer a).capacity = c.capacity := by
  unfold offer
  split <;> rfl

@[simp] theorem sending_offer (c : Channel α) (a : α) : (c.offer a).sending = c.sending := by
  unfold offer
  split <;> rfl

@[simp] theorem receiving_offer (c : Channel α) (a : α) :
    (c.offer a).receiving = c.receiving := by
  unfold offer
  split <;> rfl

@[simp] theorem capacity_receive (c : Channel α) : c.receive.2.capacity = c.capacity := by
  unfold receive
  split <;> rfl

@[simp] theorem sending_receive (c : Channel α) : c.receive.2.sending = c.sending := by
  unfold receive
  split <;> rfl

@[simp] theorem receiving_receive (c : Channel α) : c.receive.2.receiving = c.receiving := by
  unfold receive
  split <;> rfl

theorem buffer_offer (c : Channel α) (a : α) :
    (c.offer a).buffer = if c.delivery = .accepted then c.buffer ++ [a] else c.buffer := by
  unfold offer
  split <;> rfl

theorem delivery_eq_full_iff {c : Channel α} :
    c.delivery = .full ↔ c.receiving = true ∧ c.capacity ≤ c.buffer.length := by
  unfold delivery
  cases c.receiving <;> simp

theorem delivery_eq_accepted_iff {c : Channel α} :
    c.delivery = .accepted ↔ c.receiving = true ∧ c.buffer.length < c.capacity := by
  unfold delivery
  cases c.receiving <;> simp

theorem delivery_eq_gone_iff {c : Channel α} : c.delivery = .gone ↔ c.receiving = false := by
  unfold delivery
  cases c.receiving with
  | true =>
      simp only [Bool.not_true, Bool.false_eq_true, if_false]
      split <;> simp
  | false => simp

theorem receive_eq_empty_iff {c : Channel α} :
    c.receive.1 = .empty ↔ c.buffer = [] ∧ c.sending = true := by
  unfold receive
  cases c.buffer <;> cases c.sending <;> simp

/-- The receiver finds the end when nothing waits and nothing can come. -/
theorem receive_eq_disconnected_iff {c : Channel α} :
    c.receive.1 = .disconnected ↔ c.buffer = [] ∧ c.sending = false := by
  unfold receive
  cases c.buffer <;> cases c.sending <;> simp

theorem length_buffer_offer_le (c : Channel α) (a : α) (h : c.buffer.length ≤ c.capacity) :
    (c.offer a).buffer.length ≤ c.capacity := by
  unfold offer delivery
  grind

theorem length_buffer_receive_le (c : Channel α) (h : c.buffer.length ≤ c.capacity) :
    c.receive.2.buffer.length ≤ c.capacity := by
  unfold receive
  cases hbuffer : c.buffer with
  | nil => exact h
  | cons a rest =>
      rw [hbuffer, List.length_cons] at h
      exact Nat.le_of_succ_le h

/-- There is room for something, and no more is buffered than there is room for. -/
structure Bounded (c : Channel α) : Prop where
  room : 0 < c.capacity
  fits : c.buffer.length ≤ c.capacity

theorem bounded_new {n : Nat} (h : isCapacity n = true) : (new n : Channel α).Bounded := by
  simp only [isCapacity, Bool.and_eq_true, decide_eq_true_eq] at h
  exact ⟨h.1, Nat.zero_le _⟩

namespace Bounded

variable {c : Channel α}

theorem offer (h : c.Bounded) (a : α) : (c.offer a).Bounded :=
  ⟨by simpa using h.room, by simpa using length_buffer_offer_le c a h.fits⟩

theorem receive (h : c.Bounded) : c.receive.2.Bounded :=
  ⟨by simpa using h.room, by simpa using length_buffer_receive_le c h.fits⟩

theorem dropSender (h : c.Bounded) : c.dropSender.Bounded := ⟨h.room, h.fits⟩

theorem dropReceiver (h : c.Bounded) : c.dropReceiver.Bounded := ⟨h.room, Nat.zero_le _⟩

/-- Room for one more is made by taking one. -/
theorem delivery_receive (h : c.Bounded) (hfull : c.delivery = .full) :
    c.receive.2.delivery = .accepted := by
  obtain ⟨hreceiving, hlength⟩ := delivery_eq_full_iff.1 hfull
  obtain ⟨hroom, hfits⟩ := h
  unfold delivery Channel.receive
  cases hbuffer : c.buffer with
  | nil =>
      rw [hbuffer, List.length_nil] at hlength
      omega
  | cons a rest =>
      rw [hbuffer, List.length_cons] at hfits
      simp only [hreceiving, Bool.not_true, Bool.false_eq_true, if_false, Nat.not_le.2 hfits]

end Bounded

end Channel

end ChatServer
