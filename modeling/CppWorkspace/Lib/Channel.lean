import Mathlib

/-!
Bounded FIFO channels. A value enters at the end while there is room and leaves
at the front; a closed channel takes no more values and hands out the ones it
still holds. An operation that cannot be done gives `none`: its process waits
until it can be. A rendezvous, for a channel without room, is a sender and a
receiver of an empty channel meeting in one step.
-/

namespace CppWorkspace.Lib

structure Channel (α : Type*) where
  capacity : Nat
  buffer : List α
  closed : Bool
  fits : buffer.length ≤ capacity

namespace Channel

variable {α : Type*}

/-- An open channel with nothing in it. -/
def make (capacity : Nat) : Channel α := ⟨capacity, [], false, Nat.zero_le _⟩

def put (c : Channel α) (v : α) : Option (Channel α) :=
  if h : c.closed = false ∧ c.buffer.length < c.capacity then
    some { c with
      buffer := c.buffer ++ [v]
      fits := by
        rw [List.length_append]
        exact h.2 }
  else none

def take (c : Channel α) : Option (α × Channel α) :=
  match h : c.buffer with
  | [] => none
  | v :: rest => some (v, { c with
      buffer := rest
      fits := by
        have hfits := c.fits
        rw [h, List.length_cons] at hfits
        omega })

def close (c : Channel α) : Channel α := { c with closed := true }

/-- No value is left and none will come. -/
def Exhausted (c : Channel α) : Prop := c.closed = true ∧ c.buffer = []

/-- A sender and a receiver can meet. -/
def Meets (c : Channel α) : Prop := c.closed = false ∧ c.buffer = []

@[simp] theorem make_buffer (capacity : Nat) : (make capacity : Channel α).buffer = [] := rfl
@[simp] theorem make_closed (capacity : Nat) : (make capacity : Channel α).closed = false := rfl
@[simp] theorem make_capacity (capacity : Nat) : (make capacity : Channel α).capacity = capacity :=
  rfl
@[simp] theorem close_buffer (c : Channel α) : c.close.buffer = c.buffer := rfl
@[simp] theorem close_closed (c : Channel α) : c.close.closed = true := rfl
@[simp] theorem close_capacity (c : Channel α) : c.close.capacity = c.capacity := rfl

theorem put_spec {c c' : Channel α} {v : α} (h : c.put v = some c') :
    c.closed = false ∧ c.buffer.length < c.capacity ∧ c'.buffer = c.buffer ++ [v] ∧
      c'.closed = false ∧ c'.capacity = c.capacity := by
  unfold put at h
  split at h
  · next hroom =>
    cases h
    exact ⟨hroom.1, hroom.2, rfl, hroom.1, rfl⟩
  · cases h

theorem take_spec {c c' : Channel α} {v : α} (h : c.take = some (v, c')) :
    c.buffer = v :: c'.buffer ∧ c'.closed = c.closed ∧ c'.capacity = c.capacity := by
  unfold take at h
  split at h
  · cases h
  · next hbuffer =>
    cases h
    exact ⟨hbuffer, rfl, rfl⟩

/-- A sender of an open channel with room need not wait. -/
theorem put_of_room {c : Channel α} (hopen : c.closed = false)
    (hroom : c.buffer.length < c.capacity) (v : α) : ∃ c', c.put v = some c' := by
  unfold put
  rw [dif_pos ⟨hopen, hroom⟩]
  exact ⟨_, rfl⟩

/-- A receiver of a channel that holds a value need not wait. -/
theorem take_of_ne_nil {c : Channel α} (h : c.buffer ≠ []) : ∃ v c', c.take = some (v, c') := by
  unfold take
  split
  · next hnil => exact absurd hnil h
  · exact ⟨_, _, rfl⟩

theorem not_exhausted_of_open {c : Channel α} (hopen : c.closed = false) : ¬ c.Exhausted := by
  rintro ⟨hclosed, -⟩
  cases hopen.symm.trans hclosed

theorem not_exhausted_of_take {c c' : Channel α} {v : α} (htake : c.take = some (v, c')) :
    ¬ c.Exhausted := by
  rintro ⟨-, hnil⟩
  cases hnil.symm.trans (take_spec htake).1

/-- What a receiver finds: a value, the end, or the need of a sender. -/
theorem receiver_cases (c : Channel α) :
    (∃ v c', c.take = some (v, c')) ∨ c.Exhausted ∨ c.Meets := by
  cases hbuffer : c.buffer with
  | cons v rest =>
      refine Or.inl (take_of_ne_nil ?_)
      rw [hbuffer]
      exact List.cons_ne_nil v rest
  | nil =>
      cases hclosed : c.closed with
      | true => exact Or.inr (Or.inl ⟨hclosed, hbuffer⟩)
      | false => exact Or.inr (Or.inr ⟨hclosed, hbuffer⟩)

end Channel

end CppWorkspace.Lib
