import Mathlib

/-!
One direction of a stream connection: bytes come out in the order in which they went
in, in pieces of any size, and no more of them are underway than there is room for.
-/

namespace CppWorkspace.Lib

structure ByteStream (α : Type*) where
  capacity : ℕ
  buffer : List α
  ended : Bool
  fits : buffer.length ≤ capacity

namespace ByteStream

variable {α : Type*}

def make (capacity : ℕ) : ByteStream α := ⟨capacity, [], false, Nat.zero_le _⟩

/-- Some bytes go in, when there is room for all of them. -/
def send (c : ByteStream α) (bytes : List α) : Option (ByteStream α) :=
  if h : c.ended = false ∧ c.buffer.length + bytes.length ≤ c.capacity then
    some { c with
      buffer := c.buffer ++ bytes
      fits := by
        rw [List.length_append]
        exact h.2 }
  else none

/-- That many bytes come out, when there are as many. -/
def receive (c : ByteStream α) (count : ℕ) : Option (List α × ByteStream α) :=
  if count ≤ c.buffer.length then
    some (c.buffer.take count, { c with
      buffer := c.buffer.drop count
      fits := by
        rw [List.length_drop]
        exact (Nat.sub_le _ _).trans c.fits })
  else none

/-- No more bytes will go in. -/
def shutdown (c : ByteStream α) : ByteStream α := { c with ended := true }

@[simp] theorem make_buffer (capacity : ℕ) : (make capacity : ByteStream α).buffer = [] := rfl
@[simp] theorem make_ended (capacity : ℕ) : (make capacity : ByteStream α).ended = false := rfl
@[simp] theorem make_capacity (capacity : ℕ) : (make capacity : ByteStream α).capacity = capacity :=
  rfl
@[simp] theorem shutdown_buffer (c : ByteStream α) : c.shutdown.buffer = c.buffer := rfl
@[simp] theorem shutdown_ended (c : ByteStream α) : c.shutdown.ended = true := rfl
@[simp] theorem shutdown_capacity (c : ByteStream α) : c.shutdown.capacity = c.capacity := rfl

theorem send_spec {c c' : ByteStream α} {bytes : List α} (h : c.send bytes = some c') :
    c'.buffer = c.buffer ++ bytes ∧ c'.ended = c.ended ∧ c'.capacity = c.capacity := by
  unfold send at h
  split at h
  · cases h
    exact ⟨rfl, rfl, rfl⟩
  · cases h

theorem open_of_send {c c' : ByteStream α} {bytes : List α} (h : c.send bytes = some c') :
    c.ended = false := by
  unfold send at h
  split at h
  · next hroom => exact hroom.1
  · cases h

theorem receive_spec {c c' : ByteStream α} {count : ℕ} {bytes : List α}
    (h : c.receive count = some (bytes, c')) :
    c.buffer = bytes ++ c'.buffer ∧ bytes.length = count ∧ c'.ended = c.ended ∧
      c'.capacity = c.capacity := by
  unfold receive at h
  split at h
  · next hle =>
    cases h
    exact ⟨(List.take_append_drop count c.buffer).symm, List.length_take_of_le hle, rfl, rfl⟩
  · cases h

theorem send_of_room {c : ByteStream α} (hopen : c.ended = false) {bytes : List α}
    (hroom : c.buffer.length + bytes.length ≤ c.capacity) : ∃ c', c.send bytes = some c' := by
  unfold send
  rw [dif_pos ⟨hopen, hroom⟩]
  exact ⟨_, rfl⟩

theorem receive_of_le {c : ByteStream α} {count : ℕ} (hle : count ≤ c.buffer.length) :
    ∃ bytes c', c.receive count = some (bytes, c') := by
  unfold receive
  rw [if_pos hle]
  exact ⟨_, _, rfl⟩

end ByteStream

end CppWorkspace.Lib
