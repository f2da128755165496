import Mathlib

/-!
Channels in which a send without room is suspended. The suspended sends are served
in the order in which they came; a receive takes the oldest value and lets the
first suspended send complete. What a channel has taken in leaves it in that order,
whether it was suspended or not.
-/

namespace CppWorkspace.Lib

/-- `κ` are the names of the senders. -/
structure AsyncChannel (κ α : Type*) where
  capacity : ℕ
  buffer : List α
  suspended : List (κ × α)
  closed : Bool
  fits : buffer.length ≤ capacity
  full : suspended ≠ [] → buffer.length = capacity

namespace AsyncChannel

variable {κ α : Type*}

/-- An open channel with nothing in it. -/
def make (capacity : ℕ) : AsyncChannel κ α :=
  ⟨capacity, [], [], false, Nat.zero_le _, fun h => absurd rfl h⟩

/-- What a sender finds: its value is in the buffer, it is suspended, or the channel
is closed. -/
inductive Sent (κ α : Type*) where
  | done (c : AsyncChannel κ α)
  | suspended (c : AsyncChannel κ α)
  | refused

def send (c : AsyncChannel κ α) (sender : κ) (v : α) : Sent κ α :=
  if c.closed then .refused
  else if hroom : c.buffer.length < c.capacity then
    .done { c with
      buffer := c.buffer ++ [v]
      fits := by
        rw [List.length_append]
        exact hroom
      full := fun h => absurd (c.full h) hroom.ne }
  else
    .suspended { c with
      suspended := c.suspended ++ [(sender, v)]
      full := fun _ => le_antisymm c.fits (not_lt.mp hroom) }

/-- The oldest value, with the sender whose send completes now, if one was
suspended. -/
def receive (c : AsyncChannel κ α) : Option (α × Option κ × AsyncChannel κ α) :=
  match hbuffer : c.buffer, hsuspended : c.suspended with
  | [], [] => none
  | [], (sender, v) :: rest => some (v, some sender, { c with
      suspended := rest
      full := fun _ => c.full (by rw [hsuspended]; exact List.cons_ne_nil _ _) })
  | v :: values, [] => some (v, none, { c with
      buffer := values
      fits := by
        have hfits := c.fits
        rw [hbuffer, List.length_cons] at hfits
        omega
      full := fun h => absurd hsuspended h })
  | v :: values, (sender, w) :: rest => some (v, some sender, { c with
      buffer := values ++ [w]
      suspended := rest
      fits := by
        have hfits := c.fits
        rw [hbuffer, List.length_cons] at hfits
        rwa [List.length_append]
      full := fun _ => by
        have hfull := c.full (by rw [hsuspended]; exact List.cons_ne_nil _ _)
        rw [hbuffer, List.length_cons] at hfull
        rwa [List.length_append] })

def close (c : AsyncChannel κ α) : AsyncChannel κ α := { c with closed := true }

/-- The values that are in the channel, the oldest first. -/
def contents (c : AsyncChannel κ α) : List α := c.buffer ++ c.suspended.map Prod.snd

@[simp] theorem make_contents (capacity : ℕ) : (make capacity : AsyncChannel κ α).contents = [] :=
  rfl
@[simp] theorem make_suspended (capacity : ℕ) :
    (make capacity : AsyncChannel κ α).suspended = [] := rfl
@[simp] theorem make_closed (capacity : ℕ) : (make capacity : AsyncChannel κ α).closed = false :=
  rfl
@[simp] theorem close_contents (c : AsyncChannel κ α) : c.close.contents = c.contents := rfl
@[simp] theorem close_suspended (c : AsyncChannel κ α) : c.close.suspended = c.suspended := rfl
@[simp] theorem close_closed (c : AsyncChannel κ α) : c.close.closed = true := rfl

section Operations

variable {c c' : AsyncChannel κ α} {sender : κ} {v : α}

theorem send_done (h : c.send sender v = .done c') :
    c'.contents = c.contents ++ [v] ∧ c'.suspended = c.suspended ∧ c'.closed = c.closed := by
  unfold send at h
  split at h
  · cases h
  · split at h
    · next hroom =>
      cases h
      have hnone : c.suspended = [] := by
        by_contra hsome
        exact hroom.ne (c.full hsome)
      refine ⟨?_, rfl, rfl⟩
      simp only [contents, hnone, List.map_nil, List.append_nil]
    · cases h

theorem send_suspended (h : c.send sender v = .suspended c') :
    c'.contents = c.contents ++ [v] ∧ c'.suspended = c.suspended ++ [(sender, v)] ∧
      c'.closed = c.closed := by
  unfold send at h
  split at h
  · cases h
  · split at h
    · cases h
    · cases h
      refine ⟨?_, rfl, rfl⟩
      simp only [contents, List.map_append, List.map_cons, List.map_nil, List.append_assoc]

theorem send_refused : c.send sender v = .refused ↔ c.closed = true := by
  unfold send
  split
  · next hclosed => exact iff_of_true rfl hclosed
  · next hopen =>
    refine iff_of_false ?_ hopen
    split <;> simp

/-- The oldest value comes out. -/
theorem receive_contents {served : Option κ} (h : c.receive = some (v, served, c')) :
    c.contents = v :: c'.contents ∧ c'.closed = c.closed := by
  unfold receive at h
  split at h
  · cases h
  · next hbuffer hsuspended =>
    cases h
    exact ⟨by simp [contents, hbuffer, hsuspended], rfl⟩
  · next hbuffer hsuspended =>
    cases h
    exact ⟨by simp [contents, hbuffer, hsuspended], rfl⟩
  · next hbuffer hsuspended =>
    cases h
    exact ⟨by simp [contents, hbuffer, hsuspended], rfl⟩

/-- The first suspended send completes. -/
theorem receive_served {served : Option κ} (h : c.receive = some (v, served, c')) :
    (served = none ∧ c.suspended = [] ∧ c'.suspended = []) ∨
      ∃ sender w, served = some sender ∧ c.suspended = (sender, w) :: c'.suspended := by
  unfold receive at h
  split at h
  · cases h
  · next hbuffer hsuspended =>
    cases h
    exact Or.inr ⟨_, _, rfl, hsuspended⟩
  · next hbuffer hsuspended =>
    cases h
    exact Or.inl ⟨rfl, hsuspended, hsuspended⟩
  · next hbuffer hsuspended =>
    cases h
    exact Or.inr ⟨_, _, rfl, hsuspended⟩

theorem receive_eq_none : c.receive = none ↔ c.contents = [] := by
  unfold receive
  split
  · next hbuffer hsuspended => simp [contents, hbuffer, hsuspended]
  · next hbuffer hsuspended => simp [contents, hbuffer, hsuspended]
  · next hbuffer hsuspended => simp [contents, hbuffer]
  · next hbuffer hsuspended => simp [contents, hbuffer]

end Operations

end AsyncChannel

end CppWorkspace.Lib
