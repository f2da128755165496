import CppWorkspace.Lib.Transition

/-!
A log whose entries carry consecutive indices from a first index on, as a
replicated log does: entries are added at the end, overwritten from an index
on, and dropped from the front by compaction.
-/

namespace CppWorkspace.Lib

structure IndexedLog (α : Type*) where
  first : Nat
  entries : List α
  first_pos : 0 < first

namespace IndexedLog

variable {α : Type*}

def empty : IndexedLog α := ⟨1, [], Nat.one_pos⟩

/-- The index after the last entry. -/
def next (log : IndexedLog α) : Nat := log.first + log.entries.length

def get? (log : IndexedLog α) (i : Nat) : Option α :=
  if log.first ≤ i then log.entries[i - log.first]? else none

def append (log : IndexedLog α) (e : α) : IndexedLog α :=
  { log with entries := log.entries ++ [e] }

/-- Keep the entries below `i` and put `e` at `i`. -/
def writeAt (log : IndexedLog α) (i : Nat) (e : α) : IndexedLog α :=
  { log with entries := log.entries.take (i - log.first) ++ [e] }

/-- Drop the entries with index at most `k`. -/
def compact (log : IndexedLog α) (k : Nat) : IndexedLog α where
  first := max log.first (k + 1)
  entries := log.entries.drop (k + 1 - log.first)
  first_pos := lt_of_lt_of_le log.first_pos (le_max_left _ _)

/-- The entries with index in `[a, b)`, for a range inside the log. -/
def slice (log : IndexedLog α) (a b : Nat) : List α :=
  (log.entries.drop (a - log.first)).take (b - a)

inductive Op (α : Type*) where
  | append (e : α)
  | writeAt (i : Nat) (e : α)
  | compact (k : Nat)

def apply (log : IndexedLog α) : Op α → IndexedLog α
  | .append e => log.append e
  | .writeAt i e => log.writeAt i e
  | .compact k => log.compact k

/-- Entries are written inside the log or directly behind it. -/
def Allowed (log : IndexedLog α) : Op α → Prop
  | .writeAt i _ => log.first ≤ i ∧ i ≤ log.next
  | _ => True

/-- All runs of a log under its operations. -/
def system : System (IndexedLog α) (Op α) where
  init log := log = empty
  step log op log' := log.Allowed op ∧ log' = log.apply op

/-! The log as an association list. -/

def assocFrom : Nat → List α → List (Nat × α)
  | _, [] => []
  | i, e :: rest => (i, e) :: assocFrom (i + 1) rest

@[simp] theorem assocFrom_length (i : Nat) (l : List α) :
    (assocFrom i l).length = l.length := by
  induction l generalizing i with
  | nil => rfl
  | cons e rest ih => simp [assocFrom, ih]

theorem assocFrom_append (i : Nat) (first second : List α) :
    assocFrom i (first ++ second) =
      assocFrom i first ++ assocFrom (i + first.length) second := by
  induction first generalizing i with
  | nil => simp [assocFrom]
  | cons e rest ih =>
      have hlen : i + 1 + rest.length = i + (rest.length + 1) := by omega
      simp [assocFrom, ih, hlen]

theorem assocFrom_injective (i : Nat) :
    Function.Injective (assocFrom i : List α → List (Nat × α)) := by
  intro first second h
  induction first generalizing i second with
  | nil =>
      cases second with
      | nil => rfl
      | cons e rest => cases h
  | cons e rest ih =>
      cases second with
      | nil => cases h
      | cons e' rest' =>
          simp only [assocFrom, List.cons.injEq, Prod.mk.injEq] at h
          rw [h.1.2, ih (i + 1) h.2]

theorem mem_assocFrom {i k : Nat} {l : List α} {e : α} :
    (k, e) ∈ assocFrom i l ↔ i ≤ k ∧ l[k - i]? = some e := by
  induction l generalizing i with
  | nil => simp [assocFrom]
  | cons head rest ih =>
      simp only [assocFrom, List.mem_cons, Prod.mk.injEq, ih]
      constructor
      · rintro (⟨rfl, rfl⟩ | ⟨hle, hget⟩)
        · simp
        · refine ⟨by omega, ?_⟩
          have hsub : k - i = k - (i + 1) + 1 := by omega
          rw [hsub, List.getElem?_cons_succ]
          exact hget
      · rintro ⟨hle, hget⟩
        rcases Nat.eq_or_lt_of_le hle with rfl | hlt
        · left
          simpa [eq_comm] using hget
        · right
          have hsub : k - i = k - (i + 1) + 1 := by omega
          rw [hsub, List.getElem?_cons_succ] at hget
          exact ⟨hlt, hget⟩

/-- Keys of the association list lie in its index range. -/
theorem key_bounds_of_mem_assocFrom {i : Nat} {l : List α} {p : Nat × α}
    (hp : p ∈ assocFrom i l) : i ≤ p.1 ∧ p.1 < i + l.length := by
  obtain ⟨hle, hget⟩ := mem_assocFrom.mp hp
  have hlt := (List.getElem?_eq_some_iff.mp hget).1
  omega

theorem filter_lt_assocFrom (i k : Nat) (l : List α) :
    (assocFrom i l).filter (fun p => decide (p.1 < k)) = assocFrom i (l.take (k - i)) := by
  induction l generalizing i with
  | nil => simp [assocFrom]
  | cons e rest ih =>
      by_cases hlt : i < k
      · have hsub : k - i = k - (i + 1) + 1 := by omega
        simp [assocFrom, hlt, ih, hsub]
      · have hzero : k - i = 0 := by omega
        have hzero' : k - (i + 1) = 0 := by omega
        simp [assocFrom, hlt, ih, hzero, hzero']

theorem filter_ge_assocFrom (i k : Nat) (l : List α) :
    (assocFrom i l).filter (fun p => decide (k ≤ p.1)) =
      assocFrom (max i k) (l.drop (k - i)) := by
  induction l generalizing i with
  | nil => simp [assocFrom]
  | cons e rest ih =>
      by_cases hle : k ≤ i
      · have hzero : k - i = 0 := by omega
        have hzero' : k - (i + 1) = 0 := by omega
        have hmax : max (i + 1) k = i + 1 := by omega
        simp [assocFrom, hle, ih, hzero, hzero', hmax]
      · have hsub : k - i = k - (i + 1) + 1 := by omega
        have hmax : max i k = max (i + 1) k := by omega
        simp [assocFrom, hle, ih, hsub, hmax]

/-! Facts about single operations. -/

theorem get?_eq_some {log : IndexedLog α} {i : Nat} {e : α} :
    log.get? i = some e ↔ (i, e) ∈ assocFrom log.first log.entries := by
  unfold get?
  rw [mem_assocFrom]
  split <;> simp_all

theorem get?_isSome_iff {log : IndexedLog α} {i : Nat} :
    (log.get? i).isSome ↔ log.first ≤ i ∧ i < log.next := by
  unfold get? next
  split
  · next hle =>
    simp
    omega
  · next hlt =>
    simp
    omega

end IndexedLog

end CppWorkspace.Lib
