import Mathlib

/-!
Parallel reductions with an addition that can overflow. A plan says how a range
is cut and how the pieces are put together; every plan gives the sum of the
values exactly if every contiguous piece of them has a sum that fits.
-/

namespace CppWorkspace.Lib

/-- Addition on machine values, none where it overflows, and the exact values
behind them. -/
structure CheckedAdd (β M : Type*) [AddMonoid M] where
  zero : β
  add : β → β → Option β
  exact : β → M
  exact_injective : Function.Injective exact
  exact_zero : exact zero = 0
  add_eq_some : ∀ a b c, add a b = some c ↔ exact c = exact a + exact b

namespace CheckedAdd

variable {β M : Type*} [AddMonoid M] (A : CheckedAdd β M)

def Fits (m : M) : Prop := ∃ c, A.exact c = m

/-- The exact sum of a list. -/
def sum (l : List β) : M := (l.map A.exact).sum

/-- Adding up a list from the left, from `init` on. -/
def fold (init : β) (l : List β) : Option β := l.foldlM A.add init

@[simp] theorem sum_nil : A.sum [] = 0 := rfl

theorem sum_append (first second : List β) :
    A.sum (first ++ second) = A.sum first + A.sum second := by
  simp [sum]

@[simp] theorem fold_nil (init : β) : A.fold init [] = some init := rfl

theorem fold_cons (init x : β) (rest : List β) :
    A.fold init (x :: rest) = (A.add init x).bind fun init => A.fold init rest := rfl

theorem exact_of_fold {init c : β} {l : List β} (h : A.fold init l = some c) :
    A.exact c = A.exact init + A.sum l := by
  induction l generalizing init with
  | nil =>
      cases h
      simp
  | cons x rest ih =>
      rw [fold_cons] at h
      obtain ⟨next, hadd, hrest⟩ := Option.bind_eq_some_iff.mp h
      calc
        A.exact c = A.exact next + A.sum rest := ih hrest
        _ = A.exact init + A.exact x + A.sum rest := by rw [(A.add_eq_some _ _ _).mp hadd]
        _ = A.exact init + A.sum (x :: rest) := by simp [sum, add_assoc]

/-- The loop does not overflow when the sums on its way fit. -/
theorem fold_of_fits {init : β} {l : List β}
    (h : ∀ front, front <+: l → A.Fits (A.exact init + A.sum front)) :
    ∃ c, A.fold init l = some c := by
  induction l generalizing init with
  | nil => exact ⟨init, rfl⟩
  | cons x rest ih =>
      obtain ⟨next, hnext⟩ := h [x] ⟨rest, rfl⟩
      have hadd : A.add init x = some next := by
        rw [A.add_eq_some, hnext]
        simp [sum]
      have hlater : ∀ front, front <+: rest → A.Fits (A.exact next + A.sum front) := by
        intro front hfront
        have hfits := h (x :: front) (List.cons_prefix_cons.mpr ⟨rfl, hfront⟩)
        rwa [← List.singleton_append, A.sum_append, ← add_assoc, ← hnext] at hfits
      obtain ⟨c, hc⟩ := ih hlater
      exact ⟨c, by rw [fold_cons, hadd, Option.bind_some, hc]⟩

end CheckedAdd

/-- How a reduction over a range proceeds: nothing done, the body run over the
next elements from what is accumulated, or two neighbouring results joined. -/
inductive Reduction where
  | identity
  | run (before : Reduction) (size : ℕ)
  | join (left right : Reduction)
deriving Repr

namespace Reduction

variable {β : Type*}

/-- How many elements a plan covers. -/
def size : Reduction → ℕ
  | identity => 0
  | run before size => before.size + size
  | join left right => left.size + right.size

/-- Carry out a plan from the index `first` on; `body` runs from an index up to
another. -/
def eval (zero : β) (body : ℕ → ℕ → β → Option β) (plus : β → β → Option β) (first : ℕ) :
    Reduction → Option β
  | identity => some zero
  | run before size => do
      let init ← eval zero body plus first before
      body (first + before.size) (first + before.size + size) init
  | join left right => do
      let a ← eval zero body plus first left
      let b ← eval zero body plus (first + left.size) right
      plus a b

/-- The elements from an index on. -/
def segment (values : List β) (first size : ℕ) : List β := (values.drop first).take size

theorem segment_isInfix (values : List β) (first size : ℕ) :
    segment values first size <:+: values :=
  (List.take_prefix _ _).isInfix.trans (List.drop_suffix _ _).isInfix

theorem segment_add (values : List β) (first size size' : ℕ) :
    segment values first (size + size') =
      segment values first size ++ segment values (first + size) size' := by
  simp [segment, List.take_add, List.drop_drop]

/-- The body that adds up the elements of its range. -/
def sumBody {M : Type*} [AddMonoid M] (A : CheckedAdd β M) (values : List β) (first last : ℕ)
    (init : β) : Option β :=
  A.fold init (segment values first (last - first))

section Sums

variable {M : Type*} [AddMonoid M] {A : CheckedAdd β M} {values : List β}

/-- A plan gives the sum of what it covers. -/
theorem eval_of_fits (h : ∀ piece, piece <:+: values → A.Fits (A.sum piece)) (plan : Reduction)
    (first : ℕ) : ∃ c, eval A.zero (sumBody A values) A.add first plan = some c ∧
      A.exact c = A.sum (segment values first plan.size) := by
  induction plan generalizing first with
  | identity => exact ⟨A.zero, rfl, by simp [size, segment, A.exact_zero]⟩
  | run before n ih =>
      obtain ⟨init, heval, hinit⟩ := ih first
      have hfits : ∀ front, front <+: segment values (first + before.size) n →
          A.Fits (A.exact init + A.sum front) := by
        intro front hfront
        rw [hinit, ← A.sum_append]
        have hpre := (List.prefix_append_right_inj (segment values first before.size)).mpr hfront
        rw [← segment_add] at hpre
        exact h _ (hpre.isInfix.trans (segment_isInfix values first _))
      obtain ⟨c, hc⟩ := A.fold_of_fits hfits
      refine ⟨c, ?_, ?_⟩
      · simp [eval, heval, sumBody, hc]
      · rw [A.exact_of_fold hc, hinit, size, segment_add, A.sum_append]
  | join left right ihl ihr =>
      obtain ⟨a, hleft, ha⟩ := ihl first
      obtain ⟨b, hright, hb⟩ := ihr (first + left.size)
      obtain ⟨c, hc⟩ := h _ (segment_isInfix values first (left.size + right.size))
      rw [segment_add, A.sum_append, ← ha, ← hb] at hc
      refine ⟨c, ?_, ?_⟩
      · simp [eval, hleft, hright, (A.add_eq_some a b c).mpr hc]
      · rw [hc, ha, hb, size, segment_add, A.sum_append]

/-- A plan that runs the body over one piece alone. -/
def isolate (before piece after : ℕ) : Reduction :=
  join (run identity before) (join (run identity piece) (run identity after))

theorem fits_of_isolate {before piece after : List β} {c : β}
    (h : eval A.zero (sumBody A (before ++ piece ++ after)) A.add 0
      (isolate before.length piece.length after.length) = some c) : A.Fits (A.sum piece) := by
  simp only [isolate, eval, Option.bind_eq_bind, Option.bind_some, size, Nat.zero_add] at h
  obtain ⟨_, -, hjoin⟩ := Option.bind_eq_some_iff.mp h
  obtain ⟨_, hinner, -⟩ := Option.bind_eq_some_iff.mp hjoin
  obtain ⟨d, hpiece, -⟩ := Option.bind_eq_some_iff.mp hinner
  have hsegment : segment (before ++ piece ++ after) before.length piece.length = piece := by
    simp [segment]
  rw [Nat.add_zero, sumBody, Nat.add_sub_cancel_left, hsegment] at hpiece
  exact ⟨d, by rw [A.exact_of_fold hpiece, A.exact_zero, zero_add]⟩

/-- Every plan over the whole list gives what the loop from the left gives
exactly if the sum of every contiguous piece fits. -/
theorem all_plans_iff (A : CheckedAdd β M) (values : List β) :
    (∀ plan : Reduction, plan.size = values.length →
      ∃ c, eval A.zero (sumBody A values) A.add 0 plan = some c ∧ A.fold A.zero values = some c) ↔
      ∀ piece, piece <:+: values → A.Fits (A.sum piece) := by
  constructor
  · rintro h piece ⟨before, after, rfl⟩
    have hsize : (isolate before.length piece.length after.length).size =
        (before ++ piece ++ after).length := by
      simp [isolate, size]
    obtain ⟨c, hc, -⟩ := h _ hsize
    exact fits_of_isolate hc
  · intro h plan hsize
    obtain ⟨c, heval, hc⟩ := eval_of_fits h plan 0
    have hfits : ∀ front, front <+: values → A.Fits (A.exact A.zero + A.sum front) := by
      intro front hfront
      rw [A.exact_zero, zero_add]
      exact h front hfront.isInfix
    obtain ⟨d, hd⟩ := A.fold_of_fits hfits
    have hall : segment values 0 plan.size = values := by simp [segment, hsize]
    have hsame : d = c := by
      apply A.exact_injective
      rw [A.exact_of_fold hd, hc, hall, A.exact_zero, zero_add]
    exact ⟨c, heval, hsame ▸ hd⟩

end Sums

end Reduction

end CppWorkspace.Lib
