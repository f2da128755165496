import CppWorkspace.Lib.Reduction

/-!
`parallel_sum`: `tbb::parallel_reduce` over a vector of `int`. Partial sums are
`int` as well, also those of ranges that do not start at the front.
-/

namespace CppWorkspace.Tbb

open Lib

def InInt (n : ℤ) : Prop := -2 ^ 31 ≤ n ∧ n ≤ 2 ^ 31 - 1

instance (n : ℤ) : Decidable (InInt n) := inferInstanceAs (Decidable (_ ∧ _))

/-- `int + int`; `none` where it overflows, which is undefined. -/
def plus (a b : Int32) : Option Int32 :=
  if InInt (a.toInt + b.toInt) then some (a + b) else none

/-- The body of the reduction: the loop over `range`, from `init` on. -/
def sumRange (values : List Int32) (first last : ℕ) (init : Int32) : Option Int32 :=
  ((values.drop first).take (last - first)).foldlM plus init

/-- `parallel_sum`, for the way in which `parallel_reduce` goes about it. -/
def parallelSum (values : List Int32) (plan : Reduction) : Option Int32 :=
  plan.eval 0 (sumRange values) plus 0

/-- The plain loop from left to right. -/
def sequentialSum (values : List Int32) : Option Int32 := values.foldlM plus 0

theorem inInt_toInt (a : Int32) : InInt a.toInt := by
  have hlow := a.le_toInt
  have hhigh := a.toInt_lt
  exact ⟨by omega, by omega⟩

theorem plus_eq_some (a b c : Int32) : plus a b = some c ↔ c.toInt = a.toInt + b.toInt := by
  constructor
  · intro h
    obtain ⟨⟨hlow, hhigh⟩, heq⟩ := Option.ite_none_right_eq_some.mp h
    obtain rfl := Option.some.inj heq
    rw [Int32.toInt_add, Int.bmod_eq_of_le] <;> omega
  · intro h
    have hin := inInt_toInt c
    rw [h] at hin
    obtain ⟨hlow, hhigh⟩ := hin
    rw [plus, if_pos ⟨hlow, hhigh⟩, Option.some_inj, ← Int32.toInt_inj, h, Int32.toInt_add,
      Int.bmod_eq_of_le] <;> omega

/-- `int` with its exact values. -/
def intAdd : CheckedAdd Int32 ℤ where
  zero := 0
  add := plus
  exact := Int32.toInt
  exact_injective _ _ h := Int32.toInt_inj.mp h
  exact_zero := rfl
  add_eq_some := plus_eq_some

theorem fits_iff (n : ℤ) : intAdd.Fits n ↔ InInt n := by
  constructor
  · rintro ⟨c, rfl⟩
    exact inInt_toInt c
  · rintro ⟨hlow, hhigh⟩
    exact ⟨Int32.ofInt n, Int32.toInt_ofInt_of_le hlow (by omega)⟩

/-- However `parallel_reduce` cuts the range and joins the results, no addition
overflows and the result is that of the plain loop, exactly if the sum of every
contiguous piece of the vector fits in `int`. A plan may cut the range anywhere, not
only in the middle as `blocked_range` does. -/
theorem parallel_sum_iff (values : List Int32) :
    (∀ plan : Reduction, plan.size = values.length →
      ∃ sum, parallelSum values plan = some sum ∧ sequentialSum values = some sum) ↔
      ∀ piece, piece <:+: values → InInt (piece.map Int32.toInt).sum := by
  have hplans := Reduction.all_plans_iff intAdd values
  simp only [fits_iff] at hplans
  exact hplans

/-- The plain loop stays inside `int`, but the last two values alone do not. -/
theorem parallel_sum_overflows : ∃ (values : List Int32) (plan : Reduction),
    plan.size = values.length ∧ sequentialSum values = some 0 ∧ parallelSum values plan = none :=
  ⟨[Int32.minValue, Int32.maxValue, 1],
    .join (.run .identity 1) (.run .identity 2), rfl, by decide, by decide⟩

end CppWorkspace.Tbb
