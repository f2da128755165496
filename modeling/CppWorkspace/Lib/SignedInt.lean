import Mathlib

/-!
Results of signed arithmetic: an operation whose exact result does not fit is
undefined.
-/

namespace CppWorkspace.Lib

/-- The value fits into `int`. -/
def FitsInt (n : ℤ) : Prop := -2 ^ 31 ≤ n ∧ n ≤ 2 ^ 31 - 1

instance (n : ℤ) : Decidable (FitsInt n) := inferInstanceAs (Decidable (_ ∧ _))

/-- The result of an operation with this exact result, `none` where it overflows. -/
def int (n : ℤ) : Option ℤ := if FitsInt n then some n else none

theorem int_of_fits {n : ℤ} (h : FitsInt n) : int n = some n := if_pos h

theorem int_eq_some {n m : ℤ} : int n = some m ↔ FitsInt n ∧ n = m := by
  unfold int
  split
  · next hfits => simp [hfits]
  · next hfits => simp [hfits]

theorem int_eq_none {n : ℤ} : int n = none ↔ ¬ FitsInt n := by
  unfold int
  split
  · next hfits => simp [hfits]
  · next hfits => simp [hfits]

/-- The bound of a loop `for (int i = 1; i <= bound; ++i)` whose counter does not overflow:
at the end it is one more than the bound. -/
structure LoopBound where
  val : ℤ
  lower : -2 ^ 31 ≤ val
  upper : val < 2 ^ 31 - 1

namespace LoopBound

/-- How often the loop is run. -/
def rounds (bound : LoopBound) : ℕ := bound.val.toNat

variable {bound : LoopBound} {i : ℕ}

theorem le_val_iff (hi : 0 < i) : (i : ℤ) ≤ bound.val ↔ i ≤ bound.rounds := by
  unfold rounds
  omega

end LoopBound

/-- The value fits into `int64_t`. -/
def FitsInt64 (n : ℤ) : Prop := -2 ^ 63 ≤ n ∧ n ≤ 2 ^ 63 - 1

instance (n : ℤ) : Decidable (FitsInt64 n) := inferInstanceAs (Decidable (_ ∧ _))

/-- The result of an operation on `int64_t`. -/
def int64 (n : ℤ) : Option ℤ := if FitsInt64 n then some n else none

theorem int64_of_fits {n : ℤ} (h : FitsInt64 n) : int64 n = some n := if_pos h

theorem int64_eq_some {n m : ℤ} : int64 n = some m ↔ FitsInt64 n ∧ n = m := by
  unfold int64
  split
  · next hfits => simp [hfits]
  · next hfits => simp [hfits]

end CppWorkspace.Lib
