import Mathlib

/-!
Histories: lists that grow at the end, and what a projection of the steps of a
run has recorded.
-/

namespace CppWorkspace.Lib.History

variable {α β : Type*}

theorem filterMap_snoc (f : α → Option β) (l : List α) (a : α) :
    (l ++ [a]).filterMap f = l.filterMap f ++ (f a).toList := by
  cases h : f a <;> simp [h]

/-- Where an event of a history that grew by one stands. -/
theorem split_snoc {l before after : List α} {last a : α}
    (h : l ++ [last] = before ++ a :: after) :
    (after = [] ∧ before = l ∧ a = last) ∨
      ∃ rest, after = rest ++ [last] ∧ l = before ++ a :: rest := by
  rcases List.eq_nil_or_concat after with rfl | ⟨rest, b, rfl⟩
  · obtain ⟨hbefore, hlast⟩ := List.append_inj' h rfl
    exact Or.inl ⟨rfl, hbefore.symm, (List.singleton_inj.mp hlast).symm⟩
  · rw [List.concat_eq_append, ← List.cons_append, ← List.append_assoc] at h
    obtain ⟨hfront, hlast⟩ := List.append_inj' h rfl
    obtain rfl := List.singleton_inj.mp hlast
    exact Or.inr ⟨rest, List.concat_eq_append, hfront⟩

end CppWorkspace.Lib.History
