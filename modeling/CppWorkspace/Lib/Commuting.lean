import CppWorkspace.Lib.Transition

/-!
Systems in which any two steps from one state can be taken in either order. What
one run of such a system leads to, all its runs lead to, and after as many steps:
a maximal run is found by exhibiting one.
-/

namespace CppWorkspace.Lib

namespace System

variable {σ α : Type*}

/-- A label has one outcome, and two steps can be taken in either order. -/
structure Commutes (S : System σ α) : Prop where
  outcome : ∀ s label s' s'', S.step s label s' → S.step s label s'' → s' = s''
  diamond : ∀ s label label' s' s'', label ≠ label' → S.step s label s' → S.step s label' s'' →
    ∃ last, S.step s' label' last ∧ S.step s'' label last

/-- Nothing can be done any more. -/
def Stuck (S : System σ α) (s : σ) : Prop := ∀ label s', ¬ S.step s label s'

/-- Some run leads from one state to the other. -/
def Reaches (S : System σ α) (s s' : σ) : Prop := ∃ labels, S.Run s labels s'

/-- Whatever is done from `start`, it can be continued to `last`, where nothing can be
done any more, and all that takes the same number of steps. -/
structure LeadsTo (S : System σ α) (start last : σ) : Prop where
  stuck : S.Stuck last
  continues : ∃ n, ∀ (labels : List α) (s : σ), S.Run start labels s →
    ∃ rest, S.Run s rest last ∧ labels.length + rest.length = n

variable {S : System σ α} {start s last : σ}

theorem Reaches.refl (s : σ) : S.Reaches s s := ⟨[], .nil⟩

theorem Reaches.trans {s' s'' : σ} (h : S.Reaches s s') (h' : S.Reaches s' s'') :
    S.Reaches s s'' := by
  obtain ⟨first, hfirst⟩ := h
  obtain ⟨second, hsecond⟩ := h'
  exact ⟨first ++ second, hfirst.append hsecond⟩

theorem Reaches.single {s s' : σ} {label : α} (h : S.step s label s') : S.Reaches s s' :=
  ⟨[label], .single h⟩

/-- A step leaves what there is to do, less that step. -/
theorem Commutes.step_leads (hcommutes : S.Commutes) (hstuck : S.Stuck last) {all : List α}
    {label : α} (hall : S.Run start all last) (hstep : S.step start label s) :
    ∃ rest, S.Run s rest last ∧ rest.length + 1 = all.length := by
  induction all generalizing start s label with
  | nil =>
      rw [hall.eq_of_nil] at hstuck
      exact absurd hstep (hstuck label s)
  | cons first later ih =>
      obtain ⟨middle, hfirst, hlater⟩ := hall.of_cons
      by_cases hsame : first = label
      · rw [hsame] at hfirst
        rw [hcommutes.outcome _ _ _ _ hstep hfirst]
        exact ⟨later, hlater, by simp⟩
      · obtain ⟨corner, hmiddle, hs⟩ := hcommutes.diamond _ _ _ _ _ hsame hfirst hstep
        obtain ⟨rest, hrest, hlength⟩ := ih hlater hmiddle
        refine ⟨first :: rest, hrest.cons first hs, ?_⟩
        rw [List.length_cons, List.length_cons, hlength]

/-- One maximal run tells what all runs lead to. -/
theorem Commutes.leadsTo (hcommutes : S.Commutes) (hstuck : S.Stuck last)
    (hreaches : S.Reaches start last) : S.LeadsTo start last := by
  obtain ⟨all, hall⟩ := hreaches
  refine ⟨hstuck, all.length, ?_⟩
  intro labels s hrun
  induction hrun with
  | nil => exact ⟨all, hall, by simp⟩
  | snoc label _ hstep ih =>
      obtain ⟨later, hlater, hlength⟩ := ih
      obtain ⟨rest, hrest, hone⟩ := hcommutes.step_leads hstuck hlater hstep
      refine ⟨rest, hrest, ?_⟩
      rw [List.length_append, List.length_singleton]
      omega

/-- When the runs are bounded, one of them can go no further. -/
theorem exists_stuck {n : ℕ} (hbound : ∀ labels s, S.Run start labels s → labels.length ≤ n) :
    ∃ labels s, S.Run start labels s ∧ S.Stuck s := by
  by_contra hnone
  push Not at hnone
  have hlong : ∀ k, ∃ labels s, S.Run start labels s ∧ labels.length = k := by
    intro k
    induction k with
    | zero => exact ⟨[], start, .nil, rfl⟩
    | succ k ih =>
        obtain ⟨labels, s, hrun, hlength⟩ := ih
        have hmoves := hnone labels s hrun
        unfold Stuck at hmoves
        push Not at hmoves
        obtain ⟨label, s', hstep⟩ := hmoves
        exact ⟨labels ++ [label], s', hrun.snoc label hstep, by simp [hlength]⟩
  obtain ⟨labels, s, hrun, hlength⟩ := hlong (n + 1)
  have hle := hbound labels s hrun
  omega

end System

end CppWorkspace.Lib
