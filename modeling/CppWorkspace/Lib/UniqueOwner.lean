import Mathlib

/-!
Resources with one owner each. Objects hold one resource or none, resources are
numbered in the order in which they are acquired, and a history says which have
been released. Where resources contain objects, what an object owns is what can be
reached from it.
-/

namespace CppWorkspace.Lib

variable {κ ρ : Type*}

/-- What the objects hold is alive, everything alive is held, and no resource is
held by two objects. -/
structure Exclusive (held : κ → Option ρ) (alive : Set ρ) : Prop where
  mem_alive : ∀ o r, held o = some r → r ∈ alive
  owner : ∀ r ∈ alive, ∃ o, held o = some r
  unique : ∀ o o' r, held o = some r → held o' = some r → o = o'

namespace Exclusive

variable {held : κ → Option ρ} {alive : Set ρ} {o o' : κ} {r : ρ}

theorem empty : Exclusive (fun _ : κ => (none : Option ρ)) ∅ where
  mem_alive := by simp
  owner := by simp
  unique := by simp

theorem setOf_held (h : Exclusive held alive) : {r | ∃ o, held o = some r} = alive := by
  ext r
  constructor
  · rintro ⟨o, ho⟩
    exact h.mem_alive o r ho
  · exact h.owner r

variable [DecidableEq κ]

/-- An object without a resource takes a new one. -/
theorem acquire (h : Exclusive held alive) (ho : held o = none) (hr : r ∉ alive) :
    Exclusive (Function.update held o (some r)) (insert r alive) := by
  have hother : ∀ o' r', Function.update held o (some r) o' = some r' →
      (o' = o ∧ r' = r) ∨ (o' ≠ o ∧ held o' = some r') := by
    intro o' r' h'
    by_cases heq : o' = o
    · subst heq
      rw [Function.update_self] at h'
      exact .inl ⟨rfl, (Option.some.inj h').symm⟩
    · rw [Function.update_of_ne heq] at h'
      exact .inr ⟨heq, h'⟩
  constructor
  · intro o' r' h'
    rcases hother o' r' h' with ⟨-, rfl⟩ | ⟨-, h'⟩
    · exact Set.mem_insert _ _
    · exact Set.mem_insert_of_mem _ (h.mem_alive o' r' h')
  · rintro r' (rfl | hr')
    · exact ⟨o, Function.update_self ..⟩
    · obtain ⟨o', ho'⟩ := h.owner r' hr'
      have hne : o' ≠ o := by
        rintro rfl
        simp [ho] at ho'
      exact ⟨o', by rw [Function.update_of_ne hne, ho']⟩
  · intro o₁ o₂ r' h₁ h₂
    rcases hother o₁ r' h₁ with ⟨heq₁, hr₁⟩ | ⟨-, h₁⟩
    · rcases hother o₂ r' h₂ with ⟨heq₂, -⟩ | ⟨-, h₂⟩
      · rw [heq₁, heq₂]
      · exact absurd (hr₁ ▸ h.mem_alive o₂ r' h₂) hr
    · rcases hother o₂ r' h₂ with ⟨-, hr₂⟩ | ⟨-, h₂⟩
      · exact absurd (hr₂ ▸ h.mem_alive o₁ r' h₁) hr
      · exact h.unique o₁ o₂ r' h₁ h₂

/-- An object lets its resource go. -/
theorem release (h : Exclusive held alive) (ho : held o = some r) :
    Exclusive (Function.update held o none) (alive \ {r}) := by
  have hother : ∀ o' r', Function.update held o none o' = some r' → o' ≠ o ∧ held o' = some r' := by
    intro o' r' h'
    have hne : o' ≠ o := by
      rintro rfl
      simp at h'
    rw [Function.update_of_ne hne] at h'
    exact ⟨hne, h'⟩
  constructor
  · intro o' r' h'
    obtain ⟨hne, h'⟩ := hother o' r' h'
    refine ⟨h.mem_alive o' r' h', ?_⟩
    rintro rfl
    exact hne (h.unique o' o r' h' ho)
  · rintro r' ⟨hr', hne⟩
    obtain ⟨o', ho'⟩ := h.owner r' hr'
    have hne' : o' ≠ o := by
      rintro rfl
      rw [ho] at ho'
      exact hne (Option.some.inj ho').symm
    exact ⟨o', by rw [Function.update_of_ne hne', ho']⟩
  · intro o₁ o₂ r' h₁ h₂
    exact h.unique o₁ o₂ r' (hother o₁ r' h₁).2 (hother o₂ r' h₂).2

/-- An object without a resource takes what another one holds. -/
theorem exchange (h : Exclusive held alive) (ho : held o = none) (hne : o ≠ o') :
    Exclusive (Function.update (Function.update held o (held o')) o' none) alive := by
  cases hheld : held o' with
  | none =>
      have hsame : Function.update (Function.update held o none) o' none = held := by
        have hfirst : Function.update held o none = held := by
          rw [← ho, Function.update_eq_self]
        rw [hfirst, ← hheld, Function.update_eq_self]
      rw [hsame]
      exact h
  | some r =>
      have hlive := h.mem_alive o' r hheld
      have hreleased := h.release hheld
      have htaken := hreleased.acquire (o := o) (r := r)
        (by rw [Function.update_of_ne hne, ho]) (fun hr => hr.2 rfl)
      rw [Set.insert_sdiff_singleton, Set.insert_eq_of_mem hlive,
        Function.update_comm hne.symm] at htaken
      exact htaken

end Exclusive

/-- The resources `0, …, acquired - 1` have been acquired, those of `released` have been
released since, each once, and `alive` are the others. -/
structure Lifetimes (acquired : ℕ) (released : List ℕ) (alive : Set ℕ) : Prop where
  nodup : released.Nodup
  lt_acquired : ∀ r ∈ released, r < acquired
  alive_iff : ∀ r, r ∈ alive ↔ r < acquired ∧ r ∉ released

namespace Lifetimes

variable {acquired : ℕ} {released : List ℕ} {alive : Set ℕ} {r : ℕ}

theorem empty : Lifetimes 0 [] ∅ where
  nodup := List.nodup_nil
  lt_acquired := by simp
  alive_iff := by simp

theorem not_mem_alive (h : Lifetimes acquired released alive) : acquired ∉ alive := fun hr =>
  absurd ((h.alive_iff _).mp hr).1 (lt_irrefl _)

theorem acquire (h : Lifetimes acquired released alive) :
    Lifetimes (acquired + 1) released (insert acquired alive) where
  nodup := h.nodup
  lt_acquired r hr := Nat.lt_succ_of_lt (h.lt_acquired r hr)
  alive_iff r := by
    have hfresh : acquired ∉ released := fun hr => absurd (h.lt_acquired _ hr) (lt_irrefl _)
    rw [Set.mem_insert_iff, h.alive_iff]
    constructor
    · rintro (rfl | ⟨hlt, hr⟩)
      · exact ⟨Nat.lt_succ_self _, hfresh⟩
      · exact ⟨Nat.lt_succ_of_lt hlt, hr⟩
    · rintro ⟨hlt, hr⟩
      rcases Nat.lt_succ_iff_lt_or_eq.mp hlt with hlt | rfl
      · exact .inr ⟨hlt, hr⟩
      · exact .inl rfl

theorem release (h : Lifetimes acquired released alive) (hr : r ∈ alive) :
    Lifetimes acquired (released ++ [r]) (alive \ {r}) where
  nodup := by
    rw [List.nodup_append_comm, List.singleton_append, List.nodup_cons]
    exact ⟨((h.alive_iff r).mp hr).2, h.nodup⟩
  lt_acquired r' hr' := by
    rcases List.mem_append.mp hr' with hr' | hr'
    · exact h.lt_acquired r' hr'
    · rw [List.mem_singleton.mp hr']
      exact ((h.alive_iff r).mp hr).1
  alive_iff r' := by
    rw [Set.mem_sdiff, Set.mem_singleton_iff, h.alive_iff, List.mem_append, List.mem_singleton]
    tauto

/-- Every resource acquired so far has been released once or is alive. -/
theorem count_released [DecidablePred (· ∈ alive)] (h : Lifetimes acquired released alive)
    (hr : r < acquired) : released.count r = if r ∈ alive then 0 else 1 := by
  split
  next halive => exact List.count_eq_zero.mpr ((h.alive_iff r).mp halive).2
  next halive =>
      refine List.count_eq_one_of_mem h.nodup ?_
      by_contra hmem
      exact halive ((h.alive_iff r).mpr ⟨hr, hmem⟩)

/-- There are as many resources alive as acquired and not released. -/
theorem ncard_add_length (h : Lifetimes acquired released alive) :
    alive.ncard + released.length = acquired := by
  have hset : alive = ↑(Finset.range acquired \ released.toFinset) := by
    ext r
    simp [h.alive_iff]
  have hsub : released.toFinset ⊆ Finset.range acquired := by
    intro r hr
    exact Finset.mem_range.mpr (h.lt_acquired r (List.mem_toFinset.mp hr))
  have hcard := Finset.card_sdiff_add_card_eq_card hsub
  rw [List.toFinset_card_of_nodup h.nodup, Finset.card_range] at hcard
  rw [hset, Set.ncard_coe_finset]
  exact hcard

end Lifetimes

section Reachability

open Relation

variable {r r' : κ → κ → Prop} {a b : κ}

/-- What can be reached is still reached when the steps on the way are still there. -/
theorem transGen_of_steps (h : TransGen r a b)
    (hstep : ∀ c d, ReflTransGen r a c → r c d → r' c d) : TransGen r' a b := by
  induction h with
  | single hab => exact .single (hstep a _ .refl hab)
  | tail hac hcd ih => exact ih.tail (hstep _ _ hac.to_reflTransGen hcd)

/-- What can be reached lies in a set that no step leaves. -/
theorem mem_of_transGen {p : κ → Prop} (h : TransGen r a b) (hfirst : ∀ c, r a c → p c)
    (hstep : ∀ c d, p c → r c d → p d) : p b := by
  induction h with
  | single hab => exact hfirst _ hab
  | tail _ hcd ih => exact hstep _ _ ih hcd

end Reachability

end CppWorkspace.Lib
