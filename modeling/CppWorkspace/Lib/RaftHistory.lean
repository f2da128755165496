import CppWorkspace.Lib.RaftRuns

/-!
One history. All prefixes that were ever committed lie on one line, so that finitely
many of them have one that holds them all.
-/

namespace CppWorkspace.Lib.Raft

open World

variable {ι ε : Type*} [Fintype ι] {termOf : ε → Nat} {w w' : World ι ε}

/-- A prefix that was committed in some term. -/
def Chosen (termOf : ε → Nat) (w : World ι ε) (p : List ε) : Prop := ∃ U, CommittedBy termOf w U p

theorem Chosen.nil : Chosen termOf w [] := ⟨0, .inl rfl⟩

theorem Chosen.mono {p : List ε} (h : Chosen termOf w p) (hgrows : Grows w w') :
    Chosen termOf w' p := by
  obtain ⟨U, hby⟩ := h
  exact ⟨U, hby.mono hgrows le_rfl⟩

theorem Commit.chosen {T : Nat} {p : List ε} (h : Commit termOf w T p) : Chosen termOf w p :=
  ⟨T, .inr ⟨T, p, le_rfl, h, List.prefix_rfl⟩⟩

/-- What was committed up to a term and what was committed in it are prefixes of its
leader's log. -/
theorem CommittedBy.meets_commit (hcomplete : Complete termOf w) {T U : Nat} {p q : List ε}
    (hp : CommittedBy termOf w T p) (hq : Commit termOf w U q) (hle : T ≤ U) :
    p <+: q ∨ q <+: p := by
  obtain ⟨⟨c, l, hl, hql, -⟩, -⟩ := hq
  have hp' : CommittedBy termOf w U p :=
    hp.imp_right fun ⟨T', r, hT', hcommit, hpr⟩ => ⟨T', r, hT'.trans hle, hcommit, hpr⟩
  exact List.prefix_or_prefix_of_prefix (hp'.prefix_leaderLog hcomplete hl) hql

theorem Commit.comparable (hcomplete : Complete termOf w) {T U : Nat} {p q : List ε}
    (hp : Commit termOf w T p) (hq : Commit termOf w U q) : p <+: q ∨ q <+: p := by
  rcases Nat.le_total T U with hle | hge
  · exact CommittedBy.meets_commit hcomplete (.inr ⟨T, p, le_rfl, hp, List.prefix_rfl⟩) hq hle
  · exact (CommittedBy.meets_commit hcomplete (.inr ⟨U, q, le_rfl, hq, List.prefix_rfl⟩) hp
      hge).symm

theorem Chosen.comparable (hcomplete : Complete termOf w) {p q : List ε}
    (hp : Chosen termOf w p) (hq : Chosen termOf w q) : p <+: q ∨ q <+: p := by
  obtain ⟨-, rfl | ⟨T, r, -, hr, hpr⟩⟩ := hp
  · exact .inl List.nil_prefix
  obtain ⟨-, rfl | ⟨U, s, -, hs, hqs⟩⟩ := hq
  · exact .inr List.nil_prefix
  rcases hr.comparable hcomplete hs with hrs | hsr
  · exact List.prefix_or_prefix_of_prefix (hpr.trans hrs) hqs
  · exact List.prefix_or_prefix_of_prefix hpr (hqs.trans hsr)

/-- Finitely many of them have a longest one. -/
theorem exists_chosen_above (hcomplete : Complete termOf w) {κ : Type*} [Finite κ]
    {p : κ → List ε} (hp : ∀ k, Chosen termOf w (p k)) :
    ∃ l, Chosen termOf w l ∧ ∀ k, p k <+: l := by
  rcases isEmpty_or_nonempty κ with hempty | hsome
  · exact ⟨[], .nil, fun k => (hempty.false k).elim⟩
  · obtain ⟨top, htop⟩ := Finite.exists_max fun k => (p k).length
    refine ⟨p top, hp top, ?_⟩
    intro k
    rcases (hp k).comparable hcomplete (hp top) with hle | hge
    · exact hle
    · rw [hge.eq_of_length (le_antisymm hge.length_le (htop k))]

end CppWorkspace.Lib.Raft
