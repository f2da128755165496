import Mathlib

/-!
Sieving by trial division: the first number of a list stays and its multiples
go, and so on with what is left. From all numbers from two on this leaves the
primes.
-/

namespace CppWorkspace.Lib

def trialSieve : List ℕ → List ℕ
  | [] => []
  | p :: rest => p :: trialSieve (rest.filter (fun n => n % p ≠ 0))
termination_by l => l.length
decreasing_by
  rw [List.length_unattach]
  refine Nat.lt_succ_of_le ((List.length_filter_le _ _).trans ?_)
  rw [List.length_attach]

namespace TrialSieve

/-- No prime below `k` divides the number. -/
def Survives (k n : ℕ) : Prop := ∀ q, q < k → q.Prime → ¬ q ∣ n

instance (k n : ℕ) : Decidable (Survives k n) :=
  inferInstanceAs (Decidable (∀ q, q < k → q.Prime → ¬ q ∣ n))

theorem survives_self {k : ℕ} (hk : k.Prime) : Survives k k := by
  intro q hq hprime hdvd
  exact hq.ne ((Nat.prime_dvd_prime_iff_eq hprime hk).mp hdvd)

theorem not_survives {k : ℕ} (hk : 2 ≤ k) (hnot : ¬ k.Prime) : ¬ Survives k k := by
  intro h
  have hlt : k.minFac < k := (Nat.not_prime_iff_minFac_lt hk).mp hnot
  exact h k.minFac hlt (Nat.minFac_prime (by omega)) (Nat.minFac_dvd k)

theorem survives_succ_of_prime {k : ℕ} (hk : k.Prime) (n : ℕ) :
    Survives (k + 1) n ↔ n % k ≠ 0 ∧ Survives k n := by
  constructor
  · intro h
    refine ⟨fun hzero => ?_, fun q hq => h q (Nat.lt_succ_of_lt hq)⟩
    exact h k (Nat.lt_succ_self k) hk (Nat.dvd_of_mod_eq_zero hzero)
  · rintro ⟨hmod, h⟩ q hq hprime hdvd
    rcases Nat.lt_succ_iff_lt_or_eq.mp hq with hlt | rfl
    · exact h q hlt hprime hdvd
    · exact hmod (Nat.mod_eq_zero_of_dvd hdvd)

theorem survives_succ_of_not_prime {k : ℕ} (hk : ¬ k.Prime) (n : ℕ) :
    Survives (k + 1) n ↔ Survives k n := by
  constructor
  · exact fun h q hq => h q (Nat.lt_succ_of_lt hq)
  · intro h q hq hprime hdvd
    rcases Nat.lt_succ_iff_lt_or_eq.mp hq with hlt | rfl
    · exact h q hlt hprime hdvd
    · exact hk hprime

/-- Of the numbers from `k` on that no smaller prime divides, the sieve leaves
the primes. -/
theorem trialSieve_survivors {k : ℕ} (hk : 2 ≤ k) (n : ℕ) :
    trialSieve ((List.range' k n).filter (fun m => Survives k m)) =
      (List.range' k n).filter (fun m => m.Prime) := by
  induction n generalizing k with
  | zero => simp [trialSieve]
  | succ n ih =>
      have hrest := ih (Nat.le_succ_of_le hk)
      rw [List.range'_succ]
      by_cases hprime : k.Prime
      · rw [List.filter_cons_of_pos (by simpa using survives_self hprime),
          List.filter_cons_of_pos (by simpa using hprime), trialSieve, ← hrest]
        congr 2
        rw [List.filter_filter]
        apply List.filter_congr
        intro m _
        simp [survives_succ_of_prime hprime]
      · rw [List.filter_cons_of_neg (by simpa using not_survives hk hprime),
          List.filter_cons_of_neg (by simpa using hprime), ← hrest]
        congr 1
        apply List.filter_congr
        intro m _
        simp [survives_succ_of_not_prime hprime]

/-- The primes up to `n`, in increasing order. -/
def primesUpTo (n : ℕ) : List ℕ := (List.range (n + 1)).filter (fun m => m.Prime)

theorem primesUpTo_eq (n : ℕ) :
    primesUpTo n = (List.range' 2 (n + 1 - 2)).filter (fun m => m.Prime) := by
  rw [primesUpTo, List.range_eq_range']
  rcases Nat.lt_or_ge n 1 with hn | hn
  · have hzero : n = 0 := by omega
    subst hzero
    rfl
  · obtain ⟨k, rfl⟩ : ∃ k, n = k + 1 := ⟨n - 1, by omega⟩
    rw [List.range'_succ, List.range'_succ, List.filter_cons_of_neg (by simp [Nat.not_prime_zero]),
      List.filter_cons_of_neg (by simp [Nat.not_prime_one])]
    rfl

theorem trialSieve_range (n : ℕ) : trialSieve (List.range' 2 (n + 1 - 2)) = primesUpTo n := by
  rw [primesUpTo_eq, ← trialSieve_survivors (Nat.le_refl 2)]
  congr 1
  rw [eq_comm, List.filter_eq_self]
  intro m _
  simp only [decide_eq_true_eq]
  intro q hq hprime
  have hle := hprime.two_le
  omega

end TrialSieve

end CppWorkspace.Lib
