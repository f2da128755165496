import CppWorkspace.Csp.Sieve
import CppWorkspace.Lib.TrialSieve

/-!
What is still to come out of each stage of the chain. A step moves a value
along without changing what comes out further down, so what `sieve` has
received, with what it will receive, is always the list of the primes.
-/

namespace CppWorkspace.Csp.CspSieve

open Lib System TrialSieve

/-- The values that `generate` has still to send. -/
def GeneratePc.remaining (n : ℕ) : GeneratePc → List ℕ
  | .sending value => List.range' value (n + 1 - value)
  | .returned => []

def FilterPc.held : FilterPc → List ℕ
  | .sending value => [value]
  | .receiving | .returned => []

/-- What a filter makes of what it has still to read. -/
def Filter.output (f : Filter) (input : List ℕ) : List ℕ :=
  f.pc.held ++ input.filter (fun value => value % f.prime ≠ 0)

/-- The values still to pass through a channel. -/
def State.stream (limit : ℤ) (s : State) : ℕ → List ℕ
  | 0 => s.generate.remaining limit.toNat
  | i + 1 =>
      match s.filters[i]? with
      | none => []
      | some f => f.output (s.stream limit i)

structure Sieving (limit : ℤ) (s : State) : Prop where
  positive : ∀ value, s.generate = .sending value → 1 ≤ value
  primes : s.filters.map Filter.prime = s.received
  conserved : s.received ++ trialSieve (s.stream limit s.filters.length) =
    primesUpTo limit.toNat

theorem sieving_initial (limit : ℤ) : Sieving limit {} where
  positive value h := by
    cases h
    decide
  primes := rfl
  conserved := trialSieve_range limit.toNat

section Streams

variable {limit : ℤ} {s s' : State}

/-- A stream depends on the stages before it. -/
theorem stream_congr (hgenerate : s'.generate = s.generate) {n : ℕ}
    (hfilters : ∀ i, i < n → s'.filters[i]? = s.filters[i]?) :
    s'.stream limit n = s.stream limit n := by
  induction n with
  | zero => rw [State.stream, State.stream, hgenerate]
  | succ n ih =>
      have hbefore := ih fun i hi => hfilters i (Nat.lt_succ_of_lt hi)
      rw [State.stream, State.stream, hfilters n (Nat.lt_succ_self n), hbefore]

/-- Where a stream is the same, the later ones are. -/
theorem stream_congr_from {k : ℕ} (hstream : s'.stream limit k = s.stream limit k)
    (hfilters : ∀ i, k ≤ i → s'.filters[i]? = s.filters[i]?) {n : ℕ} (hn : k ≤ n) :
    s'.stream limit n = s.stream limit n := by
  induction n, hn using Nat.le_induction with
  | base => exact hstream
  | succ n hn ih => rw [State.stream, State.stream, hfilters n hn, ih]

/-- What a send does: the value goes, and the other stages are as they were. -/
theorem sent_stream {value stage : ℕ} (hsends : s.Sends limit value stage) :
    s.stream limit stage = value :: (s.sent value stage).stream limit stage ∧
      (∀ i, i + 1 ≠ stage → (s.sent value stage).filters[i]? = s.filters[i]?) ∧
      (s.sent value stage).filters.length = s.filters.length := by
  cases stage with
  | zero =>
      obtain ⟨hpc, hle⟩ := hsends
      have hlength : limit.toNat + 1 - value = limit.toNat + 1 - (value + 1) + 1 := by omega
      refine ⟨?_, fun _ _ => rfl, rfl⟩
      simp only [State.stream, State.sent, hpc, GeneratePc.remaining]
      rw [hlength, List.range'_succ]
  | succ j =>
      obtain ⟨prime, hpc⟩ := hsends
      have hgenerate : (s.sent value (j + 1)).generate = s.generate := rfl
      have hother : ∀ i, i + 1 ≠ j + 1 →
          (s.sent value (j + 1)).filters[i]? = s.filters[i]? := by
        intro i hi
        have hne : j ≠ i := fun h => hi (congrArg (· + 1) h.symm)
        simp [State.sent, hne]
      have hself : (s.sent value (j + 1)).filters[j]? = some ⟨prime, .receiving⟩ := by
        simp [State.sent, hpc]
      have hbefore : (s.sent value (j + 1)).stream limit j = s.stream limit j :=
        stream_congr hgenerate fun i hi => hother i (by omega)
      refine ⟨?_, hother, by simp [State.sent]⟩
      simp only [State.stream, hpc, hself, hbefore]
      rfl

theorem map_prime_modify (filters : List Filter) (i : ℕ) (change : Filter → Filter)
    (hchange : ∀ f, (change f).prime = f.prime) :
    (filters.modify i change).map Filter.prime = filters.map Filter.prime := by
  apply List.ext_getElem?
  intro j
  rw [List.getElem?_map, List.getElem?_map, List.getElem?_modify]
  cases filters[j]? with
  | none => rfl
  | some f => by_cases hij : i = j <;> simp [hij, hchange]

theorem Sieving.sent (h : Sieving limit s) (value stage : ℕ) :
    (∀ next, (s.sent value stage).generate = .sending next → 1 ≤ next) ∧
      (s.sent value stage).filters.map Filter.prime = s.received ∧
      (s.sent value stage).received = s.received := by
  cases stage with
  | zero =>
      refine ⟨fun next hnext => ?_, h.primes, rfl⟩
      cases hnext
      exact Nat.le_add_left 1 value
  | succ j =>
      have hmap := map_prime_modify s.filters j (fun f => { f with pc := .receiving })
        (fun _ => rfl)
      exact ⟨h.positive, hmap.trans h.primes, rfl⟩

/-- A filter that receives a value. -/
theorem receive_output {prime value : ℕ} {input : List ℕ} :
    (Filter.receive ⟨prime, .receiving⟩ value).output input =
      Filter.output ⟨prime, .receiving⟩ (value :: input) := by
  by_cases hvalue : value % prime ≠ 0
  · simp [Filter.receive, Filter.output, FilterPc.held, hvalue]
  · push Not at hvalue
    simp [Filter.receive, Filter.output, FilterPc.held, hvalue]

theorem Sieving.pass (h : Sieving limit s) {stage value prime : ℕ}
    (hsends : s.Sends limit value stage) (hreader : s.filters[stage]? = some ⟨prime, .receiving⟩)
    (hgenerate : s'.generate = (s.sent value stage).generate)
    (hfilters : s'.filters =
      (s.sent value stage).filters.modify stage (fun f => f.receive value))
    (hreceived : s'.received = s.received) : Sieving limit s' := by
  obtain ⟨hstream, hother, hlength⟩ := sent_stream hsends
  obtain ⟨hpositive, hprimes, -⟩ := h.sent value stage
  have hbefore : s'.stream limit stage = (s.sent value stage).stream limit stage := by
    refine stream_congr hgenerate fun i hi => ?_
    simp [hfilters, Nat.ne_of_gt hi]
  have hself : s'.filters[stage]? = some (Filter.receive ⟨prime, .receiving⟩ value) := by
    simp [hfilters, hother stage (by omega), hreader]
  have hnext : s'.stream limit (stage + 1) = s.stream limit (stage + 1) := by
    simp only [State.stream, hself, hreader, hbefore, hstream, receive_output]
  have hlater : ∀ i, stage + 1 ≤ i → s'.filters[i]? = s.filters[i]? := by
    intro i hi
    have hne : stage ≠ i := by omega
    rw [← hother i (by omega)]
    simp [hfilters, hne]
  have hlt : stage < s.filters.length := (List.getElem?_eq_some_iff.mp hreader).1
  constructor
  · rw [hgenerate]
    exact hpositive
  · rw [hfilters, hreceived, map_prime_modify _ stage (fun f => f.receive value) (fun _ => rfl),
      hprimes]
  · rw [hreceived, show s'.filters.length = s.filters.length by simp [hfilters, hlength],
      stream_congr_from hnext hlater hlt]
    exact h.conserved

theorem Sieving.passToSieve (h : Sieving limit s) {value : ℕ}
    (hsends : s.Sends limit value s.filters.length)
    (hgenerate : s'.generate = (s.sent value s.filters.length).generate)
    (hfilters : s'.filters = (s.sent value s.filters.length).filters ++ [⟨value, .receiving⟩])
    (hreceived : s'.received = s.received ++ [value]) : Sieving limit s' := by
  obtain ⟨hstream, -, hlength⟩ := sent_stream hsends
  obtain ⟨hpositive, hprimes, -⟩ := h.sent value s.filters.length
  have hbefore : s'.stream limit s.filters.length =
      (s.sent value s.filters.length).stream limit s.filters.length := by
    refine stream_congr hgenerate fun i hi => ?_
    rw [hfilters]
    exact List.getElem?_append_left (by rw [hlength]; exact hi)
  have hself : s'.filters[s.filters.length]? = some ⟨value, .receiving⟩ := by
    rw [hfilters, List.getElem?_append_right (le_of_eq hlength), hlength, Nat.sub_self]
    rfl
  constructor
  · rw [hgenerate]
    exact hpositive
  · rw [hfilters, hreceived, List.map_append, hprimes]
    rfl
  · have hconserved := h.conserved
    rw [hstream, trialSieve] at hconserved
    rw [hreceived, show s'.filters.length = s.filters.length + 1 by simp [hfilters, hlength],
      State.stream, hself, List.append_assoc, ← hconserved, hbefore]
    rfl

theorem Sieving.generateCloses (h : Sieving limit s) {value : ℕ}
    (hpc : s.generate = .sending value) (hlimit : limit < (value : ℤ))
    (hgenerate : s'.generate = .returned) (hfilters : s'.filters = s.filters)
    (hreceived : s'.received = s.received) : Sieving limit s' := by
  have hpositive := h.positive value hpc
  have hsource : s'.stream limit 0 = s.stream limit 0 := by
    have hzero : limit.toNat + 1 - value = 0 := by omega
    simp only [State.stream, hpc, hgenerate, GeneratePc.remaining]
    rw [hzero, List.range'_zero]
  constructor
  · intro next hnext
    cases hgenerate.symm.trans hnext
  · rw [hfilters, hreceived]
    exact h.primes
  · rw [hreceived, stream_congr_from hsource (fun i _ => by rw [hfilters]) (Nat.zero_le _), hfilters]
    exact h.conserved

theorem Sieving.filterCloses (h : Sieving limit s) {i prime : ℕ}
    (hpc : s.filters[i]? = some ⟨prime, .receiving⟩) (hgenerate : s'.generate = s.generate)
    (hfilters : s'.filters = s.filters.modify i (fun f => { f with pc := .returned }))
    (hreceived : s'.received = s.received) : Sieving limit s' := by
  have hother : ∀ j, i ≠ j → s'.filters[j]? = s.filters[j]? := by
    intro j hj
    simp [hfilters, hj]
  have hself : s'.filters[i]? = some ⟨prime, .returned⟩ := by
    simp [hfilters, hpc]
  have hbefore : s'.stream limit i = s.stream limit i :=
    stream_congr hgenerate fun j hj => hother j (Nat.ne_of_gt hj)
  have hnext : s'.stream limit (i + 1) = s.stream limit (i + 1) := by
    simp only [State.stream, hself, hpc, hbefore]
    rfl
  have hlt : i < s.filters.length := (List.getElem?_eq_some_iff.mp hpc).1
  constructor
  · rw [hgenerate]
    exact h.positive
  · rw [hfilters, hreceived,
      map_prime_modify _ i (fun f => { f with pc := .returned }) (fun _ => rfl)]
    exact h.primes
  · rw [hreceived, show s'.filters.length = s.filters.length by simp [hfilters],
      stream_congr_from hnext (fun j hj => hother j (by omega)) hlt]
    exact h.conserved

theorem Sieving.step (h : Sieving limit s) {act : Act} (hstep : Step limit s act s') :
    Sieving limit s' := by
  cases act with
  | pass stage value =>
      obtain ⟨hsends, -, ⟨prime, hreader⟩, rfl⟩ := hstep
      exact h.pass hsends hreader rfl rfl (h.sent value stage).2.2
  | passToSieve value =>
      obtain ⟨hsends, -, -, rfl⟩ := hstep
      exact h.passToSieve hsends rfl rfl rfl
  | generateCloses =>
      obtain ⟨value, hpc, hlimit, rfl⟩ := hstep
      exact h.generateCloses hpc hlimit rfl rfl rfl
  | filterCloses i =>
      obtain ⟨prime, hpc, -, rfl⟩ := hstep
      exact h.filterCloses hpc rfl rfl rfl
  | sieveEnds =>
      obtain ⟨-, -, rfl⟩ := hstep
      refine ⟨h.positive, h.primes, ?_⟩
      have hsame : ({ s with sieve := .returned } : State).stream limit s.filters.length =
          s.stream limit s.filters.length :=
        stream_congr (show ({ s with sieve := .returned } : State).generate = s.generate from rfl)
          fun _ _ => rfl
      rw [hsame]
      exact h.conserved

/-- Nothing comes out of stages that have returned. -/
theorem stream_returned (hgenerate : s.generate = .returned)
    (hfilters : ∀ f ∈ s.filters, f.pc = .returned) (n : ℕ) : s.stream limit n = [] := by
  induction n with
  | zero => rw [State.stream, hgenerate, GeneratePc.remaining]
  | succ n ih =>
      rw [State.stream]
      cases hf : s.filters[n]? with
      | none => rfl
      | some f =>
          have hpc := hfilters f (List.mem_of_getElem? hf)
          simp [Filter.output, hpc, FilterPc.held, ih]

end Streams

end CppWorkspace.Csp.CspSieve
