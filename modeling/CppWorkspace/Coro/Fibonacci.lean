import CppWorkspace.Coro.GeneratorDelivery

/-!
The generator `fibonacci` of `examples.cpp`, in any program that uses such generators. The
sum wraps around, so that the values are the Fibonacci numbers up to 2^64.
-/

namespace CppWorkspace.Coro

open Lib System

/-- Where `fibonacci` is suspended, with its variables. -/
inductive FibonacciPoint where
  | initial (count : UInt64)
  /-- At `co_yield a`. -/
  | yielded (count i a b : UInt64)
deriving DecidableEq, Repr

variable {κ E : Type}

/-- The head of the loop. -/
def fibonacciLoop (count i a b : UInt64) : Activation FibonacciPoint UInt64 E :=
  if i < count then .yields a (.yielded count i a b) else .returns

def fibonacci : FibonacciPoint → Activation FibonacciPoint UInt64 E
  | .initial count => fibonacciLoop count 0 0 1
  | .yielded count i a b => fibonacciLoop count (i + 1) b (a + b)

/-- The Fibonacci number, as it fits into 64 bits. -/
def fib64 (i : ℕ) : UInt64 := UInt64.ofNat (Nat.fib i)

def fibs64 (n : ℕ) : List UInt64 := (List.range n).map fib64

theorem fib64_add (i : ℕ) : fib64 i + fib64 (i + 1) = fib64 (i + 2) := by
  rw [fib64, fib64, fib64, Nat.fib_add_two, UInt64.ofNat_add]

theorem fibs64_succ (n : ℕ) : fibs64 (n + 1) = fibs64 n ++ [fib64 n] := by
  rw [fibs64, List.range_succ, List.map_append, List.map_singleton, fibs64]

/-- The largest Fibonacci number that fits is the 93rd. -/
theorem fib64_exact_iff (i : ℕ) : (fib64 i).toNat = Nat.fib i ↔ i ≤ 93 := by
  have hwrap : (fib64 i).toNat = Nat.fib i % 2 ^ 64 := UInt64.toNat_ofNat'
  rw [hwrap]
  constructor
  · intro hexact
    by_contra hlarge
    have hfits : Nat.fib i < 2 ^ 64 := by
      rw [← hexact]
      exact Nat.mod_lt _ (by norm_num)
    have hmono : Nat.fib 94 ≤ Nat.fib i := Nat.fib_mono (by omega)
    have htoo : 2 ^ 64 ≤ Nat.fib 94 := by norm_num [Nat.fib_eq_fastFib]
    omega
  · intro hsmall
    have hmono : Nat.fib i ≤ Nat.fib 93 := Nat.fib_mono hsmall
    have hfits : Nat.fib 93 < 2 ^ 64 := by norm_num
    exact Nat.mod_eq_of_lt (by omega)

/-- How far the body has come when it has yielded this many values. -/
def FibonacciOk (count : UInt64) (yielded : ℕ) : Progress FibonacciPoint E → Prop
  | .suspended (.initial count') => count' = count ∧ yielded = 0
  | .suspended (.yielded count' i a b) => count' = count ∧ i < count ∧ yielded = i.toNat + 1 ∧
      a = fib64 i.toNat ∧ b = fib64 (i.toNat + 1)
  | .returned => yielded = count.toNat
  | .threw _ => False

section Body

variable {count : UInt64} {n : ℕ} {point : FibonacciPoint} {v : UInt64}

theorem toNat_succ {i : UInt64} (hi : i < count) : (i + 1).toNat = i.toNat + 1 := by
  have hlt : i.toNat < count.toNat := hi
  have hcount := count.toNat_lt
  rw [UInt64.toNat_add, UInt64.toNat_one]
  exact Nat.mod_eq_of_lt (by omega)

/-- The loop yields the next number when there is one left. -/
theorem fibonacciLoop_ok {i : UInt64} (hle : i.toNat ≤ count.toNat) :
    (i.toNat < count.toNat ∧
      (fibonacciLoop count i (fib64 i.toNat) (fib64 (i.toNat + 1)) : Activation _ _ E) =
        .yields (fib64 i.toNat) (.yielded count i (fib64 i.toNat) (fib64 (i.toNat + 1)))) ∨
    (i.toNat = count.toNat ∧
      (fibonacciLoop count i (fib64 i.toNat) (fib64 (i.toNat + 1)) : Activation _ _ E) =
        .returns) := by
  unfold fibonacciLoop
  split
  · next hmore => exact .inl ⟨hmore, rfl⟩
  · next hlast =>
    have hge : ¬ i.toNat < count.toNat := hlast
    exact .inr ⟨by omega, rfl⟩

/-- What the body does next: it yields the number whose turn it is, or it has yielded all. -/
theorem FibonacciOk.next (h : FibonacciOk (E := E) count n (.suspended point)) :
    (∃ point', fibonacci point = .yields (E := E) (fib64 n) point' ∧
      FibonacciOk (E := E) count (n + 1) (.suspended point')) ∨
    (n = count.toNat ∧ fibonacci point = .returns (V := UInt64) (E := E)) := by
  cases point with
  | initial count' =>
      obtain ⟨rfl, rfl⟩ := h
      rcases fibonacciLoop_ok (E := E) (i := 0) (Nat.zero_le count'.toNat) with
        ⟨hmore, heq⟩ | ⟨hlast, heq⟩
      · exact .inl ⟨_, heq, rfl, hmore, rfl, rfl, rfl⟩
      · exact .inr ⟨hlast, heq⟩
  | yielded count' i a b =>
      obtain ⟨rfl, hi, rfl, rfl, rfl⟩ := h
      have hsucc := toNat_succ hi
      have hle : (i + 1).toNat ≤ count'.toNat := by
        rw [hsucc]
        exact hi
      have hcases := fibonacciLoop_ok (E := E) hle
      rw [hsucc] at hcases
      have hcode : fibonacci (.yielded count' i (fib64 i.toNat) (fib64 (i.toNat + 1))) =
          (fibonacciLoop count' (i + 1) (fib64 (i.toNat + 1)) (fib64 (i.toNat + 1 + 1)) :
            Activation _ _ E) := by
        rw [fibonacci, fib64_add]
      rw [hcode]
      rcases hcases with ⟨hmore, heq⟩ | ⟨hlast, heq⟩
      · refine .inl ⟨_, heq, rfl, ?_, ?_, ?_, ?_⟩
        · change (i + 1).toNat < count'.toNat
          rw [hsucc]
          exact hmore
        · rw [hsucc]
        · rw [hsucc]
        · rw [hsucc]
      · exact .inr ⟨hlast, heq⟩

/-- The body yields the Fibonacci numbers, as many as it was asked for. -/
theorem emits_fibonacci {vs : List UInt64} {p : Progress FibonacciPoint E}
    (h : Emits fibonacci (.initial count) vs p) :
    vs = fibs64 vs.length ∧ FibonacciOk count vs.length p := by
  induction h with
  | start => exact ⟨rfl, rfl, rfl⟩
  | @yields vs point point' v _ hcode ih =>
      obtain ⟨hvs, hok⟩ := ih
      rcases hok.next with ⟨point'', heq, hok'⟩ | ⟨-, heq⟩
      · cases hcode.symm.trans heq
        rw [List.length_append, List.length_singleton, fibs64_succ, ← hvs]
        exact ⟨rfl, hok'⟩
      · cases hcode.symm.trans heq
  | returns _ hcode ih =>
      obtain ⟨hvs, hok⟩ := ih
      rcases hok.next with ⟨point', heq, -⟩ | ⟨hall, -⟩
      · cases hcode.symm.trans heq
      · exact ⟨hvs, hall⟩
  | throws _ hcode ih =>
      obtain ⟨-, hok⟩ := ih
      rcases hok.next with ⟨point', heq, -⟩ | ⟨-, heq⟩
      · cases hcode.symm.trans heq
      · cases hcode.symm.trans heq

theorem FibonacciOk.le {p : Progress FibonacciPoint E} (h : FibonacciOk count n p) :
    n ≤ count.toNat := by
  cases p with
  | suspended point =>
      cases point with
      | initial count' =>
          rw [h.2]
          exact Nat.zero_le _
      | yielded count' i a b =>
          rw [h.2.2.1]
          exact h.2.1
  | returned => exact le_of_eq h
  | threw e => exact h.elim

/-- How the calls are answered by a body that has come this far. -/
theorem FibonacciOk.answers {p : Progress FibonacciPoint E} (h : FibonacciOk count n p)
    (more : ℕ) : ∃ ends, p.answers n more =
      List.replicate n (.ok true) ++ List.replicate ends (.ok false) ∧
      (0 < ends → n = count.toNat) := by
  cases p with
  | suspended point => exact ⟨0, rfl, fun hends => absurd hends (Nat.lt_irrefl 0)⟩
  | returned => exact ⟨more + 1, rfl, fun _ => h⟩
  | threw e => exact h.elim

end Body

section Runs

variable [DecidableEq κ]

/-- In every program the generator delivers the Fibonacci numbers one for each call, `count`
of them and no more, and then its end; a range-for that makes the last calls has seen all
that were left. No number is cut off when there are at most 94 of them. -/
theorem fibonacci_delivers {stats : FrameStats} {actions : List (GeneratorAction κ FibonacciPoint)}
    {s : GeneratorState κ FibonacciPoint UInt64 E} {f : ℕ} {count : UInt64}
    (hrun : (generatorSystem fibonacci stats).Run (.init stats) actions s)
    (hbody : s.bodies[f]? = some (.initial count)) :
    (∃ n ends, n ≤ count.toNat ∧ (0 < ends → n = count.toNat) ∧
      (s.callsOn f).map (·.result) =
        List.replicate n (.ok true) ++ List.replicate ends (.ok false) ∧
      (∀ o, s.wrappers.handle o = some f → s.wrappers.value o = (fibs64 n).getLast?) ∧
      ∀ (i : ℕ) (loop : RangeFor κ UInt64 E), s.loops[i]? = some loop → loop.frame = some f →
        loop.visited = deliveredTo (some i) ((s.callsOn f).map (·.loop)) (fibs64 n) ∧
        (loop.status = .finished → n = count.toNat) ∧ (∀ e, loop.status ≠ .threw e) ∧
        ((∀ c ∈ (s.callsOn f).drop loop.before, c.loop = some i) →
          loop.visited = (fibs64 n).drop loop.before)) ∧
    ((∀ i < count.toNat, (fib64 i).toNat = Nat.fib i) ↔ count.toNat ≤ 94) := by
  refine ⟨?_, ?_⟩
  · have hconsistent := generatorSystem_consistent hrun
    obtain ⟨vs, p, hdelivers⟩ := hconsistent.delivers f _ hbody
    obtain ⟨hvs, hok⟩ := emits_fibonacci hdelivers.pulled.emits
    obtain ⟨more, hanswers⟩ := hdelivers.pulled.answered
    obtain ⟨ends, heq, hends⟩ := hok.answers more
    refine ⟨vs.length, ends, hok.le, hends, hanswers.trans heq, ?_, ?_⟩
    · intro o ho
      rw [← hvs]
      exact GeneratorState.value_eq hconsistent.owned ho hdelivers.matching
    · intro i loop hi hframe
      have hvisits := hdelivers.loops i loop hi hframe
      rw [← hvs]
      refine ⟨hvisits.visited, ?_, ?_, ?_⟩
      · intro hfinished
        have hpoint := hvisits.finished hfinished
        cases p with
        | suspended point => cases hpoint
        | returned => exact hok
        | threw e => exact hok.elim
      · intro e hthrew
        rw [hvisits.threw e hthrew] at hok
        exact hok
      · intro halone
        rw [hvisits.visited]
        refine deliveredTo_eq_drop (n := loop.before) ?_ ?_ ?_
        · rw [← List.map_take]
          exact hvisits.before
        · intro label hlabel
          rw [← List.map_drop] at hlabel
          obtain ⟨c, hc, rfl⟩ := List.mem_map.mp hlabel
          exact halone c hc
        · rw [List.length_map]
          exact hdelivers.length_le
  · constructor
    · intro hexact
      by_contra hmany
      have hlast := (fib64_exact_iff 94).mp (hexact 94 (not_le.mp hmany))
      exact absurd hlast (by decide)
    · intro hfew i hi
      exact (fib64_exact_iff i).mpr (by omega)

/-- A range-for over the first ten, with the call that finds the end. -/
def fibonacciTrace : List (GeneratorAction ℕ FibonacciPoint) :=
  [.object (.create 0 64 (.initial 10)), .begin 0] ++ List.replicate 10 (.iterate 0)

theorem fibonacci_delivers_ten : ∃ s : GeneratorState ℕ FibonacciPoint UInt64 Unit,
    (generatorSystem fibonacci ⟨0, 0, 0⟩).Run (.init ⟨0, 0, 0⟩) fibonacciTrace s ∧
      s.loops.map (·.visited) = [[0, 1, 1, 2, 3, 5, 8, 13, 21, 34]] ∧
      (∃ n ends, n ≤ 10 ∧ (s.callsOn 0).map (·.result) =
        List.replicate n (.ok true) ++ List.replicate ends (.ok false)) ∧
      ∀ i < 10, (fib64 i).toNat = Nat.fib i := by
  have hend : (fibonacciTrace.foldlM (GeneratorState.step fibonacci) (.init ⟨0, 0, 0⟩)).map
      (fun s : GeneratorState ℕ FibonacciPoint UInt64 Unit =>
        (s.loops.map (·.visited), s.bodies[0]?)) =
      some ([[0, 1, 1, 2, 3, 5, 8, 13, 21, 34]], some (.initial 10)) := by decide +kernel
  obtain ⟨s, hexec, hs⟩ := Option.map_eq_some_iff.mp hend
  obtain ⟨hvisited, hbody⟩ := Prod.mk.inj hs
  have hrun := Run.of_foldlM (S := generatorSystem fibonacci ⟨0, 0, 0⟩) (fun _ _ _ h => h) hexec
  obtain ⟨⟨n, ends, hle, -, hanswers, -⟩, hexact⟩ := fibonacci_delivers hrun hbody
  exact ⟨s, hrun, hvisited, ⟨n, ends, hle, hanswers⟩, hexact.mpr (by decide)⟩

end Runs

end CppWorkspace.Coro
