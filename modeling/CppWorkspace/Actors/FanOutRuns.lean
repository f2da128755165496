import CppWorkspace.Actors.FanOut

/-!
The sum that the requester prints. The chunks are the numbers from one on, cut at the
multiples of the chunk size; no partial sum is negative, so that an overflow anywhere is
an overflow of the total.
-/

namespace CppWorkspace.Actors.FanOut

open Lib System

/-- The sum of the numbers up to `n`. -/
def upTo (n : ℕ) : ℕ := ∑ value ∈ Finset.range (n + 1), value

theorem upTo_succ (n : ℕ) : upTo (n + 1) = upTo n + (n + 1) := Finset.sum_range_succ _ _

theorem upTo_mono {m n : ℕ} (h : m ≤ n) : upTo m ≤ upTo n :=
  Finset.sum_le_sum_of_subset (Finset.range_subset_range.mpr (Nat.succ_le_succ h))

theorem le_upTo (n : ℕ) : n ≤ upTo n := by
  cases n with
  | zero => exact Nat.zero_le _
  | succ n =>
      rw [upTo_succ]
      omega

theorem lt_upTo {n : ℕ} (h : 2 ≤ n) : n < upTo n := by
  obtain ⟨m, rfl⟩ : ∃ m, n = m + 1 := ⟨n - 1, by omega⟩
  have hle := le_upTo m
  rw [upTo_succ]
  omega

/-- The sum of a chunk. -/
def chunkSum (chunkSize index : ℕ) : ℤ := upTo ((index + 1) * chunkSize) - upTo (index * chunkSize)

theorem chunkSum_nonneg (chunkSize index : ℕ) : 0 ≤ chunkSum chunkSize index := by
  have hle := upTo_mono (Nat.mul_le_mul_right chunkSize (Nat.le_add_right index 1))
  unfold chunkSum
  omega

/-- The chunks are all the numbers. -/
theorem sum_chunkSum (workerCount chunkSize : ℕ) :
    ∑ index ∈ Finset.range workerCount, chunkSum chunkSize index =
      upTo (workerCount * chunkSize) := by
  have htelescope := Finset.sum_range_sub (fun index => (upTo (index * chunkSize) : ℤ)) workerCount
  have hzero : upTo (0 * chunkSize) = 0 := by
    rw [Nat.zero_mul]
    rfl
  rw [hzero, Nat.cast_zero, sub_zero] at htelescope
  exact htelescope

section Loop

theorem sumLoop_exact {a k : ℕ} {sum total : ℤ}
    (h : sumLoop ((a + k : ℕ) : ℤ) (a + 1) sum = some total) :
    total = sum + (upTo (a + k) - upTo a) := by
  induction k generalizing a sum with
  | zero =>
      rw [sumLoop, if_neg (by push_cast; omega)] at h
      cases h
      simp
  | succ k ih =>
      rw [sumLoop, if_pos (by push_cast; omega)] at h
      obtain ⟨-, hrest⟩ := Option.ite_none_right_eq_some.mp h
      have hshift : a + (k + 1) = a + 1 + k := by omega
      rw [hshift] at hrest ⊢
      have hsum := ih (a := a + 1) (by exact_mod_cast hrest)
      rw [hsum, upTo_succ]
      push_cast
      ring

theorem sumLoop_of_fits {a k : ℕ} {sum : ℤ} (hpos : 0 ≤ sum)
    (hsum : FitsInt64 (sum + (upTo (a + k) - upTo a))) (hlast : FitsInt64 ((a + k : ℕ) + 1)) :
    sumLoop ((a + k : ℕ) : ℤ) (a + 1) sum = some (sum + (upTo (a + k) - upTo a)) := by
  induction k generalizing a sum with
  | zero =>
      rw [sumLoop, if_neg (by push_cast; omega)]
      simp
  | succ k ih =>
      have hshift : a + (k + 1) = a + 1 + k := by omega
      rw [hshift] at hsum hlast ⊢
      have hmono := upTo_mono (Nat.le_add_right (a + 1) k)
      have hnext : (upTo (a + 1) : ℤ) = upTo a + (a + 1) := by exact_mod_cast upTo_succ a
      have hrest : sum + (upTo (a + 1 + k) - upTo a) =
          sum + (a + 1) + (upTo (a + 1 + k) - upTo (a + 1)) := by
        rw [hnext]
        ring
      have hfits : FitsInt64 (sum + (a + 1)) ∧ FitsInt64 ((a : ℤ) + 1 + 1) := by
        unfold FitsInt64 at hsum hlast ⊢
        push_cast at hlast
        omega
      rw [sumLoop, if_pos (by push_cast; omega), if_pos hfits]
      rw [hrest] at hsum ⊢
      have hall := @ih (a + 1) (sum + (a + 1)) (by omega) hsum hlast
      exact_mod_cast hall

variable {index chunkSize : ℤ}

/-- The loop of a worker, with the bounds of its chunk. -/
theorem rangeSummer_eq_some {sum : ℤ} (h : rangeSummer index chunkSize = some sum) :
    sumLoop ((index + 1) * chunkSize) (index * chunkSize + 1) 0 = some sum := by
  simp only [rangeSummer, Option.bind_eq_bind, Option.bind_eq_some_iff, int64_eq_some] at h
  obtain ⟨before, ⟨-, rfl⟩, first, ⟨-, rfl⟩, next, ⟨-, rfl⟩, last, ⟨-, rfl⟩, hloop⟩ := h
  exact hloop

theorem rangeSummer_eq_loop (hbefore : FitsInt64 (index * chunkSize))
    (hfirst : FitsInt64 (index * chunkSize + 1)) (hnext : FitsInt64 (index + 1))
    (hlast : FitsInt64 ((index + 1) * chunkSize)) :
    rangeSummer index chunkSize =
      sumLoop ((index + 1) * chunkSize) (index * chunkSize + 1) 0 := by
  simp only [rangeSummer, int64_of_fits hbefore, int64_of_fits hfirst, int64_of_fits hnext,
    int64_of_fits hlast, Option.bind_eq_bind, Option.bind_some]

end Loop

section Worker

variable {workerCount chunkSize index : ℕ}

theorem succ_mul_eq (index chunkSize : ℕ) :
    ((index : ℤ) + 1) * chunkSize = ((index * chunkSize + chunkSize : ℕ) : ℤ) := by
  push_cast
  ring

theorem zero_add_chunkSum (chunkSize index : ℕ) :
    0 + ((upTo (index * chunkSize + chunkSize) : ℤ) - upTo (index * chunkSize)) =
      chunkSum chunkSize index := by
  rw [zero_add, chunkSum, Nat.succ_mul]

theorem rangeSummer_exact {sum : ℤ} (h : rangeSummer index chunkSize = some sum) :
    sum = chunkSum chunkSize index := by
  have hloop := rangeSummer_eq_some h
  rw [succ_mul_eq, ← Nat.cast_mul] at hloop
  have hsum := sumLoop_exact hloop
  exact hsum.trans (zero_add_chunkSum chunkSize index)

/-- A worker whose chunk lies below a total that fits does not overflow. -/
theorem rangeSummer_of_fits (hindex : index < workerCount) (hcount : FitsInt64 workerCount)
    (hfits : FitsInt64 (upTo (workerCount * chunkSize))) :
    rangeSummer index chunkSize = some (chunkSum chunkSize index) := by
  have hend : index * chunkSize + chunkSize ≤ workerCount * chunkSize := by
    rw [← Nat.succ_mul]
    exact Nat.mul_le_mul_right chunkSize hindex
  have htotal := upTo_mono hend
  have hbelow : index * chunkSize + chunkSize ≤ 1 ∨
      index * chunkSize + chunkSize < upTo (index * chunkSize + chunkSize) := by
    rcases Nat.lt_or_ge (index * chunkSize + chunkSize) 2 with hsmall | hlarge
    · exact .inl (by omega)
    · exact .inr (lt_upTo hlarge)
  have hlast : FitsInt64 ((index * chunkSize + chunkSize : ℕ) + 1) := by
    unfold FitsInt64 at hfits ⊢
    omega
  have hbounds : FitsInt64 ((index * chunkSize + chunkSize : ℕ) : ℤ) := by
    unfold FitsInt64 at hlast ⊢
    omega
  have hfirst : FitsInt64 ((index * chunkSize : ℕ) + 1) := by
    unfold FitsInt64 at hlast ⊢
    omega
  have hbefore : FitsInt64 ((index * chunkSize : ℕ) : ℤ) := by
    unfold FitsInt64 at hfirst ⊢
    omega
  have hnext : FitsInt64 ((index : ℤ) + 1) := by
    unfold FitsInt64 at hcount ⊢
    omega
  have hsum : FitsInt64 (0 + ((upTo (index * chunkSize + chunkSize) : ℤ) -
      upTo (index * chunkSize))) := by
    have hnonneg := chunkSum_nonneg chunkSize index
    rw [← zero_add_chunkSum] at hnonneg
    unfold FitsInt64 at hfits ⊢
    omega
  have hloop := sumLoop_of_fits le_rfl hsum hlast
  rw [zero_add_chunkSum] at hloop
  rw [Nat.cast_mul] at hbefore hfirst hloop
  rw [← succ_mul_eq] at hbounds hloop
  rw [rangeSummer_eq_loop hbefore hfirst hnext hbounds]
  exact hloop

end Worker

section Requester

theorem accumulate_exact {sums : List ℤ} {start total : ℤ}
    (h : accumulate sums start = some total) :
    total = start + sums.sum ∧ (sums ≠ [] → FitsInt64 total) := by
  induction sums generalizing start with
  | nil =>
      cases h
      simp
  | cons sum rest ih =>
      obtain ⟨next, hnext, hrest⟩ := Option.bind_eq_some_iff.mp h
      obtain ⟨hfits, rfl⟩ := int64_eq_some.mp hnext
      obtain ⟨hsum, hlater⟩ := ih hrest
      refine ⟨by rw [hsum, List.sum_cons, add_assoc], ?_⟩
      intro _
      cases rest with
      | nil =>
          rw [hsum, List.sum_nil, add_zero]
          exact hfits
      | cons _ _ => exact hlater (List.cons_ne_nil _ _)

theorem accumulate_of_fits {sums : List ℤ} {start : ℤ} (hstart : 0 ≤ start)
    (hsums : ∀ sum ∈ sums, 0 ≤ sum) (hfits : FitsInt64 (start + sums.sum)) :
    accumulate sums start = some (start + sums.sum) := by
  induction sums generalizing start with
  | nil => simp [accumulate]
  | cons sum rest ih =>
      have hsum := hsums sum List.mem_cons_self
      have hrest : ∀ sum ∈ rest, 0 ≤ sum := fun sum hmem => hsums sum (List.mem_cons_of_mem _ hmem)
      have hlater := List.sum_nonneg hrest
      rw [List.sum_cons, ← add_assoc] at hfits ⊢
      have hnext : FitsInt64 (start + sum) := by
        unfold FitsInt64 at hfits ⊢
        omega
      simp only [accumulate, int64_of_fits hnext, Option.bind_eq_bind, Option.bind_some]
      exact ih (by omega) hrest hfits

end Requester

section Runs

variable {workerCount chunkSize : ℕ} {s s' : State} {event : Event}

/-- The replies that have come while the requester waits. -/
structure Collected (workerCount chunkSize : ℕ) (s : State) : Prop where
  order : ∃ order : List ℕ, order.Nodup ∧
    (∀ index, index ∈ order ↔ index < workerCount ∧ s.worker index = .answered) ∧
    s.partialSums = order.map (chunkSum chunkSize) ∧ order.length < workerCount

/-- What the place of a worker says about its chunk. -/
def Worked (chunkSize index : ℕ) : WorkerPc → Prop
  | .replied sum => rangeSummer index chunkSize = some sum
  | .undefined => rangeSummer index chunkSize = none
  | .requested | .answered => True

/-- What the place of the requester says about the replies. -/
def Answer (workerCount chunkSize : ℕ) (s : State) : RequesterPc → Prop
  | .waiting => Collected workerCount chunkSize s
  | .printed total => total = upTo (workerCount * chunkSize) ∧ FitsInt64 total
  | .failed => True
  | .undefined => ¬ FitsInt64 (upTo (workerCount * chunkSize))

structure Inv (workerCount chunkSize : ℕ) (s : State) : Prop where
  worked : ∀ index < workerCount, Worked chunkSize index (s.worker index)
  answer : Answer workerCount chunkSize s s.requester

theorem inv_initial (hcount : 0 < workerCount) : Inv workerCount chunkSize {} where
  worked _ _ := trivial
  answer := ⟨[], List.nodup_nil, by simp, rfl, hcount⟩

theorem setWorker_self (s : State) (index : ℕ) (pc : WorkerPc) :
    (s.setWorker index pc).worker index = pc := Function.update_self ..

theorem setWorker_of_ne {index other : ℕ} (h : other ≠ index) (s : State) (pc : WorkerPc) :
    (s.setWorker index pc).worker other = s.worker other := Function.update_of_ne h ..

theorem Inv.setWorker (h : Inv workerCount chunkSize s) {index : ℕ} {pc : WorkerPc}
    (hpc : Worked chunkSize index pc) :
    ∀ other < workerCount, Worked chunkSize other ((s.setWorker index pc).worker other) := by
  intro other hother
  rcases eq_or_ne other index with rfl | hne
  · rwa [setWorker_self]
  · rw [setWorker_of_ne hne]
    exact h.worked other hother

@[simp] theorem collect_worker (s : State) (sum : ℤ) :
    (s.collect workerCount sum).worker = s.worker := by
  cases hrequester : s.requester with
  | waiting =>
      simp only [State.collect, hrequester]
      split <;> rfl
  | printed total => simp only [State.collect, hrequester]
  | failed => simp only [State.collect, hrequester]
  | undefined => simp only [State.collect, hrequester]

theorem worked_afterWork (chunkSize index : ℕ) :
    Worked chunkSize index (State.afterWork (rangeSummer index chunkSize)) := by
  cases hwork : rangeSummer index chunkSize with
  | some sum => exact hwork
  | none => exact hwork

theorem Inv.computes (h : Inv workerCount chunkSize s) {index : ℕ}
    (hrequested : s.worker index = .requested) :
    Inv workerCount chunkSize
      (s.setWorker index (State.afterWork (rangeSummer index chunkSize))) where
  worked := h.setWorker (worked_afterWork chunkSize index)
  answer := by
    have hanswer := h.answer
    change Answer _ _ _ s.requester
    cases hrequester : s.requester with
    | waiting =>
        rw [hrequester] at hanswer
        obtain ⟨order, hnodup, hmem, hsums, hlength⟩ := Collected.order hanswer
        refine ⟨order, hnodup, ?_, hsums, hlength⟩
        intro other
        rw [hmem other]
        rcases eq_or_ne other index with rfl | hne
        · rw [setWorker_self, hrequested]
          cases rangeSummer other chunkSize <;> simp [State.afterWork]
        · rw [setWorker_of_ne hne]
    | printed total => rwa [hrequester] at hanswer
    | failed => trivial
    | undefined => rwa [hrequester] at hanswer

/-- A reply counts once: the worker that answers has not answered before. -/
theorem Collected.answered (h : Collected workerCount chunkSize s) {index : ℕ} {sum : ℤ}
    (hindex : index < workerCount) (hreplied : s.worker index = .replied sum)
    (hsum : sum = chunkSum chunkSize index) :
    ∃ order : List ℕ, order.Nodup ∧
      (∀ other, other ∈ order ↔
        other < workerCount ∧ (s.setWorker index .answered).worker other = .answered) ∧
      s.partialSums ++ [sum] = order.map (chunkSum chunkSize) ∧ order.length ≤ workerCount := by
  obtain ⟨order, hnodup, hmem, hsums, hlength⟩ := h.order
  have hnew : index ∉ order := by
    rw [hmem, hreplied]
    simp
  refine ⟨order ++ [index], ?_, ?_, ?_, ?_⟩
  · exact hnodup.append (List.nodup_singleton index) (List.disjoint_singleton.mpr hnew)
  · intro other
    rw [List.mem_append, List.mem_singleton, hmem]
    rcases eq_or_ne other index with rfl | hne
    · simp [setWorker_self, hindex]
    · simp [setWorker_of_ne hne, hne]
  · rw [List.map_append, List.map_singleton, hsums, hsum]
  · rw [List.length_append, List.length_singleton]
    omega

/-- The replies of all workers, in the order in which they have come. -/
theorem sum_of_order {order : List ℕ} (hnodup : order.Nodup)
    (hbelow : ∀ index ∈ order, index < workerCount) (hlength : order.length = workerCount) :
    (order.map (chunkSum chunkSize)).sum = upTo (workerCount * chunkSize) := by
  have hsubset : order ⊆ List.range workerCount := fun index hindex =>
    List.mem_range.mpr (hbelow index hindex)
  have hperm : order.Perm (List.range workerCount) :=
    (hnodup.subperm hsubset).perm_of_length_le (by rw [List.length_range, hlength])
  rw [(hperm.map (chunkSum chunkSize)).sum_eq, ← sum_chunkSum]
  rfl

/-- What the requester prints when it has all replies. -/
theorem answer_afterTotal {sums : List ℤ} (hnonneg : ∀ sum ∈ sums, 0 ≤ sum) (hsome : sums ≠ [])
    (htotal : sums.sum = upTo (workerCount * chunkSize)) :
    Answer workerCount chunkSize s (State.afterTotal (accumulate sums 0)) := by
  cases haccumulate : accumulate sums 0 with
  | some total =>
      obtain ⟨heq, hfits⟩ := accumulate_exact haccumulate
      rw [htotal, zero_add] at heq
      exact ⟨heq, hfits hsome⟩
  | none =>
      intro hfits
      have hdefined := accumulate_of_fits le_rfl hnonneg (by rwa [htotal, zero_add])
      rw [haccumulate] at hdefined
      cases hdefined

theorem Inv.replies (h : Inv workerCount chunkSize s) {index : ℕ} {sum : ℤ}
    (hindex : index < workerCount) (hreplied : s.worker index = .replied sum) :
    Inv workerCount chunkSize ((s.setWorker index .answered).collect workerCount sum) where
  worked := by
    rw [collect_worker]
    exact h.setWorker trivial
  answer := by
    have hworked := h.worked index hindex
    rw [hreplied] at hworked
    have hanswer := h.answer
    cases hrequester : s.requester with
    | waiting =>
        rw [hrequester] at hanswer
        obtain ⟨order, hnodup, hmem, hsums, hlength⟩ :=
          Collected.answered hanswer hindex hreplied (rangeSummer_exact hworked)
        have hnonneg : ∀ sum' ∈ s.partialSums ++ [sum], 0 ≤ sum' := by
          rw [hsums]
          intro sum' hmem'
          obtain ⟨other, -, rfl⟩ := List.mem_map.mp hmem'
          exact chunkSum_nonneg chunkSize other
        have hreplies : (s.partialSums ++ [sum]).length = order.length := by
          rw [hsums, List.length_map]
        rcases hlength.eq_or_lt with hall | hless
        · have htotal := @sum_of_order _ chunkSize _ hnodup
            (fun other hother => ((hmem other).mp hother).1) hall
          rw [← hsums] at htotal
          simp only [State.collect, State.setWorker, hrequester, hreplies, hall, if_true]
          exact answer_afterTotal hnonneg (by simp) htotal
        · simp only [State.collect, State.setWorker, hrequester, hreplies, hless.ne, if_false]
          exact ⟨order, hnodup, hmem, hsums, hless⟩
    | printed total =>
        rw [hrequester] at hanswer
        simp only [State.collect, State.setWorker, hrequester]
        exact hanswer
    | failed =>
        simp only [State.collect, State.setWorker, hrequester]
        trivial
    | undefined =>
        rw [hrequester] at hanswer
        simp only [State.collect, State.setWorker, hrequester]
        exact hanswer

theorem Inv.step (h : Inv workerCount chunkSize s)
    (hstep : s.step workerCount chunkSize event = some s') : Inv workerCount chunkSize s' := by
  cases event with
  | computes index =>
      obtain ⟨⟨-, hrequested⟩, heq⟩ := Option.ite_none_right_eq_some.mp hstep
      cases heq
      exact h.computes hrequested
  | replies index =>
      cases hworker : s.worker index with
      | replied sum =>
          simp only [State.step, hworker, Option.ite_none_right_eq_some] at hstep
          obtain ⟨hindex, heq⟩ := hstep
          cases heq
          exact h.replies hindex hworker
      | requested => simp [State.step, hworker] at hstep
      | answered => simp [State.step, hworker] at hstep
      | undefined => simp [State.step, hworker] at hstep
  | timesOut =>
      obtain ⟨-, heq⟩ := Option.ite_none_right_eq_some.mp hstep
      cases heq
      exact ⟨h.worked, trivial⟩

theorem fanOut_invariant (hcount : 0 < workerCount) :
    (fanOut workerCount chunkSize).Invariant (Inv workerCount chunkSize) where
  init := by
    rintro s rfl
    exact inv_initial hcount
  step _ _ _ h hstep := h.step hstep

/-- What a worker still has to do. -/
def workerWork : WorkerPc → ℕ
  | .requested => 2
  | .replied _ => 1
  | .answered | .undefined => 0

def requesterWork : RequesterPc → ℕ
  | .waiting => 1
  | .printed _ | .failed | .undefined => 0

def State.work (workerCount : ℕ) (s : State) : ℕ :=
  ∑ index ∈ Finset.range workerCount, workerWork (s.worker index) + requesterWork s.requester

theorem setWorker_work {index : ℕ} (hindex : index < workerCount) (s : State) (pc : WorkerPc) :
    (s.setWorker index pc).work workerCount + workerWork (s.worker index) =
      s.work workerCount + workerWork pc := by
  have hmem := Finset.mem_range.mpr hindex
  have hothers : ∑ other ∈ (Finset.range workerCount).erase index,
      workerWork ((s.setWorker index pc).worker other) =
      ∑ other ∈ (Finset.range workerCount).erase index, workerWork (s.worker other) :=
    Finset.sum_congr rfl fun other hother => by rw [setWorker_of_ne (Finset.ne_of_mem_erase hother)]
  have hbefore := Finset.sum_erase_add _ (fun other => workerWork (s.worker other)) hmem
  have hafter := Finset.sum_erase_add _
    (fun other => workerWork ((s.setWorker index pc).worker other)) hmem
  simp only [setWorker_self, hothers] at hafter
  have hrequester : (s.setWorker index pc).requester = s.requester := rfl
  unfold State.work
  rw [hrequester]
  omega

theorem collect_work_le (s : State) (sum : ℤ) :
    (s.collect workerCount sum).work workerCount ≤ s.work workerCount := by
  have hrequester : requesterWork (s.collect workerCount sum).requester ≤
      requesterWork s.requester := by
    cases hwaiting : s.requester with
    | waiting =>
        simp only [State.collect, hwaiting]
        split
        · cases accumulate (s.partialSums ++ [sum]) 0 <;> simp [State.afterTotal, requesterWork]
        · simp
    | printed total => simp only [State.collect, hwaiting, le_refl]
    | failed => simp only [State.collect, hwaiting, le_refl]
    | undefined => simp only [State.collect, hwaiting, le_refl]
  unfold State.work
  rw [collect_worker]
  omega

theorem work_lt (hstep : s.step workerCount chunkSize event = some s') :
    s'.work workerCount < s.work workerCount := by
  cases event with
  | computes index =>
      obtain ⟨⟨hindex, hrequested⟩, heq⟩ := Option.ite_none_right_eq_some.mp hstep
      cases heq
      have hwork := setWorker_work hindex s (State.afterWork (rangeSummer index chunkSize))
      have hless : workerWork (State.afterWork (rangeSummer index chunkSize)) ≤ 1 := by
        cases rangeSummer index chunkSize <;> simp [State.afterWork, workerWork]
      rw [hrequested] at hwork
      simp only [workerWork] at hwork hless
      omega
  | replies index =>
      cases hworker : s.worker index with
      | replied sum =>
          simp only [State.step, hworker, Option.ite_none_right_eq_some] at hstep
          obtain ⟨hindex, heq⟩ := hstep
          cases heq
          have hwork := setWorker_work hindex s .answered
          have hle := @collect_work_le workerCount (s.setWorker index .answered) sum
          rw [hworker] at hwork
          simp only [workerWork] at hwork
          omega
      | requested => simp [State.step, hworker] at hstep
      | answered => simp [State.step, hworker] at hstep
      | undefined => simp [State.step, hworker] at hstep
  | timesOut =>
      obtain ⟨hwaiting, heq⟩ := Option.ite_none_right_eq_some.mp hstep
      cases heq
      simp [State.work, hwaiting, requesterWork]

theorem run_bounded {events : List Event} (hrun : (fanOut workerCount chunkSize).Run {} events s) :
    events.length ≤ 2 * workerCount + 1 := by
  have hlength : events.length + s.work workerCount ≤ State.work workerCount {} :=
    hrun.length_le (I := fun _ => True) (fun _ _ _ _ hstep => ⟨trivial, work_lt hstep⟩) trivial
  have hstart : State.work workerCount {} = 2 * workerCount + 1 := by
    simp [State.work, workerWork, requesterWork, mul_comm]
  omega

theorem reachable_of_inTime (h : (inTime workerCount chunkSize).Reachable s) :
    (fanOut workerCount chunkSize).Reachable s := by
  obtain ⟨start, events, hstart, hrun⟩ := h
  exact ⟨start, events, hstart, hrun.of_restrict⟩

theorem collect_requester_ne_failed (h : s.requester ≠ .failed) (sum : ℤ) :
    (s.collect workerCount sum).requester ≠ .failed := by
  cases hrequester : s.requester with
  | waiting =>
      simp only [State.collect, hrequester]
      split
      · cases accumulate (s.partialSums ++ [sum]) 0 <;> simp [State.afterTotal]
      · simp
  | printed total => simpa only [State.collect, hrequester] using h
  | failed => exact absurd hrequester h
  | undefined => simpa only [State.collect, hrequester] using h

/-- A request that is answered in time does not fail. -/
theorem inTime_not_failed :
    (inTime workerCount chunkSize).Invariant fun s => s.requester ≠ .failed where
  init := by
    rintro s rfl
    simp
  step := by
    rintro s event s' h ⟨hevent, hstep⟩
    cases event with
    | computes index =>
        obtain ⟨-, heq⟩ := Option.ite_none_right_eq_some.mp hstep
        cases heq
        exact h
    | replies index =>
        cases hworker : s.worker index with
        | replied sum =>
            simp only [fanOut, State.step, hworker, Option.ite_none_right_eq_some] at hstep
            obtain ⟨-, heq⟩ := hstep
            cases heq
            have hbefore : (s.setWorker index .answered).requester ≠ .failed := h
            exact collect_requester_ne_failed hbefore sum
        | requested => simp [fanOut, State.step, hworker] at hstep
        | answered => simp [fanOut, State.step, hworker] at hstep
        | undefined => simp [fanOut, State.step, hworker] at hstep
    | timesOut => exact absurd rfl hevent

/-- Where nothing can happen any more, a worker has answered, unless its sum overflowed. -/
theorem settled_of_stuck (hstuck : (inTime workerCount chunkSize).Stuck s) {index : ℕ}
    (hindex : index < workerCount) :
    s.worker index = .answered ∨ s.worker index = .undefined := by
  cases hworker : s.worker index with
  | requested =>
      exact absurd ⟨by simp, if_pos ⟨hindex, hworker⟩⟩ (hstuck (.computes index) _)
  | replied sum =>
      refine absurd ⟨by simp, ?_⟩
        (hstuck (.replies index) ((s.setWorker index .answered).collect workerCount sum))
      simp [fanOut, State.step, hworker, hindex]
  | answered => exact .inl rfl
  | undefined => exact .inr rfl

theorem answered_of_stuck (h : Inv workerCount chunkSize s)
    (hstuck : (inTime workerCount chunkSize).Stuck s) {index : ℕ} (hindex : index < workerCount)
    (hdefined : rangeSummer index chunkSize ≠ none) : s.worker index = .answered := by
  refine (settled_of_stuck hstuck hindex).resolve_right fun hworker => ?_
  have hworked := h.worked index hindex
  rw [hworker] at hworked
  exact hdefined hworked

/-- The requester does not wait for replies that have all come. -/
theorem Collected.exists_unanswered (h : Collected workerCount chunkSize s) :
    ∃ index < workerCount, s.worker index ≠ .answered := by
  obtain ⟨order, -, hmem, -, hlength⟩ := h.order
  by_contra hall
  push Not at hall
  have hsubset : List.range workerCount ⊆ order := by
    intro index hindex
    have hbelow := List.mem_range.mp hindex
    exact (hmem index).mpr ⟨hbelow, hall index hbelow⟩
  have hle := (List.nodup_range.subperm hsubset).length_le
  rw [List.length_range] at hle
  omega

theorem printed_of_stuck (hfits : FitsInt64 workerCount)
    (htotal : FitsInt64 (upTo (workerCount * chunkSize))) (h : Inv workerCount chunkSize s)
    (hnot : s.requester ≠ .failed) (hstuck : (inTime workerCount chunkSize).Stuck s) :
    s.requester = .printed (upTo (workerCount * chunkSize)) := by
  have hanswer := h.answer
  cases hrequester : s.requester with
  | waiting =>
      rw [hrequester] at hanswer
      obtain ⟨index, hindex, hne⟩ := Collected.exists_unanswered hanswer
      have hdefined : rangeSummer index chunkSize ≠ none := by
        rw [rangeSummer_of_fits hindex hfits htotal]
        simp
      exact absurd (answered_of_stuck h hstuck hindex hdefined) hne
  | printed total =>
      rw [hrequester] at hanswer
      rw [hanswer.1]
  | failed => exact absurd hrequester hnot
  | undefined =>
      rw [hrequester] at hanswer
      exact absurd htotal hanswer

/-- Where no sum has been printed, some sum has overflowed. -/
theorem undefined_of_stuck (h : Inv workerCount chunkSize s) (hnot : s.requester ≠ .failed)
    (hnone : ∀ total, s.requester ≠ .printed total)
    (hstuck : (inTime workerCount chunkSize).Stuck s) :
    s.requester = .undefined ∨ ∃ index < workerCount, s.worker index = .undefined := by
  have hanswer := h.answer
  cases hrequester : s.requester with
  | waiting =>
      rw [hrequester] at hanswer
      obtain ⟨index, hindex, hne⟩ := Collected.exists_unanswered hanswer
      exact .inr ⟨index, hindex, (settled_of_stuck hstuck hindex).resolve_left hne⟩
  | printed total => exact absurd hrequester (hnone total)
  | failed => exact absurd hrequester hnot
  | undefined => exact .inl rfl

/-- The requester never prints a wrong sum, and it prints one in every run in which the
replies come in time exactly when the sum can be represented; when it can not, nothing is
printed and every such run comes to an operation that overflows. -/
theorem fan_out_sums_iff (hcount : 0 < workerCount) (hfits : FitsInt64 workerCount) :
    (∀ s total, (fanOut workerCount chunkSize).Reachable s → s.requester = .printed total →
      total = upTo (workerCount * chunkSize)) ∧
    (∀ events s, (fanOut workerCount chunkSize).Run {} events s →
      events.length ≤ 2 * workerCount + 1) ∧
    ((∀ s, (inTime workerCount chunkSize).Reachable s →
      (inTime workerCount chunkSize).Stuck s →
      s.requester = .printed (upTo (workerCount * chunkSize))) ↔
      FitsInt64 (upTo (workerCount * chunkSize))) ∧
    (¬ FitsInt64 (upTo (workerCount * chunkSize)) →
      (∀ s total, (fanOut workerCount chunkSize).Reachable s → s.requester ≠ .printed total) ∧
      ∀ s, (inTime workerCount chunkSize).Reachable s → (inTime workerCount chunkSize).Stuck s →
        s.requester = .undefined ∨ ∃ index < workerCount, s.worker index = .undefined) := by
  have hprinted : ∀ s total, (fanOut workerCount chunkSize).Reachable s →
      s.requester = .printed total →
      total = upTo (workerCount * chunkSize) ∧ FitsInt64 total := by
    intro s total hs hrequester
    have hanswer := ((fanOut_invariant hcount).reachable hs).answer
    rwa [hrequester] at hanswer
  have hoverflows : ¬ FitsInt64 (upTo (workerCount * chunkSize)) → ∀ s total,
      (fanOut workerCount chunkSize).Reachable s → s.requester ≠ .printed total := by
    intro htotal s total hs hrequester
    obtain ⟨rfl, hfits⟩ := hprinted s total hs hrequester
    exact htotal hfits
  refine ⟨fun s total hs hrequester => (hprinted s total hs hrequester).1,
    fun events s hrun => run_bounded hrun, ⟨?_, ?_⟩,
    fun htotal => ⟨hoverflows htotal, fun s hs hstuck => ?_⟩⟩
  · intro hall
    have hbound : ∀ events s, (inTime workerCount chunkSize).Run {} events s →
        events.length ≤ 2 * workerCount + 1 := fun _ _ hrun => run_bounded hrun.of_restrict
    obtain ⟨events, s, hrun, hstuck⟩ := exists_stuck hbound
    have hs : (inTime workerCount chunkSize).Reachable s := ⟨{}, events, rfl, hrun⟩
    exact (hprinted s _ (reachable_of_inTime hs) (hall s hs hstuck)).2
  · intro htotal s hs hstuck
    exact printed_of_stuck hfits htotal
      ((fanOut_invariant hcount).reachable (reachable_of_inTime hs))
      (inTime_not_failed.reachable hs) hstuck
  · have hs' := reachable_of_inTime hs
    exact undefined_of_stuck ((fanOut_invariant hcount).reachable hs')
      (inTime_not_failed.reachable hs) (fun total => hoverflows htotal s total hs') hstuck

theorem upTo_hundred_thousand : upTo (4 * 25000) = 5000050000 := by
  rw [upTo, Finset.sum_range_id]

/-- The sum that `fan_out` prints. -/
theorem fan_out_sums_iff_four : 0 < 4 ∧
    ∃ s, (inTime 4 25000).Reachable s ∧ s.requester = .printed 5000050000 := by
  have hcount : FitsInt64 (4 : ℕ) := by
    unfold FitsInt64
    norm_num
  have htotal : FitsInt64 (upTo (4 * 25000)) := by
    rw [upTo_hundred_thousand]
    unfold FitsInt64
    norm_num
  obtain ⟨-, hbound, hall, -⟩ := @fan_out_sums_iff 4 25000 (by decide) hcount
  obtain ⟨events, s, hrun, hstuck⟩ :=
    exists_stuck fun events s hrun => hbound events s hrun.of_restrict
  have hs : (inTime 4 25000).Reachable s := ⟨{}, events, rfl, hrun⟩
  have hprinted := hall.mpr htotal s hs hstuck
  rw [upTo_hundred_thousand] at hprinted
  exact ⟨by decide, s, hs, hprinted⟩

end Runs

end CppWorkspace.Actors.FanOut
