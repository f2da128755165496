import CppWorkspace.Cobalt.WorkerPool

/-!
The runs of the worker pool. The main coroutine reads no result before it has written
all jobs, so that the workers and the channels must have room for all of them: with
that room every run comes to its end, and without it none does.
-/

namespace CppWorkspace.Cobalt.WorkerPool

open Lib Pool System

/-- The jobs that have been written. -/
def MainPc.written (jobCount : ℕ) : MainPc → ℕ
  | .writing next => next - 1
  | .reading _ | .returned => jobCount

/-- The results that have been read. -/
def MainPc.read (jobCount : ℕ) : MainPc → ℕ
  | .writing _ => 0
  | .reading count => count
  | .returned => jobCount

structure Inv (jobCount : ℕ) (workers : Finset WorkerId) (jobsCapacity resultsCapacity : ℕ)
    (s : State) : Prop where
  sound : s.pool.Sound workers
  jobs_capacity : s.pool.jobs.capacity = jobsCapacity
  results_capacity : s.pool.results.capacity = resultsCapacity
  writing : ∀ next, s.pc = .writing next →
    1 ≤ next ∧ next ≤ jobCount + 1 ∧ s.pool.jobs.closed = false
  reading : ∀ count, s.pc = .reading count → count ≤ jobCount
  written : (∀ next, s.pc ≠ .writing next) → s.pool.jobs.closed = true
  results_closed : s.pool.results.closed = true → s.pc = .returned
  joined : s.pc = .returned → ∀ w ∈ workers, s.pool.worker w = .returned
  books : ∃ left done, Accounts poolWorker workers (jobsUpTo (s.pc.written jobCount)) left done
    s.pool ∧ s.output = left.map sumText ∧ left.length = s.pc.read jobCount

section Steps

variable {jobCount jobsCapacity resultsCapacity : ℕ} {workers : Finset WorkerId} {s s' : State}
  {event : Event WorkerId ℤ Text}

theorem inv_started :
    Inv jobCount workers jobsCapacity resultsCapacity
      (started workers jobsCapacity resultsCapacity) where
  sound :=
    { absent := fun w hw => if_neg hw
      drained := fun w hw hreturned => by
        simp only [started, if_pos hw] at hreturned
        cases hreturned
      safe := fun w => by
        simp only [started]
        split <;> simp }
  jobs_capacity := rfl
  results_capacity := rfl
  writing := by
    rintro next hpc
    cases hpc
    exact ⟨le_rfl, Nat.le_add_left 1 jobCount, rfl⟩
  reading := by
    rintro count hpc
    cases hpc
  written hpc := absurd rfl (hpc 1)
  results_closed := by simp [started]
  joined := by simp [started]
  books := by
    refine ⟨[], [], ⟨?_, rfl, ?_, by simp⟩, rfl, rfl⟩
    · have hheld : Pool.held workers (started workers jobsCapacity resultsCapacity).pool = 0 := by
        refine Finset.sum_eq_zero ?_
        intro w hw
        simp [started, hw, PoolPc.held]
      rw [hheld]
      rfl
    · intro w job result hsending
      simp only [started] at hsending
      split at hsending <;> cases hsending

theorem step_spec (h : s.step jobCount workers event = some s') :
    s.pool.Moves poolWorker event s'.pool ∧
      s.main jobCount workers event = some (s'.pc, s'.output) := by
  obtain ⟨pool, hpool, hrest⟩ := Option.bind_eq_some_iff.mp h
  obtain ⟨⟨pc, output⟩, hmain, heq⟩ := Option.bind_eq_some_iff.mp hrest
  cases heq
  exact ⟨moves_of_step hpool, hmain⟩

/-- What the main coroutine does, by the kind of event. -/
inductive MainMoves (jobCount : ℕ) (workers : Finset WorkerId) (s : State) :
    Event WorkerId ℤ Text → MainPc → List Text → Prop
  | writes {event : Event WorkerId ℤ Text} {next : ℕ} : s.pc = .writing next → next ≤ jobCount →
      event.entered = some (next : ℤ) → event.left = none →
      MainMoves jobCount workers s event (.writing (next + 1)) s.output
  | closesJobs {next : ℕ} : s.pc = .writing next → jobCount < next →
      MainMoves jobCount workers s .jobsClosed (.reading 0) s.output
  | reads {event : Event WorkerId ℤ Text} {count : ℕ} {result : Text} : s.pc = .reading count →
      count < jobCount → event.entered = none → event.left = some result →
      MainMoves jobCount workers s event (.reading (count + 1)) (s.output ++ [sumText result])
  | closesResults {count : ℕ} : s.pc = .reading count → jobCount ≤ count →
      (∀ w ∈ workers, s.pool.worker w = .returned) →
      MainMoves jobCount workers s .resultsClosed .returned s.output
  | waits {event : Event WorkerId ℤ Text} : event.Internal → event.entered = none →
      event.left = none → MainMoves jobCount workers s event s.pc s.output

theorem mainMoves_of_main {pc : MainPc} {output : List Text}
    (h : s.main jobCount workers event = some (pc, output)) :
    MainMoves jobCount workers s event pc output := by
  cases event with
  | jobPut job =>
      cases hpc : s.pc with
      | writing next =>
          simp only [State.main, hpc] at h
          obtain ⟨⟨hle, rfl⟩, heq⟩ := Option.ite_none_right_eq_some.mp h
          cases heq
          exact .writes hpc hle rfl rfl
      | reading _ | returned =>
          simp only [State.main, hpc] at h
          cases h
  | jobHanded w job =>
      cases hpc : s.pc with
      | writing next =>
          simp only [State.main, hpc] at h
          obtain ⟨⟨hle, rfl⟩, heq⟩ := Option.ite_none_right_eq_some.mp h
          cases heq
          exact .writes hpc hle rfl rfl
      | reading _ | returned =>
          simp only [State.main, hpc] at h
          cases h
  | jobsClosed =>
      cases hpc : s.pc with
      | writing next =>
          simp only [State.main, hpc] at h
          obtain ⟨hlt, heq⟩ := Option.ite_none_right_eq_some.mp h
          cases heq
          exact .closesJobs hpc hlt
      | reading _ | returned =>
          simp only [State.main, hpc] at h
          cases h
  | resultTaken result =>
      cases hpc : s.pc with
      | reading count =>
          simp only [State.main, hpc] at h
          obtain ⟨hlt, heq⟩ := Option.ite_none_right_eq_some.mp h
          cases heq
          exact .reads hpc hlt rfl rfl
      | writing _ | returned =>
          simp only [State.main, hpc] at h
          cases h
  | resultHanded w result =>
      cases hpc : s.pc with
      | reading count =>
          simp only [State.main, hpc] at h
          obtain ⟨hlt, heq⟩ := Option.ite_none_right_eq_some.mp h
          cases heq
          exact .reads hpc hlt rfl rfl
      | writing _ | returned =>
          simp only [State.main, hpc] at h
          cases h
  | resultsClosed =>
      cases hpc : s.pc with
      | reading count =>
          simp only [State.main, hpc] at h
          obtain ⟨⟨hle, hjoined⟩, heq⟩ := Option.ite_none_right_eq_some.mp h
          cases heq
          exact .closesResults hpc hle hjoined
      | writing _ | returned =>
          simp only [State.main, hpc] at h
          cases h
  | jobTaken _ | jobsEnded _ | computed _ | resultPut _ | resultRefused _ =>
      cases h
      exact .waits trivial rfl rfl

/-- The books of the main coroutine. -/
theorem MainMoves.books {pc : MainPc} {output : List Text} {left : List Text}
    (h : MainMoves jobCount workers s event pc output)
    (hwriting : ∀ next, s.pc = .writing next → 1 ≤ next ∧ next ≤ jobCount + 1)
    (hreading : ∀ count, s.pc = .reading count → count ≤ jobCount)
    (hout : s.output = left.map sumText) (hread : left.length = s.pc.read jobCount) :
    jobsUpTo (pc.written jobCount) =
        jobsUpTo (s.pc.written jobCount) + (event.entered.toList : Multiset ℤ) ∧
      output = (left ++ event.left.toList).map sumText ∧
      (left ++ event.left.toList).length = pc.read jobCount := by
  cases h with
  | @writes event next hpc hle hentered hleft =>
      obtain ⟨m, rfl⟩ : ∃ m, next = m + 1 := ⟨next - 1, by have := (hwriting next hpc).1; omega⟩
      rw [hpc, MainPc.read] at hread
      rw [hpc, hentered, hleft]
      refine ⟨jobsUpTo_succ m, ?_, ?_⟩
      · simp [hout]
      · simpa [MainPc.read] using hread
  | @closesJobs next hpc hlt =>
      have hall : next - 1 = jobCount := by
        have hbound := (hwriting next hpc).2
        omega
      rw [hpc, MainPc.read] at hread
      rw [hpc, MainPc.written, MainPc.written, hall]
      refine ⟨(add_zero _).symm, ?_, ?_⟩
      · simp [hout, Event.left]
      · simpa [Event.left, MainPc.read] using hread
  | @reads event count result hpc hlt hentered hleft =>
      rw [hpc, MainPc.read] at hread
      rw [hpc, hentered, hleft]
      refine ⟨(add_zero _).symm, ?_, ?_⟩
      · simp [hout]
      · simp [MainPc.read, hread]
  | @closesResults count hpc hle hjoined =>
      have hall : count = jobCount := le_antisymm (hreading count hpc) hle
      rw [hpc, MainPc.read, hall] at hread
      rw [hpc]
      refine ⟨(add_zero _).symm, ?_, ?_⟩
      · simp [hout, Event.left]
      · simpa [Event.left, MainPc.read] using hread
  | @waits event hinternal hentered hleft =>
      rw [hentered, hleft]
      refine ⟨(add_zero _).symm, ?_, ?_⟩
      · simp [hout]
      · simpa using hread

section Inv

variable (hfits : FitsInt ((jobCount * jobCount : ℕ) : ℤ))
  (h : Inv jobCount workers jobsCapacity resultsCapacity s)

include h in
/-- The results are open as long as a worker sends. -/
theorem Inv.results_open (w : WorkerId) (hw : s.pool.worker w ≠ .returned) :
    s.pool.results.closed = false := by
  cases hclosed : s.pool.results.closed with
  | false => rfl
  | true => exact absurd (h.joined (h.results_closed hclosed) w (h.sound.mem hw)) hw

include h in
theorem Inv.written_le : s.pc.written jobCount ≤ jobCount := by
  cases hpc : s.pc with
  | writing next =>
      have hbound := (h.writing next hpc).2.1
      simp only [MainPc.written]
      omega
  | reading _ | returned => exact le_rfl

include hfits h in
/-- Every job has a result. -/
theorem Inv.total (w : WorkerId) (job : ℤ) (hw : s.pool.worker w = .busy job) :
    poolWorker w job ≠ none := by
  obtain ⟨left, done, haccounts, -, -⟩ := h.books
  have hmem : w ∈ workers := h.sound.mem (by simp [hw])
  have hheld : job ∈ (s.pool.worker w).held := by simp [hw, PoolPc.held]
  have hentered := haccounts.mem_entered hmem hheld
  obtain ⟨i, hi, rfl⟩ := List.mem_map.mp (Multiset.mem_coe.mp hentered)
  obtain ⟨hlow, hhigh⟩ := List.mem_range'_1.mp hi
  have hle : i ≤ jobCount := by
    have hwritten := h.written_le
    omega
  have hsquare : ((i : ℤ) * i) ≤ (jobCount * jobCount : ℕ) := by
    exact_mod_cast Nat.mul_le_mul hle hle
  have hnonneg : (0 : ℤ) ≤ i * i := by positivity
  have hfits' : FitsInt ((i : ℤ) * i) := ⟨by omega, hsquare.trans hfits.2⟩
  rw [poolWorker, int_of_fits hfits']
  simp

include hfits h in
theorem Inv.step (hstep : s.step jobCount workers event = some s') :
    Inv jobCount workers jobsCapacity resultsCapacity s' := by
  obtain ⟨hmoves, hmain⟩ := step_spec hstep
  have hopen : ∀ w job result, s.pool.worker w = .sending job result →
      s.pool.results.closed = false := fun w _ _ hw => h.results_open w (by simp [hw])
  have hsound := h.sound.step hmoves hopen (h.total hfits)
  have hcapacities := hmoves.capacities
  have hbooks : ∃ left done, Accounts poolWorker workers (jobsUpTo (s'.pc.written jobCount)) left
      done s'.pool ∧ s'.output = left.map sumText ∧ left.length = s'.pc.read jobCount := by
    obtain ⟨left, done, haccounts, hout, hread⟩ := h.books
    obtain ⟨done', haccounts'⟩ := haccounts.step h.sound hmoves hopen (h.total hfits)
    obtain ⟨hwritten, hout', hread'⟩ := (mainMoves_of_main hmain).books
      (fun next hpc => ⟨(h.writing next hpc).1, (h.writing next hpc).2.1⟩) h.reading hout hread
    rw [← hwritten] at haccounts'
    exact ⟨_, done', haccounts', hout', hread'⟩
  have hmain' := mainMoves_of_main hmain
  obtain ⟨pool, pc, output⟩ := s'
  cases hmain' with
  | @writes _ next hpc hle hentered hleft =>
      have hjobs := hmoves.jobs_closed (by rintro rfl; cases hentered)
      have hresults := hmoves.results_closed (by rintro rfl; cases hentered)
      exact
        { sound := hsound
          jobs_capacity := hcapacities.1.trans h.jobs_capacity
          results_capacity := hcapacities.2.trans h.results_capacity
          writing := by
            rintro next' heq
            cases heq
            exact ⟨Nat.le_add_left 1 next, Nat.succ_le_succ hle,
              hjobs.trans (h.writing next hpc).2.2⟩
          reading := fun count heq => by cases heq
          written := fun hnot => absurd rfl (hnot (next + 1))
          results_closed := fun hclosed => by
            cases hpc.symm.trans (h.results_closed (hresults.symm.trans hclosed))
          joined := fun heq => by cases heq
          books := hbooks }
  | @closesJobs next hpc hlt =>
      have hresults := hmoves.results_closed (by simp)
      exact
        { sound := hsound
          jobs_capacity := hcapacities.1.trans h.jobs_capacity
          results_capacity := hcapacities.2.trans h.results_capacity
          writing := fun next heq => by cases heq
          reading := by
            rintro count heq
            cases heq
            exact Nat.zero_le jobCount
          written := by
            intro hnot
            cases hmoves
            rfl
          results_closed := fun hclosed => by
            cases hpc.symm.trans (h.results_closed (hresults.symm.trans hclosed))
          joined := fun heq => by cases heq
          books := hbooks }
  | @reads _ count result hpc hlt hentered hleft =>
      have hjobs := hmoves.jobs_closed (by rintro rfl; cases hleft)
      have hresults := hmoves.results_closed (by rintro rfl; cases hleft)
      exact
        { sound := hsound
          jobs_capacity := hcapacities.1.trans h.jobs_capacity
          results_capacity := hcapacities.2.trans h.results_capacity
          writing := fun next heq => by cases heq
          reading := by
            rintro count' heq
            cases heq
            exact hlt
          written := fun _ => hjobs.trans (h.written fun next heq => by cases hpc.symm.trans heq)
          results_closed := fun hclosed => by
            cases hpc.symm.trans (h.results_closed (hresults.symm.trans hclosed))
          joined := fun heq => by cases heq
          books := hbooks }
  | @closesResults count hpc hle hjoined =>
      have hjobs := hmoves.jobs_closed (by simp)
      have hworkers : pool.worker = s.pool.worker := by
        cases hmoves
        rfl
      exact
        { sound := hsound
          jobs_capacity := hcapacities.1.trans h.jobs_capacity
          results_capacity := hcapacities.2.trans h.results_capacity
          writing := fun next heq => by cases heq
          reading := fun count heq => by cases heq
          written := fun _ => hjobs.trans (h.written fun next heq => by cases hpc.symm.trans heq)
          results_closed := fun _ => rfl
          joined := fun _ w hw => (congrFun hworkers w).trans (hjoined w hw)
          books := hbooks }
  | waits hinternal hentered hleft =>
      have hjobs := hmoves.jobs_closed (by rintro rfl; exact hinternal)
      have hresults := hmoves.results_closed (by rintro rfl; exact hinternal)
      exact
        { sound := hsound
          jobs_capacity := hcapacities.1.trans h.jobs_capacity
          results_capacity := hcapacities.2.trans h.results_capacity
          writing := fun next hpc =>
            ⟨(h.writing next hpc).1, (h.writing next hpc).2.1,
              hjobs.trans (h.writing next hpc).2.2⟩
          reading := h.reading
          written := fun hnot => hjobs.trans (h.written hnot)
          results_closed := fun hclosed => h.results_closed (hresults.symm.trans hclosed)
          joined := fun hpc => absurd hinternal (hmoves.not_internal h.sound (h.joined hpc))
          books := hbooks }

/-- What the channels and the workers hold of the jobs. -/
theorem Inv.card (h : Inv jobCount workers jobsCapacity resultsCapacity s) :
    s.pc.written jobCount = s.pool.jobs.buffer.length + (s.pool.held workers).card +
      s.pc.read jobCount + s.pool.results.buffer.length := by
  obtain ⟨left, done, haccounts, -, hread⟩ := h.books
  rw [← hread, ← haccounts.card, card_jobsUpTo]

/-- Nothing can be done. -/
def State.Waits (jobCount : ℕ) (workers : Finset WorkerId) (s : State) : Prop :=
  ∀ event, s.step jobCount workers event = none

theorem State.Waits.not_moves (hwaits : s.Waits jobCount workers) {p' : Pool WorkerId ℤ Text}
    {pc : MainPc} {output : List Text} (hmove : s.pool.Moves poolWorker event p') :
    s.main jobCount workers event ≠ some (pc, output) := by
  intro hmain
  have hnone := hwaits event
  rw [State.step, step_of_moves hmove, hmain] at hnone
  cases hnone

theorem State.Waits.idle (hwaits : s.Waits jobCount workers) : s.pool.Idle poolWorker := by
  rintro event p' hinternal hmove
  have hmain : s.main jobCount workers event = some (s.pc, s.output) := by
    cases event with
    | jobTaken _ | jobsEnded _ | computed _ | resultPut _ | resultRefused _ => rfl
    | jobPut _ | jobHanded _ _ | jobsClosed | resultTaken _ | resultHanded _ _ | resultsClosed =>
        cases hinternal
  exact hwaits.not_moves hmove hmain

/-- Nobody takes the next job: every worker has a result that it cannot give away, and
the channels are full. -/
theorem Inv.full_of_writing (h : Inv jobCount workers jobsCapacity resultsCapacity s)
    (hworkers : workers.Nonempty) (hwaits : s.Waits jobCount workers) {next : ℕ}
    (hpc : s.pc = .writing next) :
    next ≤ jobCount ∧ next = jobsCapacity + workers.card + resultsCapacity + 1 := by
  obtain ⟨hfirst, -, hopen⟩ := h.writing next hpc
  have hle : next ≤ jobCount := by
    by_contra hlt
    have hmain : s.main jobCount workers .jobsClosed = some (.reading 0, s.output) := by
      simp only [State.main, hpc, if_pos (not_le.mp hlt)]
    exact hwaits.not_moves .jobsClosed hmain
  have hput : s.main jobCount workers (.jobPut next) = some (.writing (next + 1), s.output) := by
    simp [State.main, hpc, hle]
  have hhand : ∀ w, s.main jobCount workers (.jobHanded w next) =
      some (.writing (next + 1), s.output) := by
    intro w
    simp [State.main, hpc, hle]
  have hfull : s.pool.jobs.buffer.length = jobsCapacity := by
    rw [← h.jobs_capacity]
    refine le_antisymm s.pool.jobs.fits (not_lt.mp ?_)
    intro hroom
    obtain ⟨jobs, hjobs⟩ := Channel.put_of_room hopen hroom (next : ℤ)
    exact hwaits.not_moves (.jobPut hjobs) hput
  have hsending : ∀ w ∈ workers, (∃ job result, s.pool.worker w = .sending job result) ∧
      s.pool.results.buffer.length = s.pool.results.capacity := by
    intro w hw
    rcases hwaits.idle.cases h.sound w with ⟨hreceiving, hmeets⟩ | ⟨job, result, heq, -, hlength⟩ |
      hreturned
    · exact absurd (hhand w) (hwaits.not_moves (.jobHanded hreceiving hmeets))
    · exact ⟨⟨job, result, heq⟩, hlength⟩
    · exact absurd (h.sound.drained w hw hreturned) (Channel.not_exhausted_of_open hopen)
  have hheld : (s.pool.held workers).card = workers.card := by
    refine card_held_of_forall ?_
    intro w hw
    obtain ⟨⟨job, result, heq⟩, -⟩ := hsending w hw
    rw [heq, PoolPc.held, Multiset.card_singleton]
  obtain ⟨w, hw⟩ := hworkers
  have hresults := (hsending w hw).2.trans h.results_capacity
  have hcard := h.card
  rw [hpc, MainPc.written, MainPc.read] at hcard
  omega

/-- The main coroutine waits for a result only where one is on its way. -/
theorem Inv.not_reading (h : Inv jobCount workers jobsCapacity resultsCapacity s)
    (hworkers : workers.Nonempty) (hwaits : s.Waits jobCount workers) (count : ℕ) :
    s.pc ≠ .reading count := by
  intro hpc
  have hclosed : s.pool.jobs.closed = true := h.written fun next heq => by cases hpc.symm.trans heq
  have hopen : s.pool.results.closed = false := by
    cases hresults : s.pool.results.closed with
    | false => rfl
    | true => cases hpc.symm.trans (h.results_closed hresults)
  have hcases : ∀ w, (∃ job result, s.pool.worker w = .sending job result ∧
      s.pool.results.buffer.length = s.pool.results.capacity) ∨ s.pool.worker w = .returned := by
    intro w
    rcases hwaits.idle.cases h.sound w with ⟨-, hmeets⟩ | ⟨job, result, heq, -, hlength⟩ | hreturned
    · cases hclosed.symm.trans hmeets.1
    · exact Or.inl ⟨job, result, heq, hlength⟩
    · exact Or.inr hreturned
  have hcard := h.card
  rw [hpc, MainPc.written, MainPc.read] at hcard
  rcases Nat.lt_or_ge count jobCount with hlt | hle
  · have hmain : ∀ result, s.main jobCount workers (.resultTaken result) =
        some (.reading (count + 1), s.output ++ [sumText result]) := by
      intro result
      simp only [State.main, hpc, if_pos hlt]
    have hempty : s.pool.results.buffer = [] := by
      by_contra hsome
      obtain ⟨result, results, htake⟩ := Channel.take_of_ne_nil hsome
      exact hwaits.not_moves (.resultTaken htake) (hmain result)
    have hreturned : ∀ w ∈ workers, s.pool.worker w = .returned := by
      intro w hw
      refine (hcases w).resolve_left ?_
      rintro ⟨job, result, heq, -⟩
      exact hwaits.not_moves (.resultHanded heq ⟨hopen, hempty⟩) (hmain result)
    obtain ⟨w, hw⟩ := hworkers
    rw [held_eq_zero hreturned, hempty, (h.sound.drained w hw (hreturned w hw)).2] at hcard
    simp only [List.length_nil, Multiset.card_zero] at hcard
    omega
  · have hreturned : ∀ w ∈ workers, s.pool.worker w = .returned := by
      intro w hw
      refine (hcases w).resolve_left ?_
      rintro ⟨job, result, heq, -⟩
      have hone := held_card_le (p := s.pool) hw
      rw [heq, PoolPc.held, Multiset.card_singleton] at hone
      omega
    have hmain : s.main jobCount workers .resultsClosed = some (.returned, s.output) := by
      simp only [State.main, hpc]
      exact if_pos ⟨hle, hreturned⟩
    exact hwaits.not_moves .resultsClosed hmain

/-- The steps that the main coroutine pays for. -/
def MainPc.work (jobCount : ℕ) : MainPc → ℕ
  | .writing next => 5 * (jobCount + 1 - next) + 2
  | .reading _ => 1
  | .returned => 0

theorem MainMoves.work {pc : MainPc} {output : List Text}
    (h : MainMoves jobCount workers s event pc output) :
    pc.work jobCount + event.cost ≤ s.pc.work jobCount := by
  have hcost : event.cost ≤ 5 ∧ (event.entered = none → event.cost ≤ 1) ∧
      (event.Internal ∨ event.left ≠ none → event.cost = 0) := by
    cases event <;> simp [Event.cost, Event.entered, Event.left, Event.Internal]
  cases h with
  | @writes event next hpc hle hentered hleft =>
      rw [hpc, MainPc.work, MainPc.work]
      omega
  | @closesJobs next hpc hlt =>
      have hone := hcost.2.1 rfl
      rw [hpc, MainPc.work, MainPc.work]
      omega
  | @reads event count result hpc hlt hentered hleft =>
      have hzero := hcost.2.2 (.inr (by simp [hleft]))
      rw [hpc, MainPc.work, MainPc.work]
      omega
  | @closesResults count hpc hle hjoined =>
      have hone := hcost.2.1 rfl
      rw [hpc, MainPc.work, MainPc.work]
      omega
  | @waits event hinternal hentered hleft =>
      have hzero := hcost.2.2 (.inl hinternal)
      omega

/-- The steps that are left. -/
def State.work (jobCount : ℕ) (workers : Finset WorkerId) (s : State) : ℕ :=
  s.pool.work workers + s.pc.work jobCount

theorem Inv.work_lt (h : Inv jobCount workers jobsCapacity resultsCapacity s)
    (hstep : s.step jobCount workers event = some s') :
    s'.work jobCount workers < s.work jobCount workers := by
  obtain ⟨hmoves, hmain⟩ := step_spec hstep
  have hpool := hmoves.work_lt h.sound
  have hpays := (mainMoves_of_main hmain).work
  simp only [State.work]
  omega

theorem work_started : (started workers jobsCapacity resultsCapacity).work jobCount workers =
    5 * jobCount + workers.card + 2 := by
  have hworkers : ∀ w ∈ workers,
      ((started workers jobsCapacity resultsCapacity).pool.worker w).work = 1 := by
    intro w hw
    simp [started, hw, PoolPc.work]
  rw [State.work, Pool.work, Finset.sum_congr rfl hworkers, ← Finset.card_eq_sum_ones]
  simp only [started, Channel.make_buffer, List.length_nil, MainPc.work]
  omega

/-- Without room for all jobs the main coroutine goes on writing. -/
theorem Inv.stays_writing (h : Inv jobCount workers jobsCapacity resultsCapacity s)
    (hroom : jobsCapacity + workers.card + resultsCapacity < jobCount)
    (hpc : ∃ next, s.pc = .writing next) (hstep : s.step jobCount workers event = some s') :
    ∃ next, s'.pc = .writing next := by
  obtain ⟨next, hpc⟩ := hpc
  obtain ⟨-, hmain⟩ := step_spec hstep
  have hmain' := mainMoves_of_main hmain
  obtain ⟨pool, pc, output⟩ := s'
  cases hmain' with
  | @writes event next' _ _ _ _ => exact ⟨next' + 1, rfl⟩
  | @closesJobs next' hpc' hlt =>
      have hcard := h.card
      have hjobs := s.pool.jobs.fits
      have hresults := s.pool.results.fits
      have hheld := card_held_le workers s.pool
      rw [hpc', MainPc.written, MainPc.read] at hcard
      rw [h.jobs_capacity] at hjobs
      rw [h.results_capacity] at hresults
      omega
  | reads hpc' _ _ _ => cases hpc.symm.trans hpc'
  | closesResults hpc' _ _ => cases hpc.symm.trans hpc'
  | waits _ _ _ => exact ⟨next, hpc⟩

/-- What was printed in the end. -/
theorem Inv.printed (hfits : FitsInt ((jobCount * jobCount : ℕ) : ℤ))
    (h : Inv jobCount workers jobsCapacity resultsCapacity s) (hpc : s.pc = .returned) :
    ∃ done : List (WorkerId × ℤ), (∀ d ∈ done, d.1 ∈ workers) ∧
      List.Perm (done.map Prod.snd) ((List.range' 1 jobCount).map (Nat.cast : ℕ → ℤ)) ∧
      s.output = done.map fun d => sumText (resultText d.1 d.2 (d.2 * d.2)) := by
  obtain ⟨left, done, haccounts, hout, hread⟩ := h.books
  have hcard := haccounts.card
  have hjobs := haccounts.jobs
  have hresults := haccounts.results
  rw [hpc, MainPc.written] at hcard hjobs
  rw [hpc, MainPc.read] at hread
  rw [card_jobsUpTo] at hcard
  have hnone : s.pool.results.buffer = [] := List.length_eq_zero_iff.mp (by omega)
  have hbuffer : s.pool.jobs.buffer = [] := List.length_eq_zero_iff.mp (by omega)
  have hheld : s.pool.held workers = 0 := Multiset.card_eq_zero.mp (by omega)
  rw [hbuffer, hheld, Multiset.coe_nil, zero_add, zero_add] at hjobs
  refine ⟨done, haccounts.doers, Multiset.coe_eq_coe.mp hjobs.symm, ?_⟩
  have hmade : ∀ d ∈ done,
      poolWorker d.1 d.2 = some (resultText d.1 d.2 (d.2 * d.2)) := by
    intro d hd
    have hmem : d.2 ∈ (done.map Prod.snd : Multiset ℤ) :=
      Multiset.mem_coe.mpr (List.mem_map_of_mem hd)
    rw [← hjobs] at hmem
    obtain ⟨i, hi, heq⟩ := List.mem_map.mp (Multiset.mem_coe.mp hmem)
    obtain ⟨hlow, hhigh⟩ := List.mem_range'_1.mp hi
    have hsquare : (i : ℤ) * i ≤ (jobCount * jobCount : ℕ) := by
      exact_mod_cast Nat.mul_le_mul (by omega : i ≤ jobCount) (by omega : i ≤ jobCount)
    have hnonneg : (0 : ℤ) ≤ i * i := by positivity
    have hfits' : FitsInt ((i : ℤ) * i) := ⟨by omega, hsquare.trans hfits.2⟩
    rw [← heq, poolWorker, int_of_fits hfits', Option.map_some]
  rw [hnone, List.append_nil, List.map_congr_left hmade] at hresults
  have hleft : left = done.map fun d => resultText d.1 d.2 (d.2 * d.2) := by
    apply List.map_injective_iff.mpr (Option.some_injective Text)
    rw [hresults, List.map_map]
    rfl
  rw [hout, hleft, List.map_map]
  rfl

end Inv

end Steps

section Runs

variable {jobCount jobsCapacity resultsCapacity : ℕ} {workers : Finset WorkerId} {s : State}

theorem inv_of_reachable (hfits : FitsInt ((jobCount * jobCount : ℕ) : ℤ))
    (hs : (poolSystem jobCount workers jobsCapacity resultsCapacity).Reachable s) :
    Inv jobCount workers jobsCapacity resultsCapacity s := by
  obtain ⟨start, labels, rfl, hrun⟩ := hs
  exact hrun.preserves (fun _ _ _ h hstep => h.step hfits hstep) inv_started

theorem waits_of_stuck
    (hstuck : (poolSystem jobCount workers jobsCapacity resultsCapacity).Stuck s) :
    s.Waits jobCount workers := by
  intro event
  cases hnext : s.step jobCount workers event with
  | none => rfl
  | some s' => exact absurd hnext (hstuck event s')

theorem run_length_le (hfits : FitsInt ((jobCount * jobCount : ℕ) : ℤ))
    {labels : List (Event WorkerId ℤ Text)}
    (hrun : (poolSystem jobCount workers jobsCapacity resultsCapacity).Run
      (started workers jobsCapacity resultsCapacity) labels s) :
    labels.length ≤ 5 * jobCount + workers.card + 2 := by
  have hwork := hrun.length_le (I := Inv jobCount workers jobsCapacity resultsCapacity)
    (fun _ _ _ h hstep => ⟨h.step hfits hstep, h.work_lt hstep⟩) inv_started
  rw [work_started] at hwork
  omega

theorem finished_of_stuck (hworkers : workers.Nonempty)
    (hfits : FitsInt ((jobCount * jobCount : ℕ) : ℤ))
    (hroom : jobCount ≤ jobsCapacity + workers.card + resultsCapacity)
    (hs : (poolSystem jobCount workers jobsCapacity resultsCapacity).Reachable s)
    (hstuck : (poolSystem jobCount workers jobsCapacity resultsCapacity).Stuck s) :
    s.Finished workers := by
  have h := inv_of_reachable hfits hs
  have hwaits := waits_of_stuck hstuck
  cases hpc : s.pc with
  | writing next =>
      obtain ⟨hle, hfull⟩ := h.full_of_writing hworkers hwaits hpc
      omega
  | reading count => exact absurd hpc (h.not_reading hworkers hwaits count)
  | returned => exact ⟨hpc, h.joined hpc⟩

theorem writing_of_reachable (hfits : FitsInt ((jobCount * jobCount : ℕ) : ℤ))
    (hroom : jobsCapacity + workers.card + resultsCapacity < jobCount)
    (hs : (poolSystem jobCount workers jobsCapacity resultsCapacity).Reachable s) :
    ∃ next, s.pc = .writing next := by
  obtain ⟨start, labels, rfl, hrun⟩ := hs
  have hboth := hrun.preserves
    (I := fun s =>
      Inv jobCount workers jobsCapacity resultsCapacity s ∧ ∃ next, s.pc = .writing next)
    (fun _ _ _ h hstep => ⟨h.1.step hfits hstep, h.1.stays_writing hroom h.2 hstep⟩)
    ⟨inv_started, 1, rfl⟩
  exact hboth.2

/-- The demo comes to its end in every order of its steps when the workers and the
channels have room for all jobs, and in none otherwise. No run is longer than the jobs
allow, and what is printed in the end is the result of every job, once. -/
theorem worker_pool_returns_iff (hworkers : workers.Nonempty)
    (hfits : FitsInt ((jobCount * jobCount : ℕ) : ℤ)) :
    (jobCount ≤ jobsCapacity + workers.card + resultsCapacity →
      ∀ s, (poolSystem jobCount workers jobsCapacity resultsCapacity).Reachable s →
        (poolSystem jobCount workers jobsCapacity resultsCapacity).Stuck s → s.Finished workers) ∧
    (jobsCapacity + workers.card + resultsCapacity < jobCount →
      (∀ s, (poolSystem jobCount workers jobsCapacity resultsCapacity).Reachable s →
        ¬ s.Finished workers) ∧
      ∃ s, (poolSystem jobCount workers jobsCapacity resultsCapacity).Reachable s ∧
        (poolSystem jobCount workers jobsCapacity resultsCapacity).Stuck s) ∧
    (∀ labels s, (poolSystem jobCount workers jobsCapacity resultsCapacity).Run
      (started workers jobsCapacity resultsCapacity) labels s →
        labels.length ≤ 5 * jobCount + workers.card + 2) ∧
    ∀ s, (poolSystem jobCount workers jobsCapacity resultsCapacity).Reachable s →
      s.Finished workers → ∃ done : List (WorkerId × ℤ), (∀ d ∈ done, d.1 ∈ workers) ∧
        List.Perm (done.map Prod.snd) ((List.range' 1 jobCount).map (Nat.cast : ℕ → ℤ)) ∧
        s.output = done.map fun d => sumText (resultText d.1 d.2 (d.2 * d.2)) := by
  have hbound : ∀ labels s, (poolSystem jobCount workers jobsCapacity resultsCapacity).Run
      (started workers jobsCapacity resultsCapacity) labels s →
        labels.length ≤ 5 * jobCount + workers.card + 2 := fun _ _ => run_length_le hfits
  refine ⟨?_, ?_, hbound, ?_⟩
  · intro hroom s hs hstuck
    exact finished_of_stuck hworkers hfits hroom hs hstuck
  · intro hroom
    refine ⟨?_, ?_⟩
    · intro s hs hfinished
      obtain ⟨next, hpc⟩ := writing_of_reachable hfits hroom hs
      cases hpc.symm.trans hfinished.1
    · obtain ⟨labels, s, hrun, hstuck⟩ := exists_stuck hbound
      exact ⟨s, ⟨_, labels, rfl, hrun⟩, hstuck⟩
  · intro s hs hfinished
    exact (inv_of_reachable hfits hs).printed hfits hfinished.1

/-- The demo as it is: six jobs that are handed over, three workers, room for six results. -/
theorem worker_pool_returns_six :
    (∀ s, (poolSystem 6 {1, 2, 3} 0 6).Reachable s → (poolSystem 6 {1, 2, 3} 0 6).Stuck s →
      s.Finished {1, 2, 3}) ∧
    ∀ labels s, (poolSystem 6 {1, 2, 3} 0 6).Run (started {1, 2, 3} 0 6) labels s →
      labels.length ≤ 35 := by
  have hworkers : ({1, 2, 3} : Finset WorkerId).Nonempty := by decide
  have hfits : FitsInt ((6 * 6 : ℕ) : ℤ) := by decide
  exact ⟨(worker_pool_returns_iff hworkers hfits).1 (by decide),
    (worker_pool_returns_iff hworkers hfits).2.2.1⟩

end Runs

end CppWorkspace.Cobalt.WorkerPool
