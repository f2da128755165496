import CppWorkspace.Asio.ActorPool

/-!
The runs of the actor pool. The collector receives while the dispatcher still sends, so
that no capacity is too small; the books of the pool say which squares the collector has
added up.
-/

namespace CppWorkspace.Asio.ActorPool

open Lib Pool System

def DispatcherPc.sent (jobCount : ℕ) : DispatcherPc → ℕ
  | .sending next => next - 1
  | .returned => jobCount

/-- The sum of the squares of the jobs. -/
def squaresUpTo (n : ℕ) : ℤ := ∑ job ∈ Finset.range (n + 1), (job : ℤ) * job

theorem squaresUpTo_succ (n : ℕ) :
    squaresUpTo (n + 1) = squaresUpTo n + ((n + 1 : ℕ) : ℤ) * ((n + 1 : ℕ) : ℤ) :=
  Finset.sum_range_succ _ _

theorem squaresUpTo_mono {m n : ℕ} (h : m ≤ n) : squaresUpTo m ≤ squaresUpTo n :=
  Finset.sum_le_sum_of_subset_of_nonneg (Finset.range_subset_range.mpr (Nat.succ_le_succ h))
    fun _ _ _ => mul_self_nonneg _

theorem square_le_squaresUpTo {job n : ℕ} (h : job ≤ n) : (job : ℤ) * job ≤ squaresUpTo n := by
  have hmem : job ∈ Finset.range (n + 1) := Finset.mem_range.mpr (Nat.lt_succ_of_le h)
  exact Finset.single_le_sum (f := fun job : ℕ => (job : ℤ) * job)
    (fun _ _ => mul_self_nonneg _) hmem

/-- The squares of some jobs. -/
def squares (jobs : Multiset ℤ) : ℤ := (jobs.map fun job => job * job).sum

theorem squares_nonneg (jobs : Multiset ℤ) : 0 ≤ squares jobs := by
  refine Multiset.sum_nonneg ?_
  intro square hsquare
  obtain ⟨job, -, rfl⟩ := Multiset.mem_map.mp hsquare
  exact mul_self_nonneg job

theorem squares_add (first second : Multiset ℤ) :
    squares (first + second) = squares first + squares second := by
  rw [squares, Multiset.map_add, Multiset.sum_add, squares, squares]

theorem squares_jobsUpTo (n : ℕ) : squares (jobsUpTo n) = squaresUpTo n := by
  induction n with
  | zero => rfl
  | succ n ih =>
      rw [jobsUpTo_succ, squares_add, ih, squaresUpTo_succ]
      simp [squares]

/-- What the collector has printed of the results. -/
def computed (output : List Line) : List JobResult :=
  output.filterMap fun
    | .computed result => some result
    | _ => none

/-- The sums that have been printed. -/
def sums (output : List Line) : List ℤ :=
  output.filterMap fun
    | .sum _ total => some total
    | _ => none

theorem computed_append (first second : List Line) :
    computed (first ++ second) = computed first ++ computed second := List.filterMap_append ..

theorem sums_append (first second : List Line) :
    sums (first ++ second) = sums first ++ sums second := List.filterMap_append ..

def squareSum (results : List JobResult) : ℤ := (results.map JobResult.square).sum

/-- Where the collector is when it has received these results. -/
def CollectorOk (jobCount : ℕ) (left : List JobResult) (output : List Line) :
    CollectorPc → Prop
  | .receiving received sum =>
      received < jobCount ∧ received = left.length ∧ sum = squareSum left ∧ sums output = []
  | .returned => left.length = jobCount ∧ sums output = [squareSum left]
  | .undefined => False

structure Inv (jobCount : ℕ) (workers : Finset WorkerId) (s : State) : Prop where
  sound : s.pool.Sound workers
  results_open : s.pool.results.closed = false
  sending : ∀ next, s.dispatcher = .sending next →
    1 ≤ next ∧ next ≤ jobCount + 1 ∧ s.pool.jobs.closed = false
  sent : s.dispatcher = .returned → s.pool.jobs.closed = true
  books : ∃ left done,
    Accounts work workers (jobsUpTo (s.dispatcher.sent jobCount)) left done s.pool ∧
      computed s.output = left ∧ CollectorOk jobCount left s.output s.collector

section Books

variable {jobCount : ℕ} {workers : Finset WorkerId} {s s' : State}
  {event : Event WorkerId ℤ JobResult}

/-- Results of operations that are all defined. -/
theorem eq_of_map_int {β : Type*} {values : List ℤ} {items : List β} {exact : β → ℤ}
    (h : values.map some = items.map fun item => int (exact item)) : values = items.map exact := by
  induction items generalizing values with
  | nil => simpa using h
  | cons item items ih =>
      cases values with
      | nil => cases h
      | cons value values =>
          obtain ⟨hvalue, hrest⟩ := List.cons.inj h
          rw [(int_eq_some.mp hvalue.symm).2.symm, ih hrest]
          rfl

theorem work_square (w : WorkerId) (job : ℤ) :
    (work w job).map JobResult.square = int (job * job) := by
  cases hint : int (job * job) with
  | none => simp [work, hint]
  | some square => simp [work, hint]

/-- What the results are worth is what the jobs are worth. -/
theorem squares_done {entered : Multiset ℤ} {left : List JobResult}
    {done : List (WorkerId × ℤ)} {p : Pool WorkerId ℤ JobResult}
    (h : Accounts work workers entered left done p) :
    (left ++ p.results.buffer).map JobResult.square = done.map fun d => d.2 * d.2 := by
  refine eq_of_map_int ?_
  have hresults := congrArg (List.map (Option.map JobResult.square)) h.results
  simpa [Function.comp_def, work_square] using hresults

theorem squareSum_le {entered : Multiset ℤ} {left : List JobResult}
    {done : List (WorkerId × ℤ)} {p : Pool WorkerId ℤ JobResult}
    (h : Accounts work workers entered left done p) :
    0 ≤ squareSum left ∧ squareSum left ≤ squares entered := by
  have hdone := squares_done h
  have hnonneg : ∀ square ∈ (left ++ p.results.buffer).map JobResult.square, 0 ≤ square := by
    rw [hdone]
    intro square hsquare
    obtain ⟨d, -, rfl⟩ := List.mem_map.mp hsquare
    exact mul_self_nonneg _
  rw [List.map_append] at hdone hnonneg
  have hleft : 0 ≤ squareSum left := List.sum_nonneg fun square hsquare =>
    hnonneg square (List.mem_append_left _ hsquare)
  have hbuffer : 0 ≤ (p.results.buffer.map JobResult.square).sum := List.sum_nonneg
    fun square hsquare => hnonneg square (List.mem_append_right _ hsquare)
  have hsum := congrArg List.sum hdone
  rw [List.sum_append] at hsum
  have hjobs : squares (done.map Prod.snd : Multiset ℤ) = (done.map fun d => d.2 * d.2).sum := by
    simp [squares, Function.comp_def]
  have hentered := congrArg squares h.jobs
  rw [squares_add, squares_add, hjobs] at hentered
  have hwaiting := squares_nonneg (p.jobs.buffer : Multiset ℤ)
  have hheld := squares_nonneg (p.held workers)
  refine ⟨hleft, ?_⟩
  unfold squareSum at hleft ⊢
  omega

/-- What dispatcher and collector do, by the kind of event. -/
inductive Acts (jobCount : ℕ) (s : State) :
    Event WorkerId ℤ JobResult → DispatcherPc → CollectorPc → List Line → Prop
  | sends {event : Event WorkerId ℤ JobResult} {next : ℕ} : s.dispatcher = .sending next →
      next ≤ jobCount → event.entered = some (next : ℤ) → event.left = none →
      Acts jobCount s event (.sending (next + 1)) s.collector []
  | closes {next : ℕ} : s.dispatcher = .sending next → jobCount < next →
      Acts jobCount s .jobsClosed .returned s.collector [.queued jobCount]
  | receives {event : Event WorkerId ℤ JobResult} {received : ℕ} {sum : ℤ} {result : JobResult} :
      s.collector = .receiving received sum → event.entered = none → event.left = some result →
      Acts jobCount s event s.dispatcher (receive jobCount received sum result).1
        (receive jobCount received sum result).2
  | works {event : Event WorkerId ℤ JobResult} {lines : List Line} : event.Internal →
      event.entered = none → event.left = none → computed lines = [] → sums lines = [] →
      Acts jobCount s event s.dispatcher s.collector lines

theorem acts_of_actors {dispatcher : DispatcherPc} {collector : CollectorPc} {lines : List Line}
    (h : s.actors jobCount event = some (dispatcher, collector, lines)) :
    Acts jobCount s event dispatcher collector lines := by
  cases event with
  | jobPut job =>
      cases hdispatcher : s.dispatcher with
      | sending next =>
          simp only [State.actors, hdispatcher] at h
          obtain ⟨⟨hle, rfl⟩, heq⟩ := Option.ite_none_right_eq_some.mp h
          cases heq
          exact .sends hdispatcher hle rfl rfl
      | returned => simp [State.actors, hdispatcher] at h
  | jobHanded w job =>
      cases hdispatcher : s.dispatcher with
      | sending next =>
          simp only [State.actors, hdispatcher] at h
          obtain ⟨⟨hle, rfl⟩, heq⟩ := Option.ite_none_right_eq_some.mp h
          cases heq
          exact .sends hdispatcher hle rfl rfl
      | returned => simp [State.actors, hdispatcher] at h
  | jobsClosed =>
      cases hdispatcher : s.dispatcher with
      | sending next =>
          simp only [State.actors, hdispatcher] at h
          obtain ⟨hlt, heq⟩ := Option.ite_none_right_eq_some.mp h
          cases heq
          exact .closes hdispatcher hlt
      | returned => simp [State.actors, hdispatcher] at h
  | resultTaken result =>
      cases hcollector : s.collector with
      | receiving received sum =>
          simp only [State.actors, hcollector, Option.some.injEq, Prod.mk.injEq] at h
          obtain ⟨rfl, hreceive⟩ := h
          have hboth := Prod.ext_iff.mp hreceive
          obtain ⟨rfl, rfl⟩ := hboth
          exact .receives hcollector rfl rfl
      | returned => simp [State.actors, hcollector] at h
      | undefined => simp [State.actors, hcollector] at h
  | resultHanded w result =>
      cases hcollector : s.collector with
      | receiving received sum =>
          simp only [State.actors, hcollector, Option.some.injEq, Prod.mk.injEq] at h
          obtain ⟨rfl, hreceive⟩ := h
          have hboth := Prod.ext_iff.mp hreceive
          obtain ⟨rfl, rfl⟩ := hboth
          exact .receives hcollector rfl rfl
      | returned => simp [State.actors, hcollector] at h
      | undefined => simp [State.actors, hcollector] at h
  | resultsClosed => cases h
  | jobTaken _ | jobsEnded _ | computed _ | resultPut _ | resultRefused _ =>
      cases h
      exact .works trivial rfl rfl rfl rfl

theorem step_spec (h : s.step jobCount event = some s') :
    s.pool.Moves work event s'.pool ∧ event ≠ .resultsClosed ∧ ∃ lines,
      Acts jobCount s event s'.dispatcher s'.collector lines ∧ s'.output = s.output ++ lines := by
  obtain ⟨pool, hpool, hrest⟩ := Option.bind_eq_some_iff.mp h
  obtain ⟨⟨dispatcher, collector, lines⟩, hactors, heq⟩ := Option.bind_eq_some_iff.mp hrest
  cases heq
  refine ⟨moves_of_step hpool, ?_, lines, acts_of_actors hactors, rfl⟩
  rintro rfl
  cases hactors

theorem receive_of_fits {received : ℕ} {sum : ℤ} {result : JobResult}
    (hfits : FitsInt (sum + result.square)) :
    receive jobCount received sum result =
      ((collect jobCount (received + 1) (sum + result.square)).1,
        .computed result :: (collect jobCount (received + 1) (sum + result.square)).2) := by
  simp [receive, int_of_fits hfits]

theorem collect_cases (jobCount received : ℕ) (sum : ℤ) :
    (received < jobCount ∧ collect jobCount received sum = (.receiving received sum, [])) ∨
      (jobCount ≤ received ∧
        collect jobCount received sum = (.returned, [.sum jobCount sum])) := by
  unfold collect
  split
  · next hmore => exact .inl ⟨hmore, rfl⟩
  · next hlast => exact .inr ⟨not_lt.mp hlast, rfl⟩

theorem Acts.jobs {dispatcher : DispatcherPc} {collector : CollectorPc} {lines : List Line}
    (h : Acts jobCount s event dispatcher collector lines)
    (hsending : ∀ next, s.dispatcher = .sending next → 1 ≤ next ∧ next ≤ jobCount + 1) :
    jobsUpTo (dispatcher.sent jobCount) =
      jobsUpTo (s.dispatcher.sent jobCount) + (event.entered.toList : Multiset ℤ) := by
  cases h with
  | @sends event next hdispatcher hle hentered hleft =>
      obtain ⟨m, rfl⟩ : ∃ m, next = m + 1 :=
        ⟨next - 1, (Nat.sub_add_cancel (hsending next hdispatcher).1).symm⟩
      rw [hdispatcher, hentered]
      exact jobsUpTo_succ m
  | @closes next hdispatcher hlt =>
      have hall : next - 1 = jobCount := by
        have hbound := (hsending next hdispatcher).2
        omega
      rw [hdispatcher, DispatcherPc.sent, DispatcherPc.sent, hall]
      exact (add_zero _).symm
  | receives hcollector hentered hleft =>
      rw [hentered]
      exact (add_zero _).symm
  | works hinternal hentered hleft hquiet hnosum =>
      rw [hentered]
      exact (add_zero _).symm

theorem Acts.sent_le {dispatcher : DispatcherPc} {collector : CollectorPc} {lines : List Line}
    (h : Acts jobCount s event dispatcher collector lines)
    (hle : s.dispatcher.sent jobCount ≤ jobCount) : dispatcher.sent jobCount ≤ jobCount := by
  cases h with
  | sends hdispatcher hnext hentered hleft => exact hnext
  | closes hdispatcher hlt => exact le_rfl
  | receives hcollector hentered hleft => exact hle
  | works hinternal hentered hleft hquiet hnosum => exact hle

theorem CollectorOk.append {left : List JobResult} {output lines : List Line}
    {collector : CollectorPc} (h : CollectorOk jobCount left output collector)
    (hnosum : sums lines = []) : CollectorOk jobCount left (output ++ lines) collector := by
  have hsame : sums (output ++ lines) = sums output := by
    rw [sums_append, hnosum, List.append_nil]
  cases collector with
  | receiving received sum => exact ⟨h.1, h.2.1, h.2.2.1, hsame.trans h.2.2.2⟩
  | returned => exact ⟨h.1, hsame.trans h.2⟩
  | undefined => exact h.elim

/-- The books of the collector, when the sum of the results fits. -/
theorem Acts.books {dispatcher : DispatcherPc} {collector : CollectorPc} {lines : List Line}
    {left : List JobResult} (h : Acts jobCount s event dispatcher collector lines)
    (hcomputed : computed s.output = left) (hok : CollectorOk jobCount left s.output s.collector)
    (hfits : FitsInt (squareSum (left ++ event.left.toList))) :
    computed (s.output ++ lines) = left ++ event.left.toList ∧
      CollectorOk jobCount (left ++ event.left.toList) (s.output ++ lines) collector := by
  cases h with
  | @sends event next hdispatcher hle hentered hleft =>
      rw [hleft, Option.toList_none, List.append_nil, List.append_nil]
      exact ⟨hcomputed, hok⟩
  | @closes next hdispatcher hlt =>
      have hok' : CollectorOk jobCount left (s.output ++ [.queued jobCount]) s.collector :=
        hok.append rfl
      refine ⟨?_, ?_⟩
      · simpa [computed_append, computed, Event.left] using hcomputed
      · simpa [Event.left] using hok'
  | @receives event received sum result hcollector hentered hleft =>
      rw [hcollector] at hok
      obtain ⟨hlt, hreceived, hsum, hnone⟩ := hok
      have hnext : squareSum (left ++ [result]) = sum + result.square := by
        simp [squareSum, hsum]
      rw [hleft, Option.toList_some, hnext] at hfits
      rw [hleft]
      refine ⟨?_, ?_⟩
      · rw [receive_of_fits hfits, computed_append, hcomputed]
        rcases collect_cases jobCount (received + 1) (sum + result.square) with ⟨-, heq⟩ | ⟨-, heq⟩
        · rw [heq]
          rfl
        · rw [heq]
          rfl
      · rw [receive_of_fits hfits, Option.toList_some]
        rcases collect_cases jobCount (received + 1) (sum + result.square) with
          ⟨hmore, heq⟩ | ⟨hlast, heq⟩
        · rw [heq]
          refine ⟨hmore, ?_, hnext.symm, ?_⟩
          · rw [List.length_append, List.length_singleton, hreceived]
          · rw [sums_append, hnone]
            rfl
        · rw [heq]
          refine ⟨?_, ?_⟩
          · rw [List.length_append, List.length_singleton]
            omega
          · rw [sums_append, hnone, hnext]
            rfl
  | @works event lines hinternal hentered hleft hquiet hnosum =>
      rw [hleft, Option.toList_none, List.append_nil]
      refine ⟨?_, hok.append hnosum⟩
      rw [computed_append, hquiet, List.append_nil, hcomputed]

end Books

section Steps

variable {jobCount : ℕ} {workers : Finset WorkerId} {s s' : State}
  {event : Event WorkerId ℤ JobResult}

theorem inv_started (jobCount : ℕ) (workers : Finset WorkerId)
    (queueCapacity resultsCapacity : ℕ) :
    Inv jobCount workers (started jobCount workers queueCapacity resultsCapacity) where
  sound :=
    { absent := fun w hw => if_neg hw
      drained := fun w hw hreturned => by
        simp only [started, if_pos hw] at hreturned
        cases hreturned
      safe := fun w => by
        simp only [started]
        split <;> simp }
  results_open := rfl
  sending := by
    rintro next ⟨⟩
    exact ⟨le_rfl, Nat.le_add_left 1 jobCount, rfl⟩
  sent := by simp [started]
  books := by
    refine ⟨[], [], ⟨?_, rfl, ?_, by simp⟩, ?_, ?_⟩
    · have hheld : Pool.held workers
          (started jobCount workers queueCapacity resultsCapacity).pool = 0 := by
        refine Finset.sum_eq_zero ?_
        intro w hw
        simp [started, hw, PoolPc.held]
      rw [hheld]
      rfl
    · intro w job result hsending
      simp only [started] at hsending
      split at hsending <;> cases hsending
    · unfold started collect
      split <;> rfl
    · unfold started collect
      split
      · next hmore => exact ⟨hmore, rfl, rfl, rfl⟩
      · next hnone => exact ⟨(Nat.eq_zero_of_not_pos hnone).symm, rfl⟩

theorem Inv.sent_le (h : Inv jobCount workers s) : s.dispatcher.sent jobCount ≤ jobCount := by
  cases hdispatcher : s.dispatcher with
  | sending next =>
      have hbound := (h.sending next hdispatcher).2.1
      simp only [DispatcherPc.sent]
      omega
  | returned => exact le_rfl

variable (hfits : FitsInt (squaresUpTo jobCount))

include hfits

/-- The square of every job fits. -/
theorem Inv.total (h : Inv jobCount workers s) (w : WorkerId) (job : ℤ)
    (hw : s.pool.worker w = .busy job) : work w job ≠ none := by
  obtain ⟨left, done, haccounts, -, -⟩ := h.books
  have hmem : w ∈ workers := h.sound.mem (by simp [hw])
  have hheld : job ∈ (s.pool.worker w).held := by simp [hw, PoolPc.held]
  have hentered := haccounts.mem_entered hmem hheld
  obtain ⟨i, hi, rfl⟩ := List.mem_map.mp (Multiset.mem_coe.mp hentered)
  obtain ⟨hlow, hhigh⟩ := List.mem_range'_1.mp hi
  have hle : i ≤ jobCount := by
    have hsent := h.sent_le
    omega
  have hsquare := square_le_squaresUpTo hle
  have hnonneg := mul_self_nonneg (i : ℤ)
  have hfits' : FitsInt ((i : ℤ) * i) := ⟨by omega, hsquare.trans hfits.2⟩
  rw [work, int_of_fits hfits']
  simp

theorem Inv.step (h : Inv jobCount workers s) (hstep : s.step jobCount event = some s') :
    Inv jobCount workers s' := by
  obtain ⟨hmoves, hnever, lines, hacts, houtput⟩ := step_spec hstep
  have hopen : ∀ w job result, s.pool.worker w = .sending job result →
      s.pool.results.closed = false := fun _ _ _ _ => h.results_open
  have hsound := h.sound.step hmoves hopen (h.total hfits)
  have hresults := (hmoves.results_closed hnever).trans h.results_open
  obtain ⟨left, done, haccounts, hcomputed, hok⟩ := h.books
  obtain ⟨done', haccounts'⟩ := haccounts.step h.sound hmoves hopen (h.total hfits)
  have hjobs := hacts.jobs fun next hdispatcher =>
    ⟨(h.sending next hdispatcher).1, (h.sending next hdispatcher).2.1⟩
  rw [← hjobs] at haccounts'
  have hsent : s'.dispatcher.sent jobCount ≤ jobCount := hacts.sent_le h.sent_le
  have hbound := squareSum_le haccounts'
  rw [squares_jobsUpTo] at hbound
  have hleft : FitsInt (squareSum (left ++ event.left.toList)) := by
    have hmono := squaresUpTo_mono hsent
    unfold FitsInt at hfits ⊢
    omega
  obtain ⟨hcomputed', hok'⟩ := hacts.books hcomputed hok hleft
  rw [← houtput] at hcomputed' hok'
  have hbooks : ∃ left done,
      Accounts work workers (jobsUpTo (s'.dispatcher.sent jobCount)) left done s'.pool ∧
        computed s'.output = left ∧ CollectorOk jobCount left s'.output s'.collector :=
    ⟨_, done', haccounts', hcomputed', hok'⟩
  obtain ⟨pool, dispatcher, collector, output⟩ := s'
  cases hacts with
  | @sends event next hdispatcher hle hentered hnone =>
      have hstill := hmoves.jobs_closed (by rintro rfl; cases hentered)
      exact
        { sound := hsound
          results_open := hresults
          sending := by
            rintro next' heq
            cases heq
            exact ⟨Nat.le_add_left 1 next, Nat.succ_le_succ hle,
              hstill.trans (h.sending next hdispatcher).2.2⟩
          sent := fun heq => by cases heq
          books := hbooks }
  | @closes next hdispatcher hlt =>
      exact
        { sound := hsound
          results_open := hresults
          sending := fun next heq => by cases heq
          sent := fun _ => by
            cases hmoves
            rfl
          books := hbooks }
  | receives hcollector hentered hsome =>
      have hstill := hmoves.jobs_closed (by rintro rfl; cases hsome)
      exact
        { sound := hsound
          results_open := hresults
          sending := fun next hdispatcher =>
            ⟨(h.sending next hdispatcher).1, (h.sending next hdispatcher).2.1,
              hstill.trans (h.sending next hdispatcher).2.2⟩
          sent := fun hdispatcher => hstill.trans (h.sent hdispatcher)
          books := hbooks }
  | works hinternal hentered hnone hquiet hnosum =>
      have hstill := hmoves.jobs_closed (by rintro rfl; exact hinternal)
      exact
        { sound := hsound
          results_open := hresults
          sending := fun next hdispatcher =>
            ⟨(h.sending next hdispatcher).1, (h.sending next hdispatcher).2.1,
              hstill.trans (h.sending next hdispatcher).2.2⟩
          sent := fun hdispatcher => hstill.trans (h.sent hdispatcher)
          books := hbooks }

omit hfits

/-- Nothing can be done. -/
def State.Waits (jobCount : ℕ) (s : State) : Prop := ∀ event, s.step jobCount event = none

theorem State.Waits.not_moves (hwaits : s.Waits jobCount) {p' : Pool WorkerId ℤ JobResult}
    (hmove : s.pool.Moves work event p') : s.actors jobCount event = none := by
  have hnone := hwaits event
  cases hactors : s.actors jobCount event with
  | none => rfl
  | some acts =>
      rw [State.step, step_of_moves hmove, hactors] at hnone
      cases hnone

theorem State.Waits.idle (hwaits : s.Waits jobCount) : s.pool.Idle work := by
  rintro event p' hinternal hmove
  have hactors : ∃ lines, s.actors jobCount event = some (s.dispatcher, s.collector, lines) := by
    cases event with
    | jobTaken _ | jobsEnded _ | computed _ | resultPut _ | resultRefused _ => exact ⟨_, rfl⟩
    | jobPut _ | jobHanded _ _ | jobsClosed | resultTaken _ | resultHanded _ _ | resultsClosed =>
        cases hinternal
  obtain ⟨lines, hactors⟩ := hactors
  cases hactors.symm.trans (hwaits.not_moves hmove)

/-- While the collector receives, a worker is never kept from giving its result away. -/
theorem Inv.workers_of_receiving (h : Inv jobCount workers s) (hwaits : s.Waits jobCount)
    {received : ℕ} {sum : ℤ} (hcollector : s.collector = .receiving received sum) :
    s.pool.results.buffer = [] ∧ ∀ w, (s.pool.worker w = .receiving ∧ s.pool.jobs.Meets) ∨
      s.pool.worker w = .returned := by
  have hempty : s.pool.results.buffer = [] := by
    by_contra hsome
    obtain ⟨result, results, htake⟩ := Channel.take_of_ne_nil hsome
    have hnone := hwaits.not_moves (.resultTaken htake)
    simp [State.actors, hcollector] at hnone
  refine ⟨hempty, ?_⟩
  intro w
  rcases hwaits.idle.cases h.sound w with hreceiving | ⟨job, result, hsending, -, -⟩ | hreturned
  · exact .inl hreceiving
  · have hnone := hwaits.not_moves (.resultHanded hsending ⟨h.results_open, hempty⟩)
    simp [State.actors, hcollector] at hnone
  · exact .inr hreturned

/-- What the channels and the workers hold of the jobs. -/
theorem Inv.card (h : Inv jobCount workers s) :
    s.dispatcher.sent jobCount = s.pool.jobs.buffer.length + (s.pool.held workers).card +
      (computed s.output).length + s.pool.results.buffer.length := by
  obtain ⟨left, done, haccounts, hcomputed, -⟩ := h.books
  rw [hcomputed, ← haccounts.card, card_jobsUpTo]

theorem Inv.collector_ok (h : Inv jobCount workers s) :
    CollectorOk jobCount (computed s.output) s.output s.collector := by
  obtain ⟨left, done, -, hcomputed, hok⟩ := h.books
  rw [hcomputed]
  exact hok

theorem State.Waits.le_of_sending (hwaits : s.Waits jobCount) {next : ℕ}
    (hdispatcher : s.dispatcher = .sending next) : next ≤ jobCount := by
  by_contra hlast
  have hnone := hwaits.not_moves .jobsClosed
  simp only [State.actors, hdispatcher, if_pos (not_le.mp hlast)] at hnone
  cases hnone

/-- The collector waits for a result only where one is on its way. -/
theorem Inv.not_receiving (h : Inv jobCount workers s) (hworkers : workers.Nonempty)
    (hwaits : s.Waits jobCount) (received : ℕ) (sum : ℤ) :
    s.collector ≠ .receiving received sum := by
  intro hcollector
  obtain ⟨hempty, hcases⟩ := h.workers_of_receiving hwaits hcollector
  obtain ⟨w, hw⟩ := hworkers
  cases hdispatcher : s.dispatcher with
  | sending next =>
      have hle := hwaits.le_of_sending hdispatcher
      have hopen := (h.sending next hdispatcher).2.2
      rcases hcases w with ⟨hreceiving, hmeets⟩ | hreturned
      · have hnone : s.actors jobCount (.jobHanded w (next : ℤ)) = none :=
          hwaits.not_moves (.jobHanded hreceiving hmeets)
        simp [State.actors, hdispatcher, hle] at hnone
      · exact Channel.not_exhausted_of_open hopen (h.sound.drained w hw hreturned)
  | returned =>
      have hclosed := h.sent hdispatcher
      have hall : ∀ w, s.pool.worker w = .returned := by
        intro w
        refine (hcases w).resolve_left ?_
        rintro ⟨-, hmeets⟩
        cases hclosed.symm.trans hmeets.1
      have hcard := h.card
      have hok := h.collector_ok
      rw [hcollector] at hok
      obtain ⟨hlt, hreceived, -, -⟩ := hok
      rw [hdispatcher, DispatcherPc.sent, held_eq_zero fun w _ => hall w, hempty,
        (h.sound.drained w hw (hall w)).2] at hcard
      simp only [List.length_nil, Multiset.card_zero] at hcard
      omega

/-- When the collector has all results nobody else waits. -/
theorem Inv.finished_of_returned (h : Inv jobCount workers s) (hwaits : s.Waits jobCount)
    (hcollector : s.collector = .returned) : s.Finished workers := by
  have hcard := h.card
  have hsent := h.sent_le
  have hok := h.collector_ok
  rw [hcollector] at hok
  have hlength := hok.1
  have hdispatcher : s.dispatcher = .returned := by
    cases hdispatcher : s.dispatcher with
    | sending next =>
        have hle := hwaits.le_of_sending hdispatcher
        have hfirst := (h.sending next hdispatcher).1
        rw [hdispatcher, DispatcherPc.sent] at hcard
        omega
    | returned => rfl
  refine ⟨hdispatcher, hcollector, ?_⟩
  intro w hw
  rcases hwaits.idle.cases h.sound w with ⟨-, hmeets⟩ | ⟨job, result, hsending, -, -⟩ | hreturned
  · cases (h.sent hdispatcher).symm.trans hmeets.1
  · have hone := held_card_le (p := s.pool) hw
    rw [hsending, PoolPc.held, Multiset.card_singleton] at hone
    omega
  · exact hreturned

/-- The steps that the dispatcher pays for. -/
def DispatcherPc.work (jobCount : ℕ) : DispatcherPc → ℕ
  | .sending next => 5 * (jobCount + 1 - next) + 1
  | .returned => 0

theorem Acts.work {dispatcher : DispatcherPc} {collector : CollectorPc} {lines : List Line}
    (h : Acts jobCount s event dispatcher collector lines) :
    dispatcher.work jobCount + event.cost ≤ s.dispatcher.work jobCount := by
  have hcost : event.cost ≤ 5 ∧ (event.Internal ∨ event.left ≠ none → event.cost = 0) := by
    cases event <;> simp [Event.cost, Event.left, Event.Internal]
  cases h with
  | sends hdispatcher hle hentered hleft =>
      rw [hdispatcher, DispatcherPc.work, DispatcherPc.work]
      omega
  | closes hdispatcher hlt =>
      rw [hdispatcher, DispatcherPc.work, DispatcherPc.work, Event.cost]
      omega
  | receives hcollector hentered hleft =>
      have hzero := hcost.2 (.inr (by simp [hleft]))
      omega
  | works hinternal hentered hleft hquiet hnosum =>
      have hzero := hcost.2 (.inl hinternal)
      omega

/-- The steps that are left. -/
def State.work (jobCount : ℕ) (workers : Finset WorkerId) (s : State) : ℕ :=
  s.pool.work workers + s.dispatcher.work jobCount

theorem Inv.work_lt (h : Inv jobCount workers s) (hstep : s.step jobCount event = some s') :
    s'.work jobCount workers < s.work jobCount workers := by
  obtain ⟨hmoves, -, lines, hacts, -⟩ := step_spec hstep
  have hpool := hmoves.work_lt h.sound
  have hpays := hacts.work
  simp only [State.work]
  omega

theorem work_started (jobCount : ℕ) (workers : Finset WorkerId)
    (queueCapacity resultsCapacity : ℕ) :
    (started jobCount workers queueCapacity resultsCapacity).work jobCount workers =
      5 * jobCount + workers.card + 1 := by
  have hworkers : ∀ w ∈ workers,
      ((started jobCount workers queueCapacity resultsCapacity).pool.worker w).work = 1 := by
    intro w hw
    simp [started, hw, PoolPc.work]
  rw [State.work, Pool.work, Finset.sum_congr rfl hworkers, ← Finset.card_eq_sum_ones]
  simp only [started, Channel.make_buffer, List.length_nil, DispatcherPc.work]
  omega

/-- What was printed in the end. -/
theorem Inv.printed (hfits : FitsInt (squaresUpTo jobCount)) (h : Inv jobCount workers s)
    (hfinished : s.Finished workers) :
    (∃ done : List (WorkerId × ℤ), (∀ d ∈ done, d.1 ∈ workers) ∧
      List.Perm (done.map Prod.snd) ((List.range' 1 jobCount).map (Nat.cast : ℕ → ℤ)) ∧
      computed s.output = done.map fun d => ⟨d.1, d.2, d.2 * d.2⟩) ∧
    sums s.output = [squaresUpTo jobCount] := by
  obtain ⟨left, done, haccounts, hcomputed, hok⟩ := h.books
  obtain ⟨hdispatcher, hcollector, -⟩ := hfinished
  rw [hcollector] at hok
  obtain ⟨hlength, hsums⟩ := hok
  rw [hdispatcher, DispatcherPc.sent] at haccounts
  have hcard := haccounts.card
  rw [card_jobsUpTo] at hcard
  have hnone : s.pool.results.buffer = [] := List.length_eq_zero_iff.mp (by omega)
  have hbuffer : s.pool.jobs.buffer = [] := List.length_eq_zero_iff.mp (by omega)
  have hheld : s.pool.held workers = 0 := Multiset.card_eq_zero.mp (by omega)
  have hjobs := haccounts.jobs
  rw [hbuffer, hheld, Multiset.coe_nil, zero_add, zero_add] at hjobs
  have hresults := haccounts.results
  have hmade : ∀ d ∈ done, work d.1 d.2 = some ⟨d.1, d.2, d.2 * d.2⟩ := by
    intro d hd
    have hmem : d.2 ∈ (done.map Prod.snd : Multiset ℤ) :=
      Multiset.mem_coe.mpr (List.mem_map_of_mem hd)
    rw [← hjobs] at hmem
    obtain ⟨i, hi, heq⟩ := List.mem_map.mp (Multiset.mem_coe.mp hmem)
    obtain ⟨hlow, hhigh⟩ := List.mem_range'_1.mp hi
    have hsquare := square_le_squaresUpTo (by omega : i ≤ jobCount)
    have hnonneg := mul_self_nonneg (i : ℤ)
    have hfits' : FitsInt ((i : ℤ) * i) := ⟨by omega, hsquare.trans hfits.2⟩
    rw [← heq, work, int_of_fits hfits', Option.map_some]
  rw [hnone, List.append_nil, List.map_congr_left hmade] at hresults
  have hleft : left = done.map fun d => ⟨d.1, d.2, d.2 * d.2⟩ := by
    apply List.map_injective_iff.mpr (Option.some_injective JobResult)
    rw [hresults, List.map_map]
    rfl
  refine ⟨⟨done, haccounts.doers, Multiset.coe_eq_coe.mp hjobs.symm, hcomputed.trans hleft⟩, ?_⟩
  have hsquares := squares_jobsUpTo jobCount
  rw [hjobs] at hsquares
  rw [hsums, ← hsquares, hleft]
  simp [squareSum, squares, Function.comp_def]

end Steps

section Runs

variable {jobCount queueCapacity resultsCapacity : ℕ} {workers : Finset WorkerId} {s : State}

theorem inv_of_reachable (hfits : FitsInt (squaresUpTo jobCount))
    (hs : (actorPool jobCount workers queueCapacity resultsCapacity).Reachable s) :
    Inv jobCount workers s := by
  obtain ⟨start, labels, rfl, hrun⟩ := hs
  exact hrun.preserves (fun _ _ _ h hstep => h.step hfits hstep)
    (inv_started jobCount workers queueCapacity resultsCapacity)

theorem waits_of_stuck
    (hstuck : (actorPool jobCount workers queueCapacity resultsCapacity).Stuck s) :
    s.Waits jobCount := by
  intro event
  cases hnext : s.step jobCount event with
  | none => rfl
  | some s' => exact absurd hnext (hstuck event s')

theorem finished_of_stuck (hworkers : workers.Nonempty) (hfits : FitsInt (squaresUpTo jobCount))
    (hs : (actorPool jobCount workers queueCapacity resultsCapacity).Reachable s)
    (hstuck : (actorPool jobCount workers queueCapacity resultsCapacity).Stuck s) :
    s.Finished workers := by
  have h := inv_of_reachable hfits hs
  have hwaits := waits_of_stuck hstuck
  cases hcollector : s.collector with
  | receiving received sum => exact absurd hcollector (h.not_receiving hworkers hwaits received sum)
  | returned => exact h.finished_of_returned hwaits hcollector
  | undefined =>
      have hok := h.collector_ok
      rw [hcollector] at hok
      exact hok.elim

theorem run_length_le (hfits : FitsInt (squaresUpTo jobCount))
    {labels : List (Event WorkerId ℤ JobResult)}
    (hrun : (actorPool jobCount workers queueCapacity resultsCapacity).Run
      (started jobCount workers queueCapacity resultsCapacity) labels s) :
    labels.length ≤ 5 * jobCount + workers.card + 1 := by
  have hwork := hrun.length_le (I := Inv jobCount workers)
    (fun _ _ _ h hstep => ⟨h.step hfits hstep, h.work_lt hstep⟩)
    (inv_started jobCount workers queueCapacity resultsCapacity)
  rw [work_started] at hwork
  omega

/-- Whatever the capacities, the demo comes to its end in every order of its steps: no run
is longer than the jobs allow, and where nothing can be done all coroutines have
returned. Then the result of every job has been printed once, and their sum. -/
theorem actor_pool_finishes (hworkers : workers.Nonempty) (hfits : FitsInt (squaresUpTo jobCount)) :
    (∀ labels s, (actorPool jobCount workers queueCapacity resultsCapacity).Run
      (started jobCount workers queueCapacity resultsCapacity) labels s →
        labels.length ≤ 5 * jobCount + workers.card + 1) ∧
    ∀ s, (actorPool jobCount workers queueCapacity resultsCapacity).Reachable s →
      (actorPool jobCount workers queueCapacity resultsCapacity).Stuck s →
        s.Finished workers ∧
        (∃ done : List (WorkerId × ℤ), (∀ d ∈ done, d.1 ∈ workers) ∧
          List.Perm (done.map Prod.snd) ((List.range' 1 jobCount).map (Nat.cast : ℕ → ℤ)) ∧
          computed s.output = done.map fun d => ⟨d.1, d.2, d.2 * d.2⟩) ∧
        sums s.output = [squaresUpTo jobCount] := by
  refine ⟨fun _ _ => run_length_le hfits, ?_⟩
  intro s hs hstuck
  have hfinished := finished_of_stuck hworkers hfits hs hstuck
  exact ⟨hfinished, (inv_of_reachable hfits hs).printed hfits hfinished⟩

/-- The demo as it is. -/
theorem actor_pool_finishes_eight :
    (∀ labels s, (actorPool 8 {1, 2, 3} 4 8).Run (started 8 {1, 2, 3} 4 8) labels s →
      labels.length ≤ 44) ∧
    ∀ s, (actorPool 8 {1, 2, 3} 4 8).Reachable s → (actorPool 8 {1, 2, 3} 4 8).Stuck s →
      s.Finished {1, 2, 3} ∧ sums s.output = [204] := by
  have hworkers : ({1, 2, 3} : Finset WorkerId).Nonempty := by decide
  have hfits : FitsInt (squaresUpTo 8) := by decide
  refine ⟨(actor_pool_finishes hworkers hfits).1, ?_⟩
  intro s hs hstuck
  obtain ⟨hfinished, -, hsums⟩ := (actor_pool_finishes hworkers hfits).2 s hs hstuck
  exact ⟨hfinished, hsums⟩

end Runs

end CppWorkspace.Asio.ActorPool
