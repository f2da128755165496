import CppWorkspace.Lib.Stage

/-!
Workers that compete for jobs. The jobs come through one channel and the results go
out through another; whoever feeds the pool and whoever empties it is left open, and
takes part in the events that cross the border. The accounts say where every job is.
-/

namespace CppWorkspace.Lib

inductive PoolPc (J R : Type*) where
  | receiving
  | busy (job : J)
  | sending (job : J) (result : R)
  | returned
  /-- The send found its channel closed. -/
  | threw
  /-- The computation has no defined result. -/
  | undefined
deriving DecidableEq, Repr

structure Pool (W J R : Type*) where
  jobs : Channel J
  results : Channel R
  worker : W → PoolPc J R

namespace Pool

variable {W J R : Type*}

inductive Event (W J R : Type*) where
  | jobPut (job : J)
  /-- A worker waits for the job. -/
  | jobHanded (w : W) (job : J)
  | jobsClosed
  | jobTaken (w : W)
  | jobsEnded (w : W)
  | computed (w : W)
  | resultPut (w : W)
  | resultRefused (w : W)
  | resultTaken (result : R)
  /-- The result is waited for. -/
  | resultHanded (w : W) (result : R)
  | resultsClosed
deriving DecidableEq, Repr

/-- The workers do it by themselves. -/
def Event.Internal : Event W J R → Prop
  | .jobTaken _ | .jobsEnded _ | .computed _ | .resultPut _ | .resultRefused _ => True
  | .jobPut _ | .jobHanded _ _ | .jobsClosed | .resultTaken _ | .resultHanded _ _
  | .resultsClosed => False

instance : DecidablePred (Event.Internal (W := W) (J := J) (R := R))
  | .jobTaken _ | .jobsEnded _ | .computed _ | .resultPut _ | .resultRefused _ => isTrue trivial
  | .jobPut _ | .jobHanded _ _ | .jobsClosed | .resultTaken _ | .resultHanded _ _
  | .resultsClosed => isFalse id

/-- The job that comes into the pool. -/
def Event.entered : Event W J R → Option J
  | .jobPut job | .jobHanded _ job => some job
  | _ => none

/-- The result that leaves the pool. -/
def Event.left : Event W J R → Option R
  | .resultTaken result | .resultHanded _ result => some result
  | _ => none

def afterWork (job : J) : Option R → PoolPc J R
  | some result => .sending job result
  | none => .undefined

variable [DecidableEq W] (make : W → J → Option R)

def setWorker (p : Pool W J R) (w : W) (pc : PoolPc J R) : Pool W J R :=
  { p with worker := Function.update p.worker w pc }

/-- What an event does to the pool, when it can happen; `make` is what a worker makes of
a job. -/
def step [DecidableEq R] (p : Pool W J R) : Event W J R → Option (Pool W J R)
  | .jobPut job => (p.jobs.put job).map fun jobs => { p with jobs }
  | .jobHanded w job =>
      match p.worker w with
      | .receiving => if p.jobs.Meets then some (p.setWorker w (.busy job)) else none
      | _ => none
  | .jobsClosed => some { p with jobs := p.jobs.close }
  | .jobTaken w =>
      match p.worker w with
      | .receiving => p.jobs.take.map fun (job, jobs) => { p with jobs }.setWorker w (.busy job)
      | _ => none
  | .jobsEnded w =>
      match p.worker w with
      | .receiving => if p.jobs.Exhausted then some (p.setWorker w .returned) else none
      | _ => none
  | .computed w =>
      match p.worker w with
      | .busy job => some (p.setWorker w (afterWork job (make w job)))
      | _ => none
  | .resultPut w =>
      match p.worker w with
      | .sending _ result =>
          (p.results.put result).map fun results => { p with results }.setWorker w .receiving
      | _ => none
  | .resultRefused w =>
      match p.worker w with
      | .sending _ _ => if p.results.closed then some (p.setWorker w .threw) else none
      | _ => none
  | .resultTaken result =>
      p.results.take.bind fun (value, results) =>
        if value = result then some { p with results } else none
  | .resultHanded w result =>
      match p.worker w with
      | .sending _ value =>
          if value = result ∧ p.results.Meets then some (p.setWorker w .receiving) else none
      | _ => none
  | .resultsClosed => some { p with results := p.results.close }

/-- The events, one constructor for each. -/
inductive Moves (p : Pool W J R) : Event W J R → Pool W J R → Prop
  | jobPut {job : J} {jobs : Channel J} : p.jobs.put job = some jobs →
      Moves p (.jobPut job) { p with jobs }
  | jobHanded {w : W} {job : J} : p.worker w = .receiving → p.jobs.Meets →
      Moves p (.jobHanded w job) (p.setWorker w (.busy job))
  | jobsClosed : Moves p .jobsClosed { p with jobs := p.jobs.close }
  | jobTaken {w : W} {job : J} {jobs : Channel J} : p.worker w = .receiving →
      p.jobs.take = some (job, jobs) →
      Moves p (.jobTaken w) ({ p with jobs }.setWorker w (.busy job))
  | jobsEnded {w : W} : p.worker w = .receiving → p.jobs.Exhausted →
      Moves p (.jobsEnded w) (p.setWorker w .returned)
  | computed {w : W} {job : J} : p.worker w = .busy job →
      Moves p (.computed w) (p.setWorker w (afterWork job (make w job)))
  | resultPut {w : W} {job : J} {result : R} {results : Channel R} :
      p.worker w = .sending job result → p.results.put result = some results →
      Moves p (.resultPut w) ({ p with results }.setWorker w .receiving)
  | resultRefused {w : W} {job : J} {result : R} : p.worker w = .sending job result →
      p.results.closed = true → Moves p (.resultRefused w) (p.setWorker w .threw)
  | resultTaken {result : R} {results : Channel R} : p.results.take = some (result, results) →
      Moves p (.resultTaken result) { p with results }
  | resultHanded {w : W} {job : J} {result : R} : p.worker w = .sending job result →
      p.results.Meets → Moves p (.resultHanded w result) (p.setWorker w .receiving)
  | resultsClosed : Moves p .resultsClosed { p with results := p.results.close }

variable {make} {p p' : Pool W J R} {event : Event W J R}

theorem moves_of_step [DecidableEq R] (h : p.step make event = some p') :
    p.Moves make event p' := by
  cases event with
  | jobPut job =>
      obtain ⟨jobs, hput, rfl⟩ := Option.map_eq_some_iff.mp h
      exact .jobPut hput
  | jobHanded w job =>
      cases hw : p.worker w with
      | receiving =>
          simp only [step, hw] at h
          obtain ⟨hmeets, heq⟩ := Option.ite_none_right_eq_some.mp h
          cases heq
          exact .jobHanded hw hmeets
      | busy _ | sending _ _ | returned | threw | undefined =>
          simp only [step, hw] at h
          cases h
  | jobsClosed =>
      cases h
      exact .jobsClosed
  | jobTaken w =>
      cases hw : p.worker w with
      | receiving =>
          simp only [step, hw] at h
          obtain ⟨⟨job, jobs⟩, htake, rfl⟩ := Option.map_eq_some_iff.mp h
          exact .jobTaken hw htake
      | busy _ | sending _ _ | returned | threw | undefined =>
          simp only [step, hw] at h
          cases h
  | jobsEnded w =>
      cases hw : p.worker w with
      | receiving =>
          simp only [step, hw] at h
          obtain ⟨hends, heq⟩ := Option.ite_none_right_eq_some.mp h
          cases heq
          exact .jobsEnded hw hends
      | busy _ | sending _ _ | returned | threw | undefined =>
          simp only [step, hw] at h
          cases h
  | computed w =>
      cases hw : p.worker w with
      | busy job =>
          simp only [step, hw] at h
          cases h
          exact .computed hw
      | receiving | sending _ _ | returned | threw | undefined =>
          simp only [step, hw] at h
          cases h
  | resultPut w =>
      cases hw : p.worker w with
      | sending job result =>
          simp only [step, hw] at h
          obtain ⟨results, hput, rfl⟩ := Option.map_eq_some_iff.mp h
          exact .resultPut hw hput
      | receiving | busy _ | returned | threw | undefined =>
          simp only [step, hw] at h
          cases h
  | resultRefused w =>
      cases hw : p.worker w with
      | sending job result =>
          simp only [step, hw] at h
          obtain ⟨hclosed, heq⟩ := Option.ite_none_right_eq_some.mp h
          cases heq
          exact .resultRefused hw hclosed
      | receiving | busy _ | returned | threw | undefined =>
          simp only [step, hw] at h
          cases h
  | resultTaken result =>
      obtain ⟨⟨value, results⟩, htake, hrest⟩ := Option.bind_eq_some_iff.mp h
      obtain ⟨rfl, heq⟩ := Option.ite_none_right_eq_some.mp hrest
      cases heq
      exact .resultTaken htake
  | resultHanded w result =>
      cases hw : p.worker w with
      | sending job value =>
          simp only [step, hw] at h
          obtain ⟨⟨rfl, hmeets⟩, heq⟩ := Option.ite_none_right_eq_some.mp h
          cases heq
          exact .resultHanded hw hmeets
      | receiving | busy _ | returned | threw | undefined =>
          simp only [step, hw] at h
          cases h
  | resultsClosed =>
      cases h
      exact .resultsClosed

theorem step_of_moves [DecidableEq R] (h : p.Moves make event p') :
    p.step make event = some p' := by
  cases h with
  | jobPut hput => simp only [step, hput, Option.map_some]
  | jobHanded hw hmeets => simp only [step, hw, if_pos hmeets]
  | jobsClosed => rfl
  | jobTaken hw htake => simp only [step, hw, htake, Option.map_some]
  | jobsEnded hw hends => simp only [step, hw, if_pos hends]
  | computed hw => simp only [step, hw]
  | resultPut hw hput => simp only [step, hw, hput, Option.map_some]
  | resultRefused hw hclosed => simp only [step, hw, if_pos hclosed]
  | resultTaken htake => simp only [step, htake, Option.bind_some, if_true]
  | resultHanded hw hmeets => simp only [step, hw, true_and, if_pos hmeets]
  | resultsClosed => rfl

/-- What the workers know of the channels. -/
structure Sound (workers : Finset W) (p : Pool W J R) : Prop where
  absent : ∀ w, w ∉ workers → p.worker w = .returned
  drained : ∀ w ∈ workers, p.worker w = .returned → p.jobs.Exhausted
  safe : ∀ w, p.worker w ≠ .threw ∧ p.worker w ≠ .undefined

@[simp] theorem setWorker_jobs (w : W) (pc : PoolPc J R) : (p.setWorker w pc).jobs = p.jobs := rfl

@[simp] theorem setWorker_results (w : W) (pc : PoolPc J R) :
    (p.setWorker w pc).results = p.results := rfl

theorem setWorker_worker (w v : W) (pc : PoolPc J R) :
    (p.setWorker w pc).worker v = if v = w then pc else p.worker v := by
  simp [setWorker, Function.update_apply]

variable {workers : Finset W}

theorem Sound.setWorker (h : p.Sound workers) {w : W} {pc : PoolPc J R}
    (hnow : p.worker w ≠ .returned) (hsafe : pc ≠ .threw ∧ pc ≠ .undefined)
    (hdone : pc = .returned → p.jobs.Exhausted) : (p.setWorker w pc).Sound workers where
  absent v hv := by
    rw [setWorker_worker]
    split
    · next heq => exact absurd (heq ▸ h.absent v hv) hnow
    · exact h.absent v hv
  drained v hv := by
    rw [setWorker_worker]
    split
    · exact hdone
    · exact h.drained v hv
  safe v := by
    rw [setWorker_worker]
    split
    · exact hsafe
    · exact h.safe v

omit [DecidableEq W] in
theorem Sound.setJobs (h : p.Sound workers) (jobs : Channel J)
    (hsome : ¬ p.jobs.Exhausted ∨ jobs.Exhausted) : Sound workers { p with jobs } where
  absent := h.absent
  drained w hw hreturned := hsome.resolve_left (not_not.mpr (h.drained w hw hreturned))
  safe := h.safe

omit [DecidableEq W] in
theorem Sound.setResults (h : p.Sound workers) (results : Channel R) :
    Sound workers { p with results } where
  absent := h.absent
  drained := h.drained
  safe := h.safe

/-- A step keeps that, when nobody closes the results under a worker and every job has a
result. -/
theorem Sound.step (h : p.Sound workers) (hmove : p.Moves make event p')
    (hopen : ∀ w job result, p.worker w = .sending job result → p.results.closed = false)
    (htotal : ∀ w job, p.worker w = .busy job → make w job ≠ none) : p'.Sound workers := by
  cases hmove with
  | jobPut hput =>
      exact h.setJobs _ (.inl (Channel.not_exhausted_of_open (Channel.put_spec hput).1))
  | jobHanded hw hmeets =>
      exact h.setWorker (by simp [hw]) (by simp) (by simp)
  | jobsClosed =>
      by_cases hends : p.jobs.Exhausted
      · exact h.setJobs _ (.inr ⟨rfl, hends.2⟩)
      · exact h.setJobs _ (.inl hends)
  | @jobTaken w job jobs hw htake =>
      have hjobs := h.setJobs jobs (.inl (Channel.not_exhausted_of_take htake))
      exact hjobs.setWorker (by simp [hw]) (by simp) (by simp)
  | jobsEnded hw hends => exact h.setWorker (by simp [hw]) (by simp) (fun _ => hends)
  | @computed w job hw =>
      obtain ⟨result, hresult⟩ := Option.ne_none_iff_exists'.mp (htotal w job hw)
      rw [hresult]
      exact h.setWorker (by simp [hw]) (by simp [afterWork]) (by simp [afterWork])
  | @resultPut w job result results hw hput =>
      exact (h.setResults results).setWorker (by simp [hw]) (by simp) (by simp)
  | @resultRefused w job result hw hclosed =>
      cases (hopen w job result hw).symm.trans hclosed
  | resultTaken htake => exact h.setResults _
  | resultHanded hw hmeets => exact h.setWorker (by simp [hw]) (by simp) (by simp)
  | resultsClosed => exact h.setResults _

end Pool

/-- The job that a worker has taken and whose result it has not given away. -/
def PoolPc.held {J R : Type*} : PoolPc J R → Multiset J
  | .busy job | .sending job _ => {job}
  | .receiving | .returned | .threw | .undefined => 0

/-- The steps that are left for a worker and what it holds. -/
def PoolPc.work {J R : Type*} : PoolPc J R → ℕ
  | .receiving => 1
  | .busy _ => 4
  | .sending _ _ => 3
  | .returned | .threw | .undefined => 0

namespace Pool

/-- Jobs that are numbered from one on. -/
def jobsUpTo (n : ℕ) : Multiset ℤ := (List.range' 1 n).map (Nat.cast : ℕ → ℤ)

theorem jobsUpTo_succ (n : ℕ) : jobsUpTo (n + 1) = jobsUpTo n + {((n + 1 : ℕ) : ℤ)} := by
  rw [jobsUpTo, List.range'_concat, List.map_append, ← Multiset.coe_add]
  simp [jobsUpTo, Nat.add_comm]

theorem card_jobsUpTo (n : ℕ) : (jobsUpTo n).card = n := by
  rw [jobsUpTo, Multiset.coe_card, List.length_map, List.length_range']

variable {W J R : Type*} [DecidableEq W] {make : W → J → Option R} {p p' : Pool W J R}
  {event : Event W J R} {workers : Finset W}

/-- What all workers hold. -/
def held (workers : Finset W) (p : Pool W J R) : Multiset J := ∑ w ∈ workers, (p.worker w).held

theorem sum_setWorker {M : Type*} [AddCommMonoid M] (f : PoolPc J R → M) {w : W}
    (hw : w ∈ workers) (pc : PoolPc J R) :
    ∑ v ∈ workers, f ((p.setWorker w pc).worker v) + f (p.worker w) =
      ∑ v ∈ workers, f (p.worker v) + f pc := by
  have hrest : ∑ v ∈ workers.erase w, f ((p.setWorker w pc).worker v) =
      ∑ v ∈ workers.erase w, f (p.worker v) := by
    refine Finset.sum_congr rfl ?_
    intro v hv
    rw [setWorker_worker, if_neg (Finset.ne_of_mem_erase hv)]
  rw [← Finset.sum_erase_add _ _ hw, ← Finset.sum_erase_add _ _ hw, hrest, setWorker_worker,
    if_pos rfl, add_assoc, add_assoc, add_comm (f pc)]

/-- Where the jobs are that have come in: in the channel, with a worker, or done by one,
whose result is in the channel or has left. -/
structure Accounts (make : W → J → Option R) (workers : Finset W) (entered : Multiset J)
    (left : List R) (done : List (W × J)) (p : Pool W J R) : Prop where
  jobs : entered = p.jobs.buffer + p.held workers + (done.map Prod.snd : Multiset J)
  results : (left ++ p.results.buffer).map some = done.map fun d => make d.1 d.2
  sending : ∀ w job result, p.worker w = .sending job result → make w job = some result
  doers : ∀ d ∈ done, d.1 ∈ workers

theorem held_setWorker {w : W} (hw : w ∈ workers) (pc : PoolPc J R) :
    (p.setWorker w pc).held workers + (p.worker w).held = p.held workers + pc.held :=
  sum_setWorker PoolPc.held hw pc

omit [DecidableEq W] in
theorem Sound.mem (h : p.Sound workers) {w : W} (hw : p.worker w ≠ .returned) : w ∈ workers := by
  by_contra hnot
  exact hw (h.absent w hnot)

variable {entered : Multiset J} {left : List R} {done : List (W × J)}

omit [DecidableEq W] in
theorem Accounts.mem_entered (h : Accounts make workers entered left done p) {w : W} {job : J}
    (hw : w ∈ workers) (hheld : job ∈ (p.worker w).held) : job ∈ entered := by
  have hall : job ∈ p.held workers := Multiset.mem_sum.mpr ⟨w, hw, hheld⟩
  rw [h.jobs]
  exact Multiset.mem_add.mpr (.inl (Multiset.mem_add.mpr (.inr hall)))

theorem Accounts.sending_setWorker {w : W} {pc : PoolPc J R}
    (h : ∀ v job result, p.worker v = .sending job result → make v job = some result)
    (hpc : ∀ job result, pc = .sending job result → make w job = some result) :
    ∀ v job result, (p.setWorker w pc).worker v = .sending job result →
      make v job = some result := by
  intro v job result
  rw [setWorker_worker]
  split
  · next heq =>
    rw [heq]
    exact hpc job result
  · exact h v job result

/-- A worker goes on with what it holds. -/
theorem Accounts.setWorker (h : Accounts make workers entered left done p) {w : W}
    (hw : w ∈ workers) {pc : PoolPc J R} (hheld : pc.held = (p.worker w).held)
    (hpc : ∀ job result, pc = .sending job result → make w job = some result) :
    Accounts make workers entered left done (p.setWorker w pc) where
  jobs := by
    have hall := held_setWorker (p := p) hw pc
    rw [hheld, add_left_inj] at hall
    rw [hall]
    exact h.jobs
  results := h.results
  sending := Accounts.sending_setWorker h.sending hpc
  doers := h.doers

omit [DecidableEq W] in
theorem Accounts.doers_append (h : ∀ d ∈ done, d.1 ∈ workers) {w : W} (hw : w ∈ workers) (job : J) :
    ∀ d ∈ done ++ [(w, job)], d.1 ∈ workers := by
  intro d hd
  rcases List.mem_append.mp hd with hold | hnew
  · exact h d hold
  · rw [List.mem_singleton.mp hnew]
    exact hw

/-- An event keeps the accounts, when nobody closes the results under a worker and every
job has a result. -/
theorem Accounts.step (h : Accounts make workers entered left done p) (hsound : p.Sound workers)
    (hmove : p.Moves make event p')
    (hopen : ∀ w job result, p.worker w = .sending job result → p.results.closed = false)
    (htotal : ∀ w job, p.worker w = .busy job → make w job ≠ none) :
    ∃ done', Accounts make workers (entered + event.entered.toList) (left ++ event.left.toList)
      done' p' := by
  have hjobs := h.jobs
  have hresults := h.results
  cases hmove with
  | @jobPut job jobs hput =>
      refine ⟨done, ?_, by simpa [Event.left] using hresults, h.sending, h.doers⟩
      change entered + {job} = (jobs.buffer : Multiset J) + p.held workers + _
      rw [(Channel.put_spec hput).2.2.1, ← Multiset.coe_add, hjobs, Multiset.coe_singleton]
      abel
  | @jobHanded w job hw hmeets =>
      have hmem : w ∈ workers := hsound.mem (by simp [hw])
      have hheld := held_setWorker (p := p) hmem (.busy job)
      rw [hw, PoolPc.held, PoolPc.held, add_zero] at hheld
      refine ⟨done, ?_, by simpa [Event.left] using hresults,
        Accounts.sending_setWorker h.sending (by simp), h.doers⟩
      change entered + {job} = (p.jobs.buffer : Multiset J) + _ + _
      rw [hheld, hjobs]
      abel
  | @jobTaken w job jobs hw htake =>
      have hmem : w ∈ workers := hsound.mem (by simp [hw])
      have hheld := held_setWorker (p := { p with jobs }) hmem (.busy job)
      change _ + (p.worker w).held = _ at hheld
      rw [hw, PoolPc.held, PoolPc.held, add_zero] at hheld
      refine ⟨done, ?_, by simpa [Event.left] using hresults,
        Accounts.sending_setWorker h.sending (by simp), h.doers⟩
      change entered + 0 = (jobs.buffer : Multiset J) + _ + _
      rw [hheld, hjobs, (Channel.take_spec htake).1, ← Multiset.cons_coe, ← Multiset.singleton_add]
      change _ = _ + (p.held workers + {job}) + _
      abel
  | @jobsEnded w hw hends =>
      have hmem : w ∈ workers := hsound.mem (by simp [hw])
      have hsame : Accounts make workers entered left done (p.setWorker w .returned) :=
        h.setWorker hmem (by simp [hw, PoolPc.held]) (by simp)
      exact ⟨done, by simpa [Event.entered, Event.left] using hsame⟩
  | @computed w job hw =>
      have hmem : w ∈ workers := hsound.mem (by simp [hw])
      obtain ⟨result, hresult⟩ := Option.ne_none_iff_exists'.mp (htotal w job hw)
      rw [hresult]
      have hsame : Accounts make workers entered left done
          (p.setWorker w (.sending job result)) := by
        refine h.setWorker hmem (by simp [hw, PoolPc.held]) ?_
        rintro job' result' heq
        cases heq
        exact hresult
      exact ⟨done, by simpa [Event.entered, Event.left, afterWork] using hsame⟩
  | @resultPut w job result results hw hput =>
      have hmem : w ∈ workers := hsound.mem (by simp [hw])
      have hheld := held_setWorker (p := { p with results }) hmem .receiving
      change _ + (p.worker w).held = _ at hheld
      rw [hw, PoolPc.held, PoolPc.held, add_zero] at hheld
      refine ⟨done ++ [(w, job)], ?_, ?_, Accounts.sending_setWorker h.sending (by simp),
        Accounts.doers_append h.doers hmem job⟩
      · change entered + 0 = (p.jobs.buffer : Multiset J) + _ + _
        rw [List.map_append, ← Multiset.coe_add, hjobs]
        change _ = p.held workers at hheld
        rw [← hheld]
        change _ = _ + _ + (_ + ({job} : Multiset J))
        abel
      · change ((left ++ []) ++ results.buffer).map some = _
        rw [(Channel.put_spec hput).2.2.1, List.append_nil, ← List.append_assoc, List.map_append,
          hresults, List.map_append, List.map_singleton, List.map_singleton,
          h.sending w job result hw]
  | @resultRefused w job result hw hclosed => cases (hopen w job result hw).symm.trans hclosed
  | @resultTaken result results htake =>
      refine ⟨done, ?_, ?_, h.sending, h.doers⟩
      · change entered + 0 = (p.jobs.buffer : Multiset J) + p.held workers + _
        rw [add_zero, hjobs]
      · change ((left ++ [result]) ++ results.buffer).map some = _
        rw [← hresults, (Channel.take_spec htake).1, List.append_assoc, List.singleton_append]
  | @resultHanded w job result hw hmeets =>
      have hmem : w ∈ workers := hsound.mem (by simp [hw])
      have hheld := held_setWorker (p := p) hmem .receiving
      rw [hw, PoolPc.held, PoolPc.held, add_zero] at hheld
      refine ⟨done ++ [(w, job)], ?_, ?_, Accounts.sending_setWorker h.sending (by simp),
        Accounts.doers_append h.doers hmem job⟩
      · change entered + 0 = (p.jobs.buffer : Multiset J) + _ + _
        rw [List.map_append, ← Multiset.coe_add, hjobs, ← hheld]
        change _ = _ + _ + (_ + ({job} : Multiset J))
        abel
      · rw [hmeets.2, List.append_nil] at hresults
        change ((left ++ [result]) ++ p.results.buffer).map some = _
        rw [hmeets.2, List.append_nil, List.map_append, hresults, List.map_append,
          List.map_singleton, List.map_singleton, h.sending w job result hw]
  | jobsClosed =>
      refine ⟨done, ?_, by simpa [Event.left] using hresults, h.sending, h.doers⟩
      change entered + 0 = (p.jobs.buffer : Multiset J) + p.held workers + _
      rw [add_zero, hjobs]
  | resultsClosed =>
      refine ⟨done, ?_, ?_, h.sending, h.doers⟩
      · change entered + 0 = (p.jobs.buffer : Multiset J) + p.held workers + _
        rw [add_zero, hjobs]
      · change ((left ++ []) ++ p.results.buffer).map some = _
        rw [List.append_nil, hresults]

omit [DecidableEq W] in
theorem Accounts.card (h : Accounts make workers entered left done p) :
    entered.card = p.jobs.buffer.length + (p.held workers).card + left.length +
      p.results.buffer.length := by
  have hdone := congrArg List.length h.results
  rw [List.length_map, List.length_map, List.length_append] at hdone
  rw [h.jobs, Multiset.card_add, Multiset.card_add, Multiset.coe_card, Multiset.coe_card,
    List.length_map, ← hdone]
  omega

theorem held_card (pc : PoolPc J R) : pc.held.card ≤ 1 := by
  cases pc <;> simp [PoolPc.held]

omit [DecidableEq W] in
theorem card_held (workers : Finset W) (p : Pool W J R) :
    (p.held workers).card = ∑ w ∈ workers, (p.worker w).held.card :=
  map_sum (Multiset.cardHom) _ _

omit [DecidableEq W] in
/-- A worker holds a job at most. -/
theorem card_held_le (workers : Finset W) (p : Pool W J R) :
    (p.held workers).card ≤ workers.card := by
  rw [card_held]
  exact (Finset.sum_le_card_nsmul _ _ 1 fun w _ => held_card (p.worker w)).trans (by simp)

omit [DecidableEq W] in
theorem card_held_of_forall (h : ∀ w ∈ workers, (p.worker w).held.card = 1) :
    (p.held workers).card = workers.card := by
  rw [card_held, Finset.sum_congr rfl h, Finset.card_eq_sum_ones]

omit [DecidableEq W] in
theorem held_card_le {w : W} (hw : w ∈ workers) :
    (p.worker w).held.card ≤ (p.held workers).card := by
  rw [card_held]
  exact Finset.single_le_sum (f := fun v => (p.worker v).held.card) (fun _ _ => Nat.zero_le _) hw

omit [DecidableEq W] in
theorem held_eq_zero (h : ∀ w ∈ workers, p.worker w = .returned) : p.held workers = 0 := by
  refine Finset.sum_eq_zero ?_
  intro w hw
  rw [h w hw, PoolPc.held]

/-- The workers wait for others. -/
def Idle (make : W → J → Option R) (p : Pool W J R) : Prop :=
  ∀ event p', event.Internal → ¬ p.Moves make event p'

/-- What a worker waits for: a job, room for its result, or nothing any more. -/
theorem Idle.cases (hidle : p.Idle make) (hsound : p.Sound workers) (w : W) :
    (p.worker w = .receiving ∧ p.jobs.Meets) ∨
      (∃ job result, p.worker w = .sending job result ∧ p.results.closed = false ∧
        p.results.buffer.length = p.results.capacity) ∨ p.worker w = .returned := by
  cases hw : p.worker w with
  | receiving =>
      rcases p.jobs.receiver_cases with ⟨job, jobs, htake⟩ | hends | hmeets
      · exact absurd (.jobTaken hw htake) (hidle (.jobTaken w) _ trivial)
      · exact absurd (.jobsEnded hw hends) (hidle (.jobsEnded w) _ trivial)
      · exact Or.inl ⟨rfl, hmeets⟩
  | busy job => exact absurd (.computed hw) (hidle (.computed w) _ trivial)
  | sending job result =>
      cases hclosed : p.results.closed with
      | true => exact absurd (.resultRefused hw hclosed) (hidle (.resultRefused w) _ trivial)
      | false =>
          refine Or.inr (Or.inl ⟨job, result, rfl, rfl, ?_⟩)
          refine le_antisymm p.results.fits (not_lt.mp ?_)
          intro hroom
          obtain ⟨results, hput⟩ := Channel.put_of_room hclosed hroom result
          exact hidle (.resultPut w) _ trivial (.resultPut hw hput)
  | returned => exact Or.inr (Or.inr rfl)
  | threw => exact absurd hw (hsound.safe w).1
  | undefined => exact absurd hw (hsound.safe w).2

/-- The steps that are left for what is in the pool. -/
def work (workers : Finset W) (p : Pool W J R) : ℕ :=
  4 * p.jobs.buffer.length + ∑ w ∈ workers, (p.worker w).work + p.results.buffer.length

/-- What whoever feeds the pool gives for an event. -/
def Event.cost : Event W J R → ℕ
  | .jobPut _ | .jobHanded _ _ => 5
  | .jobsClosed | .resultsClosed => 1
  | .jobTaken _ | .jobsEnded _ | .computed _ | .resultPut _ | .resultRefused _ | .resultTaken _
  | .resultHanded _ _ => 0

theorem Moves.work_lt (hmove : p.Moves make event p') (hsound : p.Sound workers) :
    p'.work workers < p.work workers + event.cost := by
  cases hmove with
  | @jobPut job jobs hput =>
      have hlength := congrArg List.length (Channel.put_spec hput).2.2.1
      rw [List.length_append, List.length_singleton] at hlength
      simp only [work, Event.cost]
      omega
  | @jobHanded w job hw hmeets =>
      have hmem : w ∈ workers := hsound.mem (by simp [hw])
      have hsum := sum_setWorker (p := p) PoolPc.work hmem (.busy job)
      rw [hw, PoolPc.work, PoolPc.work] at hsum
      simp only [work, Event.cost, setWorker_jobs, setWorker_results]
      omega
  | jobsClosed => simp [work, Event.cost]
  | @jobTaken w job jobs hw htake =>
      have hmem : w ∈ workers := hsound.mem (by simp [hw])
      have hsum := sum_setWorker (p := { p with jobs }) PoolPc.work hmem (.busy job)
      have hlength := congrArg List.length (Channel.take_spec htake).1
      change _ + (p.worker w).work = _ at hsum
      rw [hw, PoolPc.work, PoolPc.work] at hsum
      rw [List.length_cons] at hlength
      dsimp only at hsum
      simp only [work, Event.cost, setWorker_jobs, setWorker_results]
      omega
  | @jobsEnded w hw hends =>
      have hmem : w ∈ workers := hsound.mem (by simp [hw])
      have hsum := sum_setWorker (p := p) PoolPc.work hmem .returned
      rw [hw, PoolPc.work, PoolPc.work] at hsum
      simp only [work, Event.cost, setWorker_jobs, setWorker_results]
      omega
  | @computed w job hw =>
      have hmem : w ∈ workers := hsound.mem (by simp [hw])
      have hsum := sum_setWorker (p := p) PoolPc.work hmem (afterWork job (make w job))
      have hless : (afterWork job (make w job)).work < 4 := by
        cases make w job <;> simp [afterWork, PoolPc.work]
      rw [hw, PoolPc.work] at hsum
      simp only [work, Event.cost, setWorker_jobs, setWorker_results]
      omega
  | @resultPut w job result results hw hput =>
      have hmem : w ∈ workers := hsound.mem (by simp [hw])
      have hsum := sum_setWorker (p := { p with results }) PoolPc.work hmem .receiving
      have hlength := congrArg List.length (Channel.put_spec hput).2.2.1
      change _ + (p.worker w).work = _ at hsum
      rw [hw, PoolPc.work, PoolPc.work] at hsum
      rw [List.length_append, List.length_singleton] at hlength
      dsimp only at hsum
      simp only [work, Event.cost, setWorker_jobs, setWorker_results]
      omega
  | @resultRefused w job result hw hclosed =>
      have hmem : w ∈ workers := hsound.mem (by simp [hw])
      have hsum := sum_setWorker (p := p) PoolPc.work hmem .threw
      rw [hw, PoolPc.work, PoolPc.work] at hsum
      simp only [work, Event.cost, setWorker_jobs, setWorker_results]
      omega
  | @resultTaken result results htake =>
      have hlength := congrArg List.length (Channel.take_spec htake).1
      rw [List.length_cons] at hlength
      simp only [work, Event.cost]
      omega
  | @resultHanded w job result hw hmeets =>
      have hmem : w ∈ workers := hsound.mem (by simp [hw])
      have hsum := sum_setWorker (p := p) PoolPc.work hmem .receiving
      rw [hw, PoolPc.work, PoolPc.work] at hsum
      simp only [work, Event.cost, setWorker_jobs, setWorker_results]
      omega
  | resultsClosed => simp [work, Event.cost]

/-- No event changes how much the channels hold. -/
theorem Moves.capacities (hmove : p.Moves make event p') :
    p'.jobs.capacity = p.jobs.capacity ∧ p'.results.capacity = p.results.capacity := by
  cases hmove with
  | jobPut hput => exact ⟨(Channel.put_spec hput).2.2.2.2, rfl⟩
  | jobTaken _ htake => exact ⟨(Channel.take_spec htake).2.2, rfl⟩
  | resultPut _ hput => exact ⟨rfl, (Channel.put_spec hput).2.2.2.2⟩
  | resultTaken htake => exact ⟨rfl, (Channel.take_spec htake).2.2⟩
  | jobHanded _ _ | jobsClosed | jobsEnded _ _ | computed _ | resultRefused _ _ | resultHanded _ _
  | resultsClosed => exact ⟨rfl, rfl⟩

theorem Moves.jobs_closed (hmove : p.Moves make event p') (hevent : event ≠ .jobsClosed) :
    p'.jobs.closed = p.jobs.closed := by
  cases hmove with
  | jobPut hput =>
      obtain ⟨hopen, -, -, hopen', -⟩ := Channel.put_spec hput
      exact hopen'.trans hopen.symm
  | jobTaken _ htake => exact (Channel.take_spec htake).2.1
  | jobsClosed => exact absurd rfl hevent
  | jobHanded _ _ | jobsEnded _ _ | computed _ | resultPut _ _ | resultRefused _ _
  | resultTaken _ | resultHanded _ _ | resultsClosed => rfl

theorem Moves.results_closed (hmove : p.Moves make event p') (hevent : event ≠ .resultsClosed) :
    p'.results.closed = p.results.closed := by
  cases hmove with
  | resultPut _ hput =>
      obtain ⟨hopen, -, -, hopen', -⟩ := Channel.put_spec hput
      exact hopen'.trans hopen.symm
  | resultTaken htake => exact (Channel.take_spec htake).2.1
  | resultsClosed => exact absurd rfl hevent
  | jobPut _ | jobHanded _ _ | jobsClosed | jobTaken _ _ | jobsEnded _ _ | computed _
  | resultRefused _ _ | resultHanded _ _ => rfl

/-- Where all workers have returned none does anything. -/
theorem Moves.not_internal (hmove : p.Moves make event p') (hsound : p.Sound workers)
    (hreturned : ∀ w ∈ workers, p.worker w = .returned) : ¬ event.Internal := by
  have hall : ∀ w, p.worker w = .returned := by
    intro w
    by_contra hw
    exact hw (hreturned w (hsound.mem hw))
  intro hinternal
  cases hmove with
  | jobTaken hw _ => cases (hall _).symm.trans hw
  | jobsEnded hw _ => cases (hall _).symm.trans hw
  | computed hw => cases (hall _).symm.trans hw
  | resultPut hw _ => cases (hall _).symm.trans hw
  | resultRefused hw _ => cases (hall _).symm.trans hw
  | jobPut _ | jobHanded _ _ | jobsClosed | resultTaken _ | resultHanded _ _ | resultsClosed =>
      exact hinternal

end Pool

end CppWorkspace.Lib
