import CppWorkspace.Csp.FanInAccounts

/-!
The runs of the fan-in: who may still send, the accounts of the jobs over a
whole run, and that some coroutine can go on until all have returned.
-/

namespace CppWorkspace.Csp.CspFanin

open Lib System

/-- What the coroutines know of each other. -/
structure Control (workers : Finset WorkerId) (s : State) : Prop where
  jobs_closed : s.jobs.closed = true ↔ s.dispatcher = .returned
  dispatcher_safe : s.dispatcher ≠ .threw
  worker_safe : ∀ id, s.worker id ≠ .threw
  drained : ∀ id ∈ workers, s.worker id = .returned → s.jobs.Exhausted
  absent : ∀ id, id ∉ workers → s.worker id = .returned
  merged_closed : s.merged.closed = true ↔ s.closer = .returned
  joined : s.closer = .returned → ∀ id, s.worker id = .returned
  consumer : s.consumer = .returned → s.merged.Exhausted

theorem control_started (workers : Finset WorkerId) (jobsCapacity mergedCapacity : Nat) :
    Control workers (started workers jobsCapacity mergedCapacity) where
  jobs_closed := by simp [started]
  dispatcher_safe := by simp [started]
  worker_safe id := by
    simp only [started]
    split <;> simp
  drained id hid := by simp [started, hid]
  absent id hid := by simp [started, hid]
  merged_closed := by simp [started]
  joined := by simp [started]
  consumer := by simp [started]

section Steps

variable {jobCount : Nat} {workers : Finset WorkerId} {s s' : State} {act : Act}

theorem Control.setWorker (h : Control workers s) {k : WorkerId} {pc : WorkerPc}
    (hnow : s.worker k ≠ .returned) (hsafe : pc ≠ .threw)
    (hdone : pc = .returned → s.jobs.Exhausted) : Control workers (s.setWorker k pc) where
  jobs_closed := h.jobs_closed
  dispatcher_safe := h.dispatcher_safe
  worker_safe id := by
    by_cases hid : id = k
    · simpa [State.setWorker, hid] using hsafe
    · simpa [State.setWorker, hid] using h.worker_safe id
  drained id hmem := by
    by_cases hid : id = k
    · simpa [State.setWorker, hid] using hdone
    · simpa [State.setWorker, hid] using h.drained id hmem
  absent id hmem := by
    have hid : id ≠ k := by
      rintro rfl
      exact hnow (h.absent id hmem)
    simpa [State.setWorker, hid] using h.absent id hmem
  merged_closed := h.merged_closed
  joined hcloser := absurd (h.joined hcloser k) hnow
  consumer := h.consumer

/-- The queue of jobs changes while it is not exhausted. -/
theorem Control.setJobs (h : Control workers s) (jobs : Channel Nat) (dispatcher : DispatcherPc)
    (hsome : ¬ s.jobs.Exhausted) (hclosed : jobs.closed = true ↔ dispatcher = .returned)
    (hsafe : dispatcher ≠ .threw) :
    Control workers { s with jobs := jobs, dispatcher := dispatcher } where
  jobs_closed := hclosed
  dispatcher_safe := hsafe
  worker_safe := h.worker_safe
  drained id hid hreturned := absurd (h.drained id hid hreturned) hsome
  absent := h.absent
  merged_closed := h.merged_closed
  joined := h.joined
  consumer := h.consumer

/-- The channel of results changes while it is not exhausted. -/
theorem Control.setMerged (h : Control workers s) (merged : Channel Text) (count : Nat)
    (hsome : ¬ s.merged.Exhausted) (hclosed : merged.closed = s.merged.closed) :
    Control workers { s with merged := merged, received := count } where
  jobs_closed := h.jobs_closed
  dispatcher_safe := h.dispatcher_safe
  worker_safe := h.worker_safe
  drained := h.drained
  absent := h.absent
  merged_closed := by
    rw [← h.merged_closed]
    exact iff_of_eq (congrArg (· = true) hclosed)
  joined := h.joined
  consumer hreturned := absurd (h.consumer hreturned) hsome

theorem Control.dispatching (h : Control workers s) {job : Nat}
    (hpc : s.dispatcher = .dispatching job) : s.jobs.closed = false := by
  cases hclosed : s.jobs.closed with
  | false => rfl
  | true => cases hpc.symm.trans (h.jobs_closed.mp hclosed)

/-- While a worker has not returned, the channel of results is open. -/
theorem Control.merged_open (h : Control workers s) (id : WorkerId)
    (hid : s.worker id ≠ .returned) : s.merged.closed = false := by
  cases hclosed : s.merged.closed with
  | false => rfl
  | true => exact absurd (h.joined (h.merged_closed.mp hclosed) id) hid

theorem Control.step (h : Control workers s) (hstep : Step jobCount workers s act s') :
    Control workers s' := by
  cases act with
  | sendJob job =>
      obtain ⟨jobs, hpc, -, hput, rfl⟩ := hstep
      refine h.setJobs _ _ (Channel.not_exhausted_of_open (h.dispatching hpc)) ?_ (by simp)
      simp [(Channel.put_spec hput).2.2.2.1]
  | closeJobs =>
      obtain ⟨job, hpc, -, rfl⟩ := hstep
      exact h.setJobs _ _ (Channel.not_exhausted_of_open (h.dispatching hpc)) (by simp) (by simp)
  | sendJobFails =>
      obtain ⟨job, hpc, -, hclosed, rfl⟩ := hstep
      cases (h.dispatching hpc).symm.trans hclosed
  | receiveJob workerId job =>
      obtain ⟨jobs, hpc, htake, rfl⟩ := hstep
      have hclosed := (Channel.take_spec htake).2.1
      refine Control.setWorker (h.setJobs jobs s.dispatcher ?_ ?_ ?_) ?_ ?_ ?_
      · exact Channel.not_exhausted_of_take htake
      · rw [hclosed]
        exact h.jobs_closed
      · exact h.dispatcher_safe
      · simp [hpc]
      · simp
      · simp
  | handJob workerId job =>
      obtain ⟨hpc, -, hworker, hmeets, rfl⟩ := hstep
      refine Control.setWorker (h.setJobs s.jobs (.dispatching (job + 1)) ?_ ?_ ?_) ?_ ?_ ?_
      · exact Channel.not_exhausted_of_open hmeets.1
      · simp [hmeets.1]
      · simp
      · simp [hworker]
      · simp
      · simp
  | jobsClosed workerId =>
      obtain ⟨hpc, hexhausted, rfl⟩ := hstep
      exact h.setWorker (by simp [hpc]) (by simp) (fun _ => hexhausted)
  | timerFires workerId =>
      obtain ⟨job, hpc, rfl⟩ := hstep
      exact h.setWorker (by simp [hpc]) (by simp) (by simp)
  | sendResult workerId job =>
      obtain ⟨merged, hpc, hput, rfl⟩ := hstep
      obtain ⟨hopen, -, -, hstill, -⟩ := Channel.put_spec hput
      refine Control.setWorker (h.setMerged merged s.received ?_ ?_) ?_ ?_ ?_
      · exact Channel.not_exhausted_of_open hopen
      · rw [hopen, hstill]
      · simp [hpc]
      · simp
      · simp
  | sendResultFails workerId =>
      obtain ⟨job, hpc, hclosed, rfl⟩ := hstep
      cases (h.merged_open workerId (by simp [hpc])).symm.trans hclosed
  | closeMerged =>
      obtain ⟨hpc, hreturned, rfl⟩ := hstep
      exact {
        jobs_closed := h.jobs_closed
        dispatcher_safe := h.dispatcher_safe
        worker_safe := h.worker_safe
        drained := h.drained
        absent := h.absent
        merged_closed := by simp
        joined := fun _ id => by
          by_cases hid : id ∈ workers
          · exact hreturned id hid
          · exact h.absent id hid
        consumer := fun hconsumer => ⟨rfl, (h.consumer hconsumer).2⟩ }
  | receiveResult line =>
      obtain ⟨merged, -, htake, rfl⟩ := hstep
      exact h.setMerged _ _ (Channel.not_exhausted_of_take htake) (Channel.take_spec htake).2.1
  | handResult workerId job =>
      obtain ⟨hpc, -, hmeets, rfl⟩ := hstep
      refine Control.setWorker (h.setMerged s.merged (s.received + 1) ?_ rfl) ?_ ?_ ?_
      · exact Channel.not_exhausted_of_open hmeets.1
      · simp [hpc]
      · simp
      · simp
  | mergedClosed =>
      obtain ⟨-, hexhausted, rfl⟩ := hstep
      exact {
        jobs_closed := h.jobs_closed
        dispatcher_safe := h.dispatcher_safe
        worker_safe := h.worker_safe
        drained := h.drained
        absent := h.absent
        merged_closed := h.merged_closed
        joined := h.joined
        consumer := fun _ => hexhausted }

/-- Some coroutine can go on. -/
def CanStep (jobCount : Nat) (workers : Finset WorkerId) (s : State) : Prop :=
  ∃ act s', Step jobCount workers s act s'

/-- A worker with a job can go on, or the consumer can. -/
theorem Control.worker_steps (h : Control workers s) {id : WorkerId} {job : Nat}
    (hpc : s.worker id = .busy job ∨ s.worker id = .sending job) :
    CanStep jobCount workers s := by
  rcases hpc with hpc | hpc
  · exact ⟨.timerFires id, _, job, hpc, rfl⟩
  · have hopen := h.merged_open id (by simp [hpc])
    have hconsumer : s.consumer = .receiving := by
      cases hconsumer : s.consumer with
      | receiving => rfl
      | returned => cases hopen.symm.trans (h.consumer hconsumer).1
    rcases s.merged.receiver_cases with ⟨line, merged, htake⟩ | hexhausted | hmeets
    · exact ⟨.receiveResult line, _, merged, hconsumer, htake, rfl⟩
    · exact absurd hexhausted (Channel.not_exhausted_of_open hopen)
    · exact ⟨.handResult id job, _, hpc, hconsumer, hmeets, rfl⟩

/-- A worker that waits for a job gets one, learns of the end, or the
dispatcher can go on. -/
theorem Control.receiver_steps (h : Control workers s) {id : WorkerId}
    (hpc : s.worker id = .receiving) : CanStep jobCount workers s := by
  rcases s.jobs.receiver_cases with ⟨job, jobs, htake⟩ | hexhausted | hmeets
  · exact ⟨.receiveJob id job, _, jobs, hpc, htake, rfl⟩
  · exact ⟨.jobsClosed id, _, hpc, hexhausted, rfl⟩
  · cases hdispatcher : s.dispatcher with
    | dispatching job =>
        by_cases hjob : job ≤ jobCount
        · exact ⟨.handJob id job, _, hdispatcher, hjob, hpc, hmeets, rfl⟩
        · exact ⟨.closeJobs, _, job, hdispatcher, by omega, rfl⟩
    | returned => cases hmeets.1.symm.trans (h.jobs_closed.mpr hdispatcher)
    | threw => exact absurd hdispatcher h.dispatcher_safe

/-- Once all workers have returned the end spreads to the consumer. -/
theorem Control.end_steps (h : Control workers s) (hnonempty : workers.Nonempty)
    (hreturned : ∀ id ∈ workers, s.worker id = .returned) (hunfinished : ¬ s.Finished workers) :
    CanStep jobCount workers s := by
  cases hcloser : s.closer with
  | joining => exact ⟨.closeMerged, _, hcloser, hreturned, rfl⟩
  | returned =>
      cases hconsumer : s.consumer with
      | receiving =>
          rcases s.merged.receiver_cases with ⟨line, merged, htake⟩ | hexhausted | hmeets
          · exact ⟨.receiveResult line, _, merged, hconsumer, htake, rfl⟩
          · exact ⟨.mergedClosed, _, hconsumer, hexhausted, rfl⟩
          · cases hmeets.1.symm.trans (h.merged_closed.mpr hcloser)
      | returned =>
          obtain ⟨id, hid⟩ := hnonempty
          have hdispatcher := h.jobs_closed.mp (h.drained id hid (hreturned id hid)).1
          exact absurd ⟨hdispatcher, hreturned, hcloser, hconsumer⟩ hunfinished

theorem Control.can_step (h : Control workers s) (hnonempty : workers.Nonempty)
    (hunfinished : ¬ s.Finished workers) : CanStep jobCount workers s := by
  by_cases hreturned : ∀ id ∈ workers, s.worker id = .returned
  · exact h.end_steps hnonempty hreturned hunfinished
  · push Not at hreturned
    obtain ⟨id, -, hpc⟩ := hreturned
    cases hworker : s.worker id with
    | receiving => exact h.receiver_steps hworker
    | busy job => exact h.worker_steps (Or.inl hworker)
    | sending job => exact h.worker_steps (Or.inr hworker)
    | returned => exact absurd hworker hpc
    | threw => exact absurd hworker (h.worker_safe id)

end Steps

/-- The accounts of a run. -/
structure Accounts (jobCount : Nat) (workers : Finset WorkerId) (labels : List Act) (s : State) :
    Prop where
  control : Control workers s
  jobs : (received labels).map Prod.snd ++ (s.jobs.buffer ++ s.dispatcher.remaining jobCount) =
    List.range' 1 jobCount
  held : ∀ id, ofWorker id (received labels) =
    ofWorker id (reported labels) ++ (s.worker id).held id
  results : consumed labels ++ s.merged.buffer = (reported labels).map lineOf
  count : s.received = (consumed labels).length

section Runs

variable {jobCount : Nat} {workers : Finset WorkerId} {labels : List Act} {s s' : State} {act : Act}

theorem accounts_started (jobCount : Nat) (workers : Finset WorkerId)
    (jobsCapacity mergedCapacity : Nat) :
    Accounts jobCount workers [] (started workers jobsCapacity mergedCapacity) where
  control := control_started workers jobsCapacity mergedCapacity
  jobs := by simp [received, started, DispatcherPc.remaining]
  held id := by
    simp only [started]
    split <;> rfl
  results := rfl
  count := rfl

theorem Accounts.step (h : Accounts jobCount workers labels s)
    (hstep : Step jobCount workers s act s') :
    Accounts jobCount workers (labels ++ [act]) s' := by
  have hjobs := step_jobs h.control.jobs_closed.mp hstep
  have hheld := step_held (fun hclosed id job hpc => by
    have hopen := h.control.merged_open id (by simp [hpc])
    cases hopen.symm.trans hclosed) hstep
  obtain ⟨hresults, hcount⟩ := step_results hstep
  constructor
  · exact h.control.step hstep
  · rw [← h.jobs, hjobs, received, received, History.filterMap_snoc, List.map_append,
      List.append_assoc]
    cases act.received <;> rfl
  · intro id
    have hold := h.held id
    rw [received, History.filterMap_snoc, reported, History.filterMap_snoc, ofWorker,
      List.filter_append, ofWorker, List.filter_append]
    calc _ = ofWorker id (reported labels) ++
          ((s.worker id).held id ++ ofWorker id act.received.toList) := by
            rw [← List.append_assoc, ← hold]
            rfl
      _ = _ := by
            rw [hheld id, ← List.append_assoc]
            rfl
  · rw [consumed, History.filterMap_snoc, reported, History.filterMap_snoc, List.map_append,
      ← reported, ← h.results, ← consumed, List.append_assoc, List.append_assoc, ← hresults]
    cases act.reported <;> rfl
  · rw [hcount, h.count, consumed, consumed, History.filterMap_snoc, List.length_append]

theorem run_accounts {jobsCapacity mergedCapacity : Nat}
    (hrun : (faninSystem jobCount workers jobsCapacity mergedCapacity).Run
      (started workers jobsCapacity mergedCapacity) labels s) :
    Accounts jobCount workers labels s :=
  Run.preserves_history (fun _ _ _ _ h hstep => Accounts.step h hstep)
    (accounts_started jobCount workers jobsCapacity mergedCapacity) hrun

/-- Two records that agree on every worker hold the same events. -/
theorem perm_of_ofWorker {first second : List (WorkerId × Nat)}
    (h : ∀ id, ofWorker id first = ofWorker id second) : first.Perm second := by
  rw [List.perm_iff_count]
  intro e
  have hcount : ∀ events : List (WorkerId × Nat),
      (ofWorker e.1 events).count e = events.count e :=
    fun events => List.count_filter (by simp)
  rw [← hcount first, h e.1, hcount second]

theorem Accounts.finished (h : Accounts jobCount workers labels s) (hnonempty : workers.Nonempty)
    (hfinished : s.Finished workers) :
    (received labels).map Prod.snd = List.range' 1 jobCount ∧
      (reported labels).Perm (received labels) ∧
      consumed labels = (reported labels).map lineOf ∧ s.received = jobCount := by
  obtain ⟨hdispatcher, hworkers, hcloser, hconsumer⟩ := hfinished
  obtain ⟨id, hid⟩ := hnonempty
  have hqueue := (h.control.drained id hid (hworkers id hid)).2
  have hmerged := (h.control.consumer hconsumer).2
  have hjobs := h.jobs
  rw [hqueue, hdispatcher, DispatcherPc.remaining, List.append_nil, List.append_nil] at hjobs
  have hperm : (reported labels).Perm (received labels) := by
    apply perm_of_ofWorker
    intro worker
    rw [h.held worker, h.control.joined hcloser worker, WorkerPc.held, List.append_nil]
  have hresults := h.results
  rw [hmerged, List.append_nil] at hresults
  refine ⟨hjobs, hperm, hresults, ?_⟩
  have hlength := congrArg List.length hjobs
  rw [List.length_map, List.length_range'] at hlength
  rw [h.count, hresults, List.length_map, hperm.length_eq, hlength]

end Runs

/-- In every run: the jobs are received in order and each once; the lines that
reached the consumer are those of received jobs; nobody sends on a closed
channel, and the results are closed when every worker has returned; some
coroutine can go on until all have returned; and then every job has been
received by one worker, whose one line for it has reached the consumer. -/
theorem fanin_exact {jobCount : Nat} {workers : Finset WorkerId}
    {jobsCapacity mergedCapacity : Nat} {labels : List Act} {s : State}
    (hnonempty : workers.Nonempty)
    (hrun : (faninSystem jobCount workers jobsCapacity mergedCapacity).Run
      (started workers jobsCapacity mergedCapacity) labels s) :
    (received labels).map Prod.snd <+: List.range' 1 jobCount ∧
    (consumed labels <+: (reported labels).map lineOf ∧
      ∀ id, ofWorker id (reported labels) <+: ofWorker id (received labels)) ∧
    ((∀ job, s.dispatcher = .dispatching job → s.jobs.closed = false) ∧
      (∀ id job, s.worker id = .sending job → s.merged.closed = false) ∧
      s.dispatcher ≠ .threw ∧ ∀ id, s.worker id ≠ .threw) ∧
    (s.merged.closed = true → ∀ id, s.worker id = .returned) ∧
    (¬ s.Finished workers → ∃ act s', Step jobCount workers s act s') ∧
    (s.Finished workers →
      (received labels).map Prod.snd = List.range' 1 jobCount ∧
      (reported labels).Perm (received labels) ∧
      consumed labels = (reported labels).map lineOf ∧ s.received = jobCount) := by
  have haccounts := run_accounts hrun
  have hcontrol := haccounts.control
  refine ⟨⟨_, haccounts.jobs⟩, ⟨⟨_, haccounts.results⟩, fun id => ⟨_, (haccounts.held id).symm⟩⟩,
    ⟨fun job => hcontrol.dispatching, ?_, hcontrol.dispatcher_safe, hcontrol.worker_safe⟩, ?_,
    hcontrol.can_step hnonempty, haccounts.finished hnonempty⟩
  · intro id job hpc
    exact hcontrol.merged_open id (by simp [hpc])
  · intro hclosed
    exact hcontrol.joined (hcontrol.merged_closed.mp hclosed)

/-- Two workers and two jobs over channels without room. -/
theorem fanin_exact_two_workers : ∃ labels s,
    (faninSystem 2 {1, 2} 0 0).Run (started {1, 2} 0 0) labels s ∧ s.Finished {1, 2} ∧
      received labels = [(1, 1), (2, 2)] ∧
      consumed labels = ["worker 2 finished job 2".toList, "worker 1 finished job 1".toList] ∧
      s.received = 2 := by
  obtain ⟨labels, s, hrun, hfinished, hreceived, hconsumed⟩ : ∃ labels s,
      (faninSystem 2 {1, 2} 0 0).Run (started {1, 2} 0 0) labels s ∧ s.Finished {1, 2} ∧
        received labels = [(1, 1), (2, 2)] ∧
        consumed labels = ["worker 2 finished job 2".toList, "worker 1 finished job 1".toList] :=
    ⟨_, _,
      Run.cons (Act.handJob 1 1) ⟨rfl, by decide, rfl, ⟨rfl, rfl⟩, rfl⟩ <|
      Run.cons (Act.handJob 2 2) ⟨rfl, by decide, rfl, ⟨rfl, rfl⟩, rfl⟩ <|
      Run.cons Act.closeJobs ⟨_, rfl, by decide, rfl⟩ <|
      Run.cons (Act.timerFires 2) ⟨_, rfl, rfl⟩ <|
      Run.cons (Act.handResult 2 2) ⟨rfl, rfl, ⟨rfl, rfl⟩, rfl⟩ <|
      Run.cons (Act.jobsClosed 2) ⟨rfl, ⟨rfl, rfl⟩, rfl⟩ <|
      Run.cons (Act.timerFires 1) ⟨_, rfl, rfl⟩ <|
      Run.cons (Act.handResult 1 1) ⟨rfl, rfl, ⟨rfl, rfl⟩, rfl⟩ <|
      Run.cons (Act.jobsClosed 1) ⟨rfl, ⟨rfl, rfl⟩, rfl⟩ <|
      Run.cons Act.closeMerged ⟨rfl, by decide, rfl⟩ <|
      Run.cons Act.mergedClosed ⟨rfl, ⟨rfl, rfl⟩, rfl⟩ .nil,
      ⟨rfl, by decide, rfl, rfl⟩, rfl, by decide⟩
  obtain ⟨-, -, -, -, -, hend⟩ := fanin_exact (by decide) hrun
  exact ⟨labels, s, hrun, hfinished, hreceived, hconsumed, (hend hfinished).2.2.2⟩

end CppWorkspace.Csp.CspFanin
