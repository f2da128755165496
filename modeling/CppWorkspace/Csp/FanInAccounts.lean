import CppWorkspace.Csp.FanIn
import CppWorkspace.Lib.History

/-!
Where every job is: not yet sent, in the queue, with a worker, or in a result.
The jobs are received in the order they are sent, and a worker holds at most
one.
-/

namespace CppWorkspace.Csp.CspFanin

open Lib System

def Act.received : Act → Option (WorkerId × Nat)
  | .receiveJob workerId job | .handJob workerId job => some (workerId, job)
  | _ => none

def Act.reported : Act → Option (WorkerId × Nat)
  | .sendResult workerId job | .handResult workerId job => some (workerId, job)
  | _ => none

def Act.consumed : Act → Option Text
  | .receiveResult line => some line
  | .handResult workerId job => some (resultLine workerId job)
  | _ => none

/-- Which worker received which job, in order. -/
def received (labels : List Act) : List (WorkerId × Nat) := labels.filterMap Act.received

/-- Which worker sent the result of which job, in order. -/
def reported (labels : List Act) : List (WorkerId × Nat) := labels.filterMap Act.reported

/-- The lines that reached the consumer. -/
def consumed (labels : List Act) : List Text := labels.filterMap Act.consumed

def lineOf (e : WorkerId × Nat) : Text := resultLine e.1 e.2

/-- The jobs that the dispatcher has still to send. -/
def DispatcherPc.remaining (jobCount : Nat) : DispatcherPc → List Nat
  | .dispatching job => List.range' job (jobCount + 1 - job)
  | .returned | .threw => []

/-- The job that a worker has received and not reported. -/
def WorkerPc.held (workerId : WorkerId) : WorkerPc → List (WorkerId × Nat)
  | .busy job | .sending job => [(workerId, job)]
  | .receiving | .returned | .threw => []

/-- The part of a record that is about one worker. -/
def ofWorker (workerId : WorkerId) (events : List (WorkerId × Nat)) : List (WorkerId × Nat) :=
  events.filter (fun e => e.1 = workerId)

section Steps

variable {jobCount : Nat} {workers : Finset WorkerId} {s s' : State} {act : Act}

theorem remaining_dispatching {job : Nat} (hjob : job ≤ jobCount) :
    (DispatcherPc.dispatching job).remaining jobCount =
      job :: (DispatcherPc.dispatching (job + 1)).remaining jobCount := by
  have hlength : jobCount + 1 - job = jobCount + 1 - (job + 1) + 1 := by omega
  simp only [DispatcherPc.remaining]
  rw [hlength, List.range'_succ]

theorem remaining_of_lt {job : Nat} (hjob : jobCount < job) :
    (DispatcherPc.dispatching job).remaining jobCount = [] := by
  have hlength : jobCount + 1 - job = 0 := by omega
  simp only [DispatcherPc.remaining]
  rw [hlength, List.range'_zero]

/-- The jobs move from the dispatcher through the queue to the workers. -/
theorem step_jobs (hsafe : s.jobs.closed = true → s.dispatcher = .returned)
    (hstep : Step jobCount workers s act s') :
    s.jobs.buffer ++ s.dispatcher.remaining jobCount =
      (act.received.map Prod.snd).toList ++
        (s'.jobs.buffer ++ s'.dispatcher.remaining jobCount) := by
  cases act with
  | sendJob job =>
      obtain ⟨jobs, hpc, hjob, hput, rfl⟩ := hstep
      rw [hpc, remaining_dispatching hjob, (Channel.put_spec hput).2.2.1]
      simp [Act.received]
  | closeJobs =>
      obtain ⟨job, hpc, hjob, rfl⟩ := hstep
      rw [hpc, remaining_of_lt hjob]
      rfl
  | sendJobFails =>
      obtain ⟨job, hpc, -, hclosed, rfl⟩ := hstep
      cases hpc.symm.trans (hsafe hclosed)
  | receiveJob workerId job =>
      obtain ⟨jobs, -, htake, rfl⟩ := hstep
      rw [(Channel.take_spec htake).1]
      rfl
  | handJob workerId job =>
      obtain ⟨hpc, hjob, -, hmeets, rfl⟩ := hstep
      rw [hpc, remaining_dispatching hjob, hmeets.2]
      simp [Act.received, State.setWorker, hmeets.2]
  | jobsClosed workerId =>
      obtain ⟨-, -, rfl⟩ := hstep
      rfl
  | timerFires workerId =>
      obtain ⟨job, -, rfl⟩ := hstep
      rfl
  | sendResult workerId job =>
      obtain ⟨merged, -, -, rfl⟩ := hstep
      rfl
  | sendResultFails workerId =>
      obtain ⟨job, -, -, rfl⟩ := hstep
      rfl
  | closeMerged =>
      obtain ⟨-, -, rfl⟩ := hstep
      rfl
  | receiveResult line =>
      obtain ⟨merged, -, -, rfl⟩ := hstep
      rfl
  | handResult workerId job =>
      obtain ⟨-, -, -, rfl⟩ := hstep
      rfl
  | mergedClosed =>
      obtain ⟨-, -, rfl⟩ := hstep
      rfl

/-- The results move from the workers through the channel to the consumer, who
counts them. -/
theorem step_results (hstep : Step jobCount workers s act s') :
    s.merged.buffer ++ (act.reported.map lineOf).toList =
        act.consumed.toList ++ s'.merged.buffer ∧
      s'.received = s.received + act.consumed.toList.length := by
  cases act with
  | sendResult workerId job =>
      obtain ⟨merged, -, hput, rfl⟩ := hstep
      exact ⟨(Channel.put_spec hput).2.2.1.symm, rfl⟩
  | handResult workerId job =>
      obtain ⟨-, -, hmeets, rfl⟩ := hstep
      simp [State.setWorker, Act.reported, Act.consumed, lineOf, hmeets.2]
  | receiveResult line =>
      obtain ⟨merged, -, htake, rfl⟩ := hstep
      simp [Act.reported, Act.consumed, (Channel.take_spec htake).1]
  | sendJob job =>
      obtain ⟨jobs, -, -, -, rfl⟩ := hstep
      exact ⟨List.append_nil _, rfl⟩
  | closeJobs =>
      obtain ⟨job, -, -, rfl⟩ := hstep
      exact ⟨List.append_nil _, rfl⟩
  | sendJobFails =>
      obtain ⟨job, -, -, -, rfl⟩ := hstep
      exact ⟨List.append_nil _, rfl⟩
  | receiveJob workerId job =>
      obtain ⟨jobs, -, -, rfl⟩ := hstep
      exact ⟨List.append_nil _, rfl⟩
  | handJob workerId job =>
      obtain ⟨-, -, -, -, rfl⟩ := hstep
      exact ⟨List.append_nil _, rfl⟩
  | jobsClosed workerId =>
      obtain ⟨-, -, rfl⟩ := hstep
      exact ⟨List.append_nil _, rfl⟩
  | timerFires workerId =>
      obtain ⟨job, -, rfl⟩ := hstep
      exact ⟨List.append_nil _, rfl⟩
  | sendResultFails workerId =>
      obtain ⟨job, -, -, rfl⟩ := hstep
      exact ⟨List.append_nil _, rfl⟩
  | closeMerged =>
      obtain ⟨-, -, rfl⟩ := hstep
      exact ⟨List.append_nil _, rfl⟩
  | mergedClosed =>
      obtain ⟨-, -, rfl⟩ := hstep
      exact ⟨List.append_nil _, rfl⟩

theorem held_update {worker : WorkerId → WorkerPc} {k : WorkerId} {pc : WorkerPc}
    {gained reported : Option (WorkerId × Nat)}
    (hk : (worker k).held k ++ ofWorker k gained.toList = ofWorker k reported.toList ++ pc.held k)
    (hgained : ∀ e, gained = some e → e.1 = k) (hreported : ∀ e, reported = some e → e.1 = k)
    (id : WorkerId) :
    (worker id).held id ++ ofWorker id gained.toList =
      ofWorker id reported.toList ++ (Function.update worker k pc id).held id := by
  by_cases hid : id = k
  · subst hid
    rw [Function.update_self]
    exact hk
  · have hnone : ∀ o : Option (WorkerId × Nat), (∀ e, o = some e → e.1 = k) →
        ofWorker id o.toList = [] := by
      intro o ho
      cases o with
      | none => rfl
      | some e => simp [ofWorker, ho e rfl, Ne.symm hid]
    rw [hnone gained hgained, hnone reported hreported, Function.update_of_ne hid,
      List.append_nil, List.nil_append]

/-- A worker holds what it has received and not reported. -/
theorem step_held (hsafe : s.merged.closed = true → ∀ id job, s.worker id ≠ .sending job)
    (hstep : Step jobCount workers s act s') (id : WorkerId) :
    (s.worker id).held id ++ ofWorker id act.received.toList =
      ofWorker id act.reported.toList ++ (s'.worker id).held id := by
  cases act with
  | receiveJob workerId job =>
      obtain ⟨jobs, hpc, -, rfl⟩ := hstep
      exact held_update (by simp [hpc, Act.received, Act.reported, ofWorker, WorkerPc.held])
        (by simp [Act.received]) (by simp [Act.reported]) id
  | handJob workerId job =>
      obtain ⟨-, -, hpc, -, rfl⟩ := hstep
      exact held_update (by simp [hpc, Act.received, Act.reported, ofWorker, WorkerPc.held])
        (by simp [Act.received]) (by simp [Act.reported]) id
  | jobsClosed workerId =>
      obtain ⟨hpc, -, rfl⟩ := hstep
      exact held_update (by simp [hpc, Act.received, Act.reported, ofWorker, WorkerPc.held])
        (by simp [Act.received]) (by simp [Act.reported]) id
  | timerFires workerId =>
      obtain ⟨job, hpc, rfl⟩ := hstep
      exact held_update (by simp [hpc, Act.received, Act.reported, ofWorker, WorkerPc.held])
        (by simp [Act.received]) (by simp [Act.reported]) id
  | sendResult workerId job =>
      obtain ⟨merged, hpc, -, rfl⟩ := hstep
      exact held_update (by simp [hpc, Act.received, Act.reported, ofWorker, WorkerPc.held])
        (by simp [Act.received]) (by simp [Act.reported]) id
  | handResult workerId job =>
      obtain ⟨hpc, -, -, rfl⟩ := hstep
      exact held_update (by simp [hpc, Act.received, Act.reported, ofWorker, WorkerPc.held])
        (by simp [Act.received]) (by simp [Act.reported]) id
  | sendResultFails workerId =>
      obtain ⟨job, hpc, hclosed, rfl⟩ := hstep
      exact absurd hpc (hsafe hclosed workerId job)
  | sendJob job =>
      obtain ⟨jobs, -, -, -, rfl⟩ := hstep
      exact List.append_nil _
  | closeJobs =>
      obtain ⟨job, -, -, rfl⟩ := hstep
      exact List.append_nil _
  | sendJobFails =>
      obtain ⟨job, -, -, -, rfl⟩ := hstep
      exact List.append_nil _
  | closeMerged =>
      obtain ⟨-, -, rfl⟩ := hstep
      exact List.append_nil _
  | receiveResult line =>
      obtain ⟨merged, -, -, rfl⟩ := hstep
      exact List.append_nil _
  | mergedClosed =>
      obtain ⟨-, -, rfl⟩ := hstep
      exact List.append_nil _

end Steps

end CppWorkspace.Csp.CspFanin
