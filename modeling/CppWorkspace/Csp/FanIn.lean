import CppWorkspace.Lib.Channel
import CppWorkspace.Lib.Transition

/-!
`csp_fanin.cpp`: a dispatcher sends the jobs, the workers compete for them and
send their results into one channel, a closer waits for all workers and closes
it, and a consumer reads it to its end. The number of jobs, the set of workers
and the capacities are parameters. A channel operation that finds its partner
waiting completes for both in one step.
-/

namespace CppWorkspace.Csp.CspFanin

open Lib

abbrev Text := List Char

abbrev WorkerId := Nat

def toText (n : Nat) : Text := (toString n).toList

/-- The line a worker sends for a job. -/
def resultLine (workerId : WorkerId) (job : Nat) : Text :=
  "worker ".toList ++ toText workerId ++ " finished job ".toList ++ toText job

inductive DispatcherPc where
  /-- At the head of the loop with the next job. -/
  | dispatching (job : Nat)
  | returned
  | threw
deriving DecidableEq, Repr

inductive WorkerPc where
  | receiving
  | busy (job : Nat)
  | sending (job : Nat)
  | returned
  | threw
deriving DecidableEq, Repr

inductive CloserPc where
  | joining
  | returned
deriving DecidableEq, Repr

inductive ConsumerPc where
  | receiving
  | returned
deriving DecidableEq, Repr

structure State where
  jobs : Channel Nat
  merged : Channel Text
  dispatcher : DispatcherPc := .dispatching 1
  worker : WorkerId → WorkerPc
  closer : CloserPc := .joining
  consumer : ConsumerPc := .receiving
  received : Nat := 0

inductive Act where
  | sendJob (job : Nat)
  | closeJobs
  | sendJobFails
  | receiveJob (workerId : WorkerId) (job : Nat)
  /-- A job is sent while a worker waits for it. -/
  | handJob (workerId : WorkerId) (job : Nat)
  | jobsClosed (workerId : WorkerId)
  | timerFires (workerId : WorkerId)
  | sendResult (workerId : WorkerId) (job : Nat)
  | sendResultFails (workerId : WorkerId)
  | closeMerged
  | receiveResult (line : Text)
  /-- A result is sent while the consumer waits for it. -/
  | handResult (workerId : WorkerId) (job : Nat)
  | mergedClosed
deriving DecidableEq, Repr

def State.setWorker (s : State) (workerId : WorkerId) (pc : WorkerPc) : State :=
  { s with worker := Function.update s.worker workerId pc }

def Step (jobCount : Nat) (workers : Finset WorkerId) (s : State) : Act → State → Prop
  | .sendJob job, s' => ∃ jobs, s.dispatcher = .dispatching job ∧ job ≤ jobCount ∧
      s.jobs.put job = some jobs ∧
      s' = { s with jobs := jobs, dispatcher := .dispatching (job + 1) }
  | .closeJobs, s' => ∃ job, s.dispatcher = .dispatching job ∧ jobCount < job ∧
      s' = { s with jobs := s.jobs.close, dispatcher := .returned }
  | .sendJobFails, s' => ∃ job, s.dispatcher = .dispatching job ∧ job ≤ jobCount ∧
      s.jobs.closed = true ∧ s' = { s with dispatcher := .threw }
  | .receiveJob workerId job, s' => ∃ jobs, s.worker workerId = .receiving ∧
      s.jobs.take = some (job, jobs) ∧ s' = { s with jobs := jobs }.setWorker workerId (.busy job)
  | .handJob workerId job, s' => s.dispatcher = .dispatching job ∧ job ≤ jobCount ∧
      s.worker workerId = .receiving ∧ s.jobs.Meets ∧
      s' = { s with dispatcher := .dispatching (job + 1) }.setWorker workerId (.busy job)
  | .jobsClosed workerId, s' => s.worker workerId = .receiving ∧ s.jobs.Exhausted ∧
      s' = s.setWorker workerId .returned
  | .timerFires workerId, s' => ∃ job, s.worker workerId = .busy job ∧
      s' = s.setWorker workerId (.sending job)
  | .sendResult workerId job, s' => ∃ merged, s.worker workerId = .sending job ∧
      s.merged.put (resultLine workerId job) = some merged ∧
      s' = { s with merged := merged }.setWorker workerId .receiving
  | .sendResultFails workerId, s' => ∃ job, s.worker workerId = .sending job ∧
      s.merged.closed = true ∧ s' = s.setWorker workerId .threw
  | .closeMerged, s' => s.closer = .joining ∧ (∀ workerId ∈ workers, s.worker workerId = .returned) ∧
      s' = { s with merged := s.merged.close, closer := .returned }
  | .receiveResult line, s' => ∃ merged, s.consumer = .receiving ∧
      s.merged.take = some (line, merged) ∧
      s' = { s with merged := merged, received := s.received + 1 }
  | .handResult workerId job, s' => s.worker workerId = .sending job ∧ s.consumer = .receiving ∧
      s.merged.Meets ∧ s' = { s with received := s.received + 1 }.setWorker workerId .receiving
  | .mergedClosed, s' => s.consumer = .receiving ∧ s.merged.Exhausted ∧
      s' = { s with consumer := .returned }

/-- `run`, for these workers. -/
def started (workers : Finset WorkerId) (jobsCapacity mergedCapacity : Nat) : State where
  jobs := .make jobsCapacity
  merged := .make mergedCapacity
  worker id := if id ∈ workers then .receiving else .returned

def faninSystem (jobCount : Nat) (workers : Finset WorkerId) (jobsCapacity mergedCapacity : Nat) :
    System State Act where
  init s := s = started workers jobsCapacity mergedCapacity
  step := Step jobCount workers

/-- Every coroutine has returned. -/
def State.Finished (workers : Finset WorkerId) (s : State) : Prop :=
  s.dispatcher = .returned ∧ (∀ workerId ∈ workers, s.worker workerId = .returned) ∧
    s.closer = .returned ∧ s.consumer = .returned

end CppWorkspace.Csp.CspFanin
