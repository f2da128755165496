import CppWorkspace.Lib.Commuting
import CppWorkspace.Lib.SignedInt
import CppWorkspace.Lib.TextStream
import CppWorkspace.Lib.WorkerPool

/-!
`worker_pool_demo` of `spawn_channel.cpp`: the main coroutine writes all jobs, closes
their channel, reads as many results and joins the workers. The number of jobs, the
workers and the capacities are parameters.
-/

namespace CppWorkspace.Cobalt.WorkerPool

open Lib Pool TextStream

abbrev Text := List Char

abbrev WorkerId := ℕ

def resultText (wid : WorkerId) (job square : ℤ) : Text :=
  "worker#".toList ++ showInt wid ++ " 完成 job ".toList ++ showInt job ++ " -> ".toList ++
    showInt square

/-- What `pool_worker` makes of a job. -/
def poolWorker (wid : WorkerId) (job : ℤ) : Option Text :=
  (int (job * job)).map (resultText wid job)

def sumText (result : Text) : Text := "  [汇总] ".toList ++ result ++ ['\n']

inductive MainPc where
  /-- At the head of the first loop with the next job. -/
  | writing (job : ℕ)
  /-- At the head of the second loop, with the results read so far. -/
  | reading (count : ℕ)
  | returned
deriving DecidableEq, Repr

structure State where
  pool : Pool WorkerId ℤ Text
  pc : MainPc := .writing 1
  /-- The lines of the main coroutine; the one with which a worker exits is left out. -/
  output : List Text := []

namespace State

/-- What the main coroutine does in an event, `none` where it does not take part. -/
def main (jobCount : ℕ) (workers : Finset WorkerId) (s : State) :
    Event WorkerId ℤ Text → Option (MainPc × List Text)
  | .jobPut job | .jobHanded _ job =>
      match s.pc with
      | .writing next =>
          if next ≤ jobCount ∧ job = next then some (.writing (next + 1), s.output) else none
      | _ => none
  | .jobsClosed =>
      match s.pc with
      | .writing next => if jobCount < next then some (.reading 0, s.output) else none
      | _ => none
  | .resultTaken result | .resultHanded _ result =>
      match s.pc with
      | .reading count =>
          if count < jobCount then some (.reading (count + 1), s.output ++ [sumText result])
          else none
      | _ => none
  -- the workers are joined
  | .resultsClosed =>
      match s.pc with
      | .reading count =>
          if jobCount ≤ count ∧ ∀ w ∈ workers, s.pool.worker w = .returned then
            some (.returned, s.output)
          else none
      | _ => none
  | .jobTaken _ | .jobsEnded _ | .computed _ | .resultPut _ | .resultRefused _ =>
      some (s.pc, s.output)

def step (jobCount : ℕ) (workers : Finset WorkerId) (s : State)
    (event : Event WorkerId ℤ Text) : Option State := do
  let pool ← s.pool.step poolWorker event
  let (pc, output) ← s.main jobCount workers event
  return { pool, pc, output }

/-- Main and all workers have returned. -/
def Finished (workers : Finset WorkerId) (s : State) : Prop :=
  s.pc = .returned ∧ ∀ w ∈ workers, s.pool.worker w = .returned

end State

def started (workers : Finset WorkerId) (jobsCapacity resultsCapacity : ℕ) : State where
  pool :=
    { jobs := .make jobsCapacity
      results := .make resultsCapacity
      worker := fun w => if w ∈ workers then .receiving else .returned }

def poolSystem (jobCount : ℕ) (workers : Finset WorkerId) (jobsCapacity resultsCapacity : ℕ) :
    System State (Event WorkerId ℤ Text) where
  init s := s = started workers jobsCapacity resultsCapacity
  step s event s' := s.step jobCount workers event = some s'

end CppWorkspace.Cobalt.WorkerPool
