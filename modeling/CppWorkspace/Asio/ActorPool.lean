import CppWorkspace.Lib.Commuting
import CppWorkspace.Lib.SignedInt
import CppWorkspace.Lib.TextStream
import CppWorkspace.Lib.WorkerPool

/-!
`actor_pool.cpp`: a dispatcher sends the jobs and closes their queue, the workers square
them, and a collector receives as many results as there are jobs and sums them. The
number of jobs, the workers and the capacities are parameters; the loop counters are
bounded by them.
-/

namespace CppWorkspace.Asio.ActorPool

open Lib Pool TextStream

abbrev Text := List Char

abbrev WorkerId := ℕ

structure JobResult where
  workerId : WorkerId
  job : ℤ
  square : ℤ
deriving DecidableEq, Repr

/-- What `worker` makes of a job. -/
def work (workerId : WorkerId) (job : ℤ) : Option JobResult :=
  (int (job * job)).map fun square => ⟨workerId, job, square⟩

inductive Line where
  | queued (jobCount : ℕ)
  | exiting (workerId : WorkerId)
  | computed (result : JobResult)
  | sum (jobCount : ℕ) (total : ℤ)
deriving DecidableEq, Repr

def Line.text : Line → Text
  | .queued jobCount =>
      "dispatcher: all ".toList ++ showInt jobCount ++ " jobs queued, closed\n".toList
  | .exiting workerId =>
      "worker ".toList ++ showInt workerId ++ ": queue closed, exiting\n".toList
  | .computed result =>
      "collector: worker ".toList ++ showInt result.workerId ++ " computed ".toList ++
        showInt result.job ++ "^2 = ".toList ++ showInt result.square ++ ['\n']
  | .sum jobCount total =>
      "collector: sum of squares 1..".toList ++ showInt jobCount ++ " = ".toList ++
        showInt total ++ ['\n']

inductive DispatcherPc where
  /-- At the head of the loop with the next job. -/
  | sending (job : ℕ)
  | returned
deriving DecidableEq, Repr

inductive CollectorPc where
  | receiving (received : ℕ) (sum : ℤ)
  | returned
  /-- The sum has overflowed. -/
  | undefined
deriving DecidableEq, Repr

structure State where
  pool : Pool WorkerId ℤ JobResult
  dispatcher : DispatcherPc := .sending 1
  collector : CollectorPc
  output : List Line

/-- The collector at the head of its loop, and what it prints there. -/
def collect (jobCount received : ℕ) (sum : ℤ) : CollectorPc × List Line :=
  if received < jobCount then (.receiving received sum, [])
  else (.returned, [.sum jobCount sum])

/-- The collector with a result. -/
def receive (jobCount received : ℕ) (sum : ℤ) (result : JobResult) : CollectorPc × List Line :=
  match int (sum + result.square) with
  | some sum =>
      let (collector, lines) := collect jobCount (received + 1) sum
      (collector, .computed result :: lines)
  | none => (.undefined, [.computed result])

namespace State

/-- What dispatcher and collector do in an event and what is printed, `none` where one
of them would have to take part and does not. -/
def actors (jobCount : ℕ) (s : State) :
    Event WorkerId ℤ JobResult → Option (DispatcherPc × CollectorPc × List Line)
  | .jobPut job | .jobHanded _ job =>
      match s.dispatcher with
      | .sending next =>
          if next ≤ jobCount ∧ job = next then some (.sending (next + 1), s.collector, []) else none
      | .returned => none
  | .jobsClosed =>
      match s.dispatcher with
      | .sending next =>
          if jobCount < next then some (.returned, s.collector, [.queued jobCount]) else none
      | .returned => none
  | .resultTaken result | .resultHanded _ result =>
      match s.collector with
      | .receiving received sum => some (s.dispatcher, receive jobCount received sum result)
      | .returned | .undefined => none
  | .jobsEnded w => some (s.dispatcher, s.collector, [.exiting w])
  | .resultsClosed => none
  | .jobTaken _ | .computed _ | .resultPut _ | .resultRefused _ =>
      some (s.dispatcher, s.collector, [])

def step (jobCount : ℕ) (s : State) (event : Event WorkerId ℤ JobResult) : Option State := do
  let pool ← s.pool.step work event
  let (dispatcher, collector, lines) ← s.actors jobCount event
  return { pool, dispatcher, collector, output := s.output ++ lines }

/-- All coroutines have returned. -/
def Finished (workers : Finset WorkerId) (s : State) : Prop :=
  s.dispatcher = .returned ∧ s.collector = .returned ∧ ∀ w ∈ workers, s.pool.worker w = .returned

end State

/-- The collector runs to its first receive. -/
def started (jobCount : ℕ) (workers : Finset WorkerId) (queueCapacity resultsCapacity : ℕ) :
    State where
  pool :=
    { jobs := .make queueCapacity
      results := .make resultsCapacity
      worker := fun w => if w ∈ workers then .receiving else .returned }
  collector := (collect jobCount 0 0).1
  output := (collect jobCount 0 0).2

def actorPool (jobCount : ℕ) (workers : Finset WorkerId) (queueCapacity resultsCapacity : ℕ) :
    System State (Event WorkerId ℤ JobResult) where
  init s := s = started jobCount workers queueCapacity resultsCapacity
  step s event s' := s.step jobCount event = some s'

end CppWorkspace.Asio.ActorPool
