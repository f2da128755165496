import CppWorkspace.Lib.Commuting
import CppWorkspace.Lib.SignedInt

/-!
`demo_10_fan_out.cpp`: the request goes to all workers, each one sums its chunk, and
when all replies have come, in any order, the requester sums them. The number of workers
and the size of a chunk are parameters, and the request may time out.
-/

namespace CppWorkspace.Actors.FanOut

open Lib

/-- The loop of `range_summer_impl`. -/
def sumLoop (last value sum : ℤ) : Option ℤ :=
  if value ≤ last then
    if FitsInt64 (sum + value) ∧ FitsInt64 (value + 1) then
      sumLoop last (value + 1) (sum + value)
    else none
  else some sum
termination_by (last + 1 - value).toNat

/-- `range_summer_impl`. -/
def rangeSummer (index chunkSize : ℤ) : Option ℤ := do
  let before ← int64 (index * chunkSize)
  let first ← int64 (before + 1)
  let next ← int64 (index + 1)
  let last ← int64 (next * chunkSize)
  sumLoop last first 0

/-- `std::accumulate`. -/
def accumulate : List ℤ → ℤ → Option ℤ
  | [], total => some total
  | sum :: rest, total => do
      let total ← int64 (total + sum)
      accumulate rest total

inductive WorkerPc where
  | requested
  /-- The reply is underway. -/
  | replied (sum : ℤ)
  | answered
  /-- The sum has overflowed. -/
  | undefined
deriving DecidableEq, Repr

inductive RequesterPc where
  | waiting
  | printed (total : ℤ)
  | failed
  /-- The total has overflowed. -/
  | undefined
deriving DecidableEq, Repr

structure State where
  worker : ℕ → WorkerPc := fun _ => .requested
  /-- The replies that have come. -/
  partialSums : List ℤ := []
  requester : RequesterPc := .waiting

inductive Event where
  | computes (index : ℕ)
  | replies (index : ℕ)
  | timesOut
deriving DecidableEq, Repr

namespace State

def setWorker (s : State) (index : ℕ) (pc : WorkerPc) : State :=
  { s with worker := Function.update s.worker index pc }

def afterWork : Option ℤ → WorkerPc
  | some sum => .replied sum
  | none => .undefined

def afterTotal : Option ℤ → RequesterPc
  | some total => .printed total
  | none => .undefined

/-- A reply comes; the last one completes the request. -/
def collect (workerCount : ℕ) (s : State) (sum : ℤ) : State :=
  match s.requester with
  | .waiting =>
      let partialSums := s.partialSums ++ [sum]
      if partialSums.length = workerCount then
        { s with partialSums, requester := afterTotal (accumulate partialSums 0) }
      else { s with partialSums }
  | .printed _ | .failed | .undefined => s

def step (workerCount chunkSize : ℕ) (s : State) : Event → Option State
  | .computes index =>
      if index < workerCount ∧ s.worker index = .requested then
        some (s.setWorker index (afterWork (rangeSummer index chunkSize)))
      else none
  | .replies index =>
      match s.worker index with
      | .replied sum =>
          if index < workerCount then
            some ((s.setWorker index .answered).collect workerCount sum)
          else none
      | .requested | .answered | .undefined => none
  | .timesOut =>
      if s.requester = .waiting then some { s with requester := .failed } else none

end State

def fanOut (workerCount chunkSize : ℕ) : System State Event where
  init s := s = {}
  step s event s' := s.step workerCount chunkSize event = some s'

/-- The runs in which the request is answered in time. -/
def inTime (workerCount chunkSize : ℕ) : System State Event :=
  (fanOut workerCount chunkSize).restrict fun _ event => event ≠ .timesOut

end CppWorkspace.Actors.FanOut
