import CppWorkspace.Lib.Commuting
import CppWorkspace.Lib.TextStream

/-!
`strand.cpp`: the threads of a pool run handlers that were posted to a strand, which
count without a lock, and handlers that were posted to the pool itself, which count
atomically. A count without a lock is a load and a store, and other threads may run in
between. The number of tasks and the threads are parameters; the counters are bounded by
the number of tasks.
-/

namespace CppWorkspace.Asio.Strand

open Lib TextStream

abbrev Text := List Char

inductive MainPc where
  | postingStrand (posted : ℕ)
  | postingPlain (posted : ℕ)
  | joining
  | returned
deriving DecidableEq, Repr

/-- Where a thread of the pool is in the handler of the strand. -/
inductive ThreadPc (T : Type) where
  | idle
  | loading
  | storing (counter : ℕ)
  | inserting
  | writing (workerThreads : Finset T)
deriving DecidableEq

inductive Line where
  | serialized (counter taskCount : ℕ)
  | threads (count : ℕ)
  | plain (atomicCounter taskCount : ℕ)
deriving DecidableEq, Repr

def Line.text : Line → Text
  | .serialized counter taskCount =>
      "strand-serialized counter: ".toList ++ showInt counter ++ " / ".toList ++
        showInt taskCount ++ " (no lock, no atomic)\n".toList
  | .threads count =>
      "strand handlers ran on ".toList ++ showInt count ++
        " pool thread(s), but never concurrently\n".toList
  | .plain atomicCounter taskCount =>
      "plain pool atomic counter: ".toList ++ showInt atomicCounter ++ " / ".toList ++
        showInt taskCount ++ ['\n']

structure State (T : Type) where
  main : MainPc
  /-- The handlers that wait in the strand. -/
  queued : ℕ := 0
  /-- The strand has a handler that runs. -/
  running : Bool := false
  /-- The handlers that wait in the pool. -/
  plain : ℕ := 0
  thread : T → ThreadPc T := fun _ => .idle
  counter : ℕ := 0
  workerThreads : Finset T := ∅
  atomicCounter : ℕ := 0
  output : Text := []

inductive Event (T : Type) where
  | post
  | start (t : T)
  | load (t : T)
  | store (t : T)
  | insert (t : T)
  | finish (t : T)
  | bump (t : T)
  | join
deriving DecidableEq, Repr

/-- The second loop with `posted` handlers posted. -/
def plainLoop (taskCount posted : ℕ) : MainPc :=
  if posted < taskCount then .postingPlain posted else .joining

/-- The first loop. -/
def strandLoop (taskCount posted : ℕ) : MainPc :=
  if posted < taskCount then .postingStrand posted else plainLoop taskCount 0

variable {T : Type} [DecidableEq T]

namespace State

def setThread (s : State T) (t : T) (pc : ThreadPc T) : State T :=
  { s with thread := Function.update s.thread t pc }

def report (taskCount : ℕ) (s : State T) : Text :=
  [.serialized s.counter taskCount, .threads s.workerThreads.card,
    .plain s.atomicCounter taskCount].flatMap Line.text

def step (taskCount : ℕ) (threads : Finset T) (s : State T) : Event T → Option (State T)
  | .post =>
      match s.main with
      | .postingStrand posted =>
          some { s with queued := s.queued + 1, main := strandLoop taskCount (posted + 1) }
      | .postingPlain posted =>
          some { s with plain := s.plain + 1, main := plainLoop taskCount (posted + 1) }
      | .joining | .returned => none
  | .start t =>
      if t ∈ threads ∧ s.thread t = .idle ∧ s.running = false ∧ 0 < s.queued then
        some ({ s with queued := s.queued - 1, running := true }.setThread t .loading)
      else none
  | .load t =>
      match s.thread t with
      | .loading => some (s.setThread t (.storing s.counter))
      | _ => none
  | .store t =>
      match s.thread t with
      | .storing counter => some ({ s with counter := counter + 1 }.setThread t .inserting)
      | _ => none
  | .insert t =>
      match s.thread t with
      | .inserting => some (s.setThread t (.writing s.workerThreads))
      | _ => none
  | .finish t =>
      match s.thread t with
      | .writing workerThreads =>
          some ({ s with
            workerThreads := insert t workerThreads
            running := false }.setThread t .idle)
      | _ => none
  | .bump t =>
      if t ∈ threads ∧ s.thread t = .idle ∧ 0 < s.plain then
        some { s with plain := s.plain - 1, atomicCounter := s.atomicCounter + 1 }
      else none
  | .join =>
      if s.main = .joining ∧ s.queued = 0 ∧ s.plain = 0 ∧ ∀ t ∈ threads, s.thread t = .idle then
        some { s with main := .returned, output := s.output ++ s.report taskCount }
      else none

end State

def started (T : Type) (taskCount : ℕ) : State T where
  main := strandLoop taskCount 0

def strandDemo (taskCount : ℕ) (threads : Finset T) : System (State T) (Event T) where
  init s := s = started T taskCount
  step s event s' := s.step taskCount threads event = some s'

end CppWorkspace.Asio.Strand
