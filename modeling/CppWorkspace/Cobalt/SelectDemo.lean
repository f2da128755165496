import CppWorkspace.Lib.Commuting
import CppWorkspace.Lib.SignedInt
import CppWorkspace.Lib.Stage

/-!
`select_demo` of `spawn_channel.cpp`: two coroutines feed a channel each, and a loop
races the reads of both. The read that loses is interrupted before it has taken a value.
The numbers of messages, of rounds and the capacities are parameters, and each feeder
may sleep as long as it likes.
-/

namespace CppWorkspace.Cobalt.SelectDemo

open Lib

abbrev Text := List Char

inductive Side where
  | fast
  | slow
deriving DecidableEq, Repr

def Side.other : Side → Side
  | .fast => .slow
  | .slow => .fast

def toText (n : ℕ) : Text := (toString n).toList

/-- What a feeder writes in its `i`-th round; the fast one writes the number. -/
def Side.message : Side → ℕ → Text
  | .fast, i => toText i
  | .slow, i => "慢速消息 ".toList ++ toText i

/-- The `count` of each feeder, the rounds of the loop and the capacities. -/
structure Params where
  bound : Side → LoopBound
  rounds : ℕ
  capacity : Side → ℕ

/-- How many messages there are. -/
def Params.count (P : Params) (side : Side) : ℕ := (P.bound side).rounds

inductive FeederPc where
  /-- At the head of the loop, or asleep. -/
  | sleeping (i : ℕ)
  | writing (i : ℕ)
  | returned
deriving DecidableEq, Repr

inductive LoopPc where
  | selecting (i : ℕ)
  /-- Inside `join`. -/
  | joining
  | returned
deriving DecidableEq, Repr

structure State where
  feeder : Side → FeederPc := fun _ => .sleeping 1
  channel : Side → Channel Text
  loop : LoopPc
  /-- The lines of the loop: the channel and the message. -/
  printed : List (Side × Text) := []

inductive Event where
  | wakes (side : Side)
  | feederReturns (side : Side)
  | writes (side : Side)
  /-- The message is handed to the race, which waits for both channels. -/
  | hands (side : Side)
  /-- The race takes a message out of the channel. -/
  | selects (side : Side)
  | joins
deriving DecidableEq, Repr

namespace State

/-- The loop has this many rounds behind it. -/
def enter (P : Params) (i : ℕ) : LoopPc := if i < P.rounds then .selecting i else .joining

def setFeeder (s : State) (side : Side) (pc : FeederPc) : State :=
  { s with feeder := Function.update s.feeder side pc }

def setChannel (s : State) (side : Side) (c : Channel Text) : State :=
  { s with channel := Function.update s.channel side c }

/-- The race has a winner. -/
def print (P : Params) (s : State) (i : ℕ) (side : Side) (text : Text) : State :=
  { s with loop := enter P (i + 1), printed := s.printed ++ [(side, text)] }

def step (P : Params) (s : State) : Event → Option State
  | .wakes side =>
      match s.feeder side with
      | .sleeping i =>
          if (i : ℤ) ≤ (P.bound side).val then some (s.setFeeder side (.writing i)) else none
      | .writing _ | .returned => none
  | .feederReturns side =>
      match s.feeder side with
      | .sleeping i =>
          if (P.bound side).val < i then some (s.setFeeder side .returned) else none
      | .writing _ | .returned => none
  | .writes side =>
      match s.feeder side with
      | .writing i => ((s.channel side).put (side.message i)).map fun c =>
          (s.setChannel side c).setFeeder side (.sleeping (i + 1))
      | .sleeping _ | .returned => none
  | .hands side =>
      match s.feeder side, s.loop with
      | .writing i, .selecting round =>
          if (s.channel side).Meets then
            some ((s.setFeeder side (.sleeping (i + 1))).print P round side (side.message i))
          else none
      | _, _ => none
  | .selects side =>
      match s.loop with
      | .selecting round => (s.channel side).take.map fun (text, c) =>
          (s.setChannel side c).print P round side text
      | .joining | .returned => none
  | .joins =>
      if s.loop = .joining ∧ s.feeder .fast = .returned ∧ s.feeder .slow = .returned then
        some { s with loop := .returned, channel := fun side => (s.channel side).close }
      else none

/-- What has been printed from one channel. -/
def printedOf (s : State) (side : Side) : List Text :=
  s.printed.filterMap fun line => if line.1 = side then some line.2 else none

end State

/-- The first messages of a feeder. -/
def messages (side : Side) (n : ℕ) : List Text := (List.range' 1 n).map side.message

def initial (P : Params) : State where
  channel side := .make (P.capacity side)
  loop := State.enter P 0

def selectDemo (P : Params) : System State Event where
  init s := s = initial P
  step s event s' := s.step P event = some s'

end CppWorkspace.Cobalt.SelectDemo
