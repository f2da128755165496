import CppWorkspace.Lib.ProcessNetwork
import CppWorkspace.Lib.SignedInt
import CppWorkspace.Lib.TextStream

/-!
`actor_pipeline.cpp`: a producer, a stage that squares and a sink, with a bounded channel
between each two. The number of items and the capacities are parameters; the loop counter
is bounded by them.
-/

namespace CppWorkspace.Asio.ActorPipeline

open Lib TextStream

abbrev Text := List Char

/-- Where an actor is and the lines that it has printed. -/
structure Coroutine (Pc : Type) where
  pc : Pc
  output : List Text := []

inductive Actor where
  | producer
  | squareStage
  | sink
deriving DecidableEq, Repr

inductive Mailbox where
  | stage1
  | stage2
deriving DecidableEq, Repr

inductive ProducerPc where
  /-- At the head of the loop. -/
  | looping (value : ℕ)
  | returned
  | threw
deriving DecidableEq, Repr

inductive SquarePc where
  | receiving
  | working (value : ℤ)
  | sending (value square : ℤ)
  | closing
  | returned
  | threw
  /-- The square of the value overflows. -/
  | undefined (value : ℤ)
deriving DecidableEq, Repr

inductive SinkPc where
  | receiving
  | returned
deriving DecidableEq, Repr

def sentText (value : ℕ) : Text := "producer: sent ".toList ++ showInt value ++ ['\n']

def producerDone : Text := "producer: done, closed output\n".toList

def squareDone : Text := "square: upstream closed, closed output\n".toList

def gotText (value : ℤ) : Text := "sink: got ".toList ++ showInt value ++ ['\n']

def sinkDone : Text := "sink: pipeline drained\n".toList

def producer (itemCount : ℕ) :
    Coroutine ProducerPc → Action (fun _ : Mailbox => ℤ) (Coroutine ProducerPc)
  | ⟨.looping value, out⟩ =>
      if value ≤ itemCount then
        .use .stage1 (.send value ⟨.looping (value + 1), out ++ [sentText value]⟩ ⟨.threw, out⟩)
      else .use .stage1 (.close ⟨.returned, out ++ [producerDone]⟩)
  | ⟨.returned, _⟩ | ⟨.threw, _⟩ => .stop

/-- `value * value` is evaluated for the send. -/
def SquarePc.afterWork (value : ℤ) : SquarePc :=
  match int (value * value) with
  | some square => .sending value square
  | none => .undefined value

def squareStage : Coroutine SquarePc → Action (fun _ : Mailbox => ℤ) (Coroutine SquarePc)
  | ⟨.receiving, out⟩ =>
      .use .stage1 (.receive (fun value => ⟨.working value, out⟩) ⟨.closing, out⟩)
  | ⟨.working value, out⟩ => .go ⟨.afterWork value, out⟩
  | ⟨.sending _ square, out⟩ =>
      .use .stage2 (.send square ⟨.receiving, out⟩ ⟨.threw, out⟩)
  | ⟨.closing, out⟩ => .use .stage2 (.close ⟨.returned, out ++ [squareDone]⟩)
  | ⟨.returned, _⟩ | ⟨.threw, _⟩ | ⟨.undefined _, _⟩ => .stop

def sink : Coroutine SinkPc → Action (fun _ : Mailbox => ℤ) (Coroutine SinkPc)
  | ⟨.receiving, out⟩ =>
      .use .stage2 (.receive (fun value => ⟨.receiving, out ++ [gotText value]⟩)
        ⟨.returned, out ++ [sinkDone]⟩)
  | ⟨.returned, _⟩ => .stop

abbrev Actor.Locals : Actor → Type
  | .producer => Coroutine ProducerPc
  | .squareStage => Coroutine SquarePc
  | .sink => Coroutine SinkPc

def program (itemCount : ℕ) : (a : Actor) → a.Locals → Action (fun _ : Mailbox => ℤ) a.Locals
  | .producer => producer itemCount
  | .squareStage => squareStage
  | .sink => sink

abbrev State := NetState (fun _ : Mailbox => ℤ) Actor.Locals

def state (producer : Coroutine ProducerPc) (squareStage : Coroutine SquarePc)
    (sink : Coroutine SinkPc) (stage1 stage2 : Channel ℤ) : State where
  channel
    | .stage1 => stage1
    | .stage2 => stage2
  process
    | .producer => producer
    | .squareStage => squareStage
    | .sink => sink

def start (capacity1 capacity2 : ℕ) : State :=
  state ⟨.looping 1, []⟩ ⟨.receiving, []⟩ ⟨.receiving, []⟩ (.make capacity1) (.make capacity2)

def actorPipeline (itemCount capacity1 capacity2 : ℕ) : System State (Label Actor) :=
  network (program itemCount) (start capacity1 capacity2)

end CppWorkspace.Asio.ActorPipeline
