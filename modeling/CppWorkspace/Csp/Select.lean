import CppWorkspace.Lib.Transition

/-!
`csp_select.cpp`: two producers, each with a timer and an unbuffered channel,
and a loop that awaits `fast || slow` in every round. `||` starts both receives;
a receive that meets a sender takes the value at once and queues its completion.
The completion that runs first wins and cancels the other receive, whose value,
if it had already met a sender, is dropped.
-/

namespace CppWorkspace.Csp.CspSelect

open Lib

abbrev Text := List Char

inductive Side where
  | fast
  | slow
deriving DecidableEq, Repr

def Side.other : Side → Side
  | .fast => .slow
  | .slow => .fast

def toText (n : Nat) : Text := (toString n).toList

/-- The labels of the producers and how many messages each sends. -/
structure Producers where
  label : Side → Text
  count : Side → Nat

def Producers.text (P : Producers) (side : Side) (seq : Nat) : Text :=
  P.label side ++ " ".toList ++ toText seq

/-- `tick_count + tock_count`. -/
def Producers.rounds (P : Producers) : Nat := P.count .fast + P.count .slow

inductive ProducerPc where
  /-- At the head of the loop, or waiting for the timer. -/
  | timing (seq : Nat)
  /-- Waiting in `async_send`. -/
  | sending (seq : Nat)
  | returned
deriving DecidableEq, Repr

inductive Receive where
  | waiting
  /-- It met a sender; its completion is queued. -/
  | matched (text : Text)
  | completed (text : Text)
  | cancelled
deriving DecidableEq, Repr

def Receive.ended : Receive → Bool
  | .completed _ | .cancelled => true
  | .waiting | .matched _ => false

def Receive.cancel : Receive → Receive
  | .waiting => .cancelled
  | receive => receive

inductive LoopPc where
  | starting (round : Nat)
  | selecting (round : Nat) (receive : Side → Receive) (winner : Option Side)
  | returned

structure State where
  producer : Side → ProducerPc := fun _ => .timing 1
  loop : LoopPc := .starting 1
  /-- The lines of `select_loop`: the branch and the text. -/
  printed : List (Side × Text) := []

inductive Act where
  | timerFires (side : Side)
  | producerReturns (side : Side)
  | startRound
  | complete (side : Side)
  | print
  | loopReturns
deriving DecidableEq, Repr

/-- `async_send`: it meets a receive that waits, or waits itself. -/
def State.send (P : Producers) (s : State) (side : Side) (seq : Nat) : State :=
  match s.loop with
  | .selecting round receive winner =>
      if receive side = .waiting then
        { s with
          producer := Function.update s.producer side (.timing (seq + 1))
          loop := .selecting round
            (Function.update receive side (.matched (P.text side seq))) winner }
      else { s with producer := Function.update s.producer side (.sending seq) }
  | .starting _ | .returned =>
      { s with producer := Function.update s.producer side (.sending seq) }

/-- A receive that is started, and its sender if one waits. -/
def ProducerPc.receive (P : Producers) (side : Side) : ProducerPc → Receive
  | .sending seq => .matched (P.text side seq)
  | .timing _ | .returned => .waiting

def ProducerPc.received : ProducerPc → ProducerPc
  | .sending seq => .timing (seq + 1)
  | pc => pc

def Step (P : Producers) (s : State) : Act → State → Prop
  | .timerFires side, s' => ∃ seq, s.producer side = .timing seq ∧ seq ≤ P.count side ∧
      s' = s.send P side seq
  | .producerReturns side, s' => ∃ seq, s.producer side = .timing seq ∧ P.count side < seq ∧
      s' = { s with producer := Function.update s.producer side .returned }
  | .startRound, s' => ∃ round, s.loop = .starting round ∧ round ≤ P.rounds ∧
      s' = { s with
        producer := fun side => (s.producer side).received
        loop := .selecting round (fun side => (s.producer side).receive P side) none }
  | .complete side, s' => ∃ round receive winner text, s.loop = .selecting round receive winner ∧
      receive side = .matched text ∧
      s' = { s with
        loop := match winner with
          | none => .selecting round
              (Function.update (fun k => (receive k).cancel) side (.completed text)) (some side)
          | some first => .selecting round
              (Function.update receive side (.completed text)) (some first) }
  | .print, s' => ∃ round receive side text, s.loop = .selecting round receive (some side) ∧
      receive side = .completed text ∧ (receive side.other).ended = true ∧
      s' = { s with printed := s.printed ++ [(side, text)], loop := .starting (round + 1) }
  | .loopReturns, s' => ∃ round, s.loop = .starting round ∧ P.rounds < round ∧
      s' = { s with loop := .returned }

def selectSystem (P : Producers) : System State Act where
  init s := s = {}
  step := Step P

/-- How many messages of a producer have been received. -/
def ProducerPc.accepted (count : Nat) : ProducerPc → Nat
  | .timing seq | .sending seq => seq - 1
  | .returned => count

def State.accepted (P : Producers) (s : State) (side : Side) : Nat :=
  (s.producer side).accepted (P.count side)

/-- The first messages of a producer. -/
def Producers.texts (P : Producers) (side : Side) (n : Nat) : List Text :=
  (List.range' 1 n).map (P.text side)

/-- What has been printed from one channel. -/
def State.printedOf (s : State) (side : Side) : List Text :=
  s.printed.filterMap (fun e => if e.1 = side then some e.2 else none)

/-- The text that a receive of the running round has taken. -/
def State.inFlight (s : State) (side : Side) : List Text :=
  match s.loop with
  | .selecting _ receive _ =>
      match receive side with
      | .matched text | .completed text => [text]
      | .waiting | .cancelled => []
  | .starting _ | .returned => []

/-- `select_loop` waits and neither receive has met a sender. -/
def State.Waiting (s : State) : Prop :=
  ∃ round receive winner, s.loop = .selecting round receive winner ∧
    ∀ side, receive side = .waiting

/-- Both receives of one round meet a sender in this step or after it: a round
starts while both producers wait, or a send finds its receive waiting while the
completion of the other one is queued. -/
def State.Collides (s : State) : Act → Prop
  | .startRound => ∀ side, ∃ seq, s.producer side = .sending seq
  | .timerFires side => ∃ round receive winner text,
      s.loop = .selecting round receive winner ∧ receive side = .waiting ∧
        receive side.other = .matched text
  | _ => False

end CppWorkspace.Csp.CspSelect
