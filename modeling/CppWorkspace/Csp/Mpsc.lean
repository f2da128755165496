import CppWorkspace.Lib.AsyncChannel
import CppWorkspace.Lib.Transition

/-!
`single_thread_demo` of `csp_mpsc.cpp`: producers share one channel, the coroutine
that joins them closes it, and one consumer reads it to its end. The set of
producers, the number of messages of each and the capacity are parameters.
-/

namespace CppWorkspace.Csp.CspMpsc

open Lib

abbrev ProducerId := ℤ

structure Message where
  producerId : ProducerId
  seq : ℕ
deriving DecidableEq, Repr

inductive ProducerPc where
  /-- At the head of the loop. -/
  | looping (seq : ℕ)
  /-- At `timer.async_wait`. -/
  | timing (seq : ℕ)
  /-- At `async_send`. -/
  | sending (seq : ℕ)
  /-- The channel has suspended the send. -/
  | suspended (seq : ℕ)
  | returned
  | threw
deriving DecidableEq, Repr

/-- `producers_then_close`. -/
inductive CloserPc where
  | joining
  | returned
  | threw
deriving DecidableEq, Repr

inductive ConsumerPc where
  | receiving
  | returned
deriving DecidableEq, Repr

structure State where
  channel : AsyncChannel ProducerId Message
  producer : ProducerId → ProducerPc
  closer : CloserPc := .joining
  consumer : ConsumerPc := .receiving
  /-- What the consumer has got, in order. -/
  received : List Message := []

inductive Act where
  | next (id : ProducerId)
  | timerFires (id : ProducerId)
  | send (id : ProducerId)
  | close
  | joinFails
  | receive
  | exit
deriving DecidableEq, Repr

namespace State

def setProducer (s : State) (id : ProducerId) (pc : ProducerPc) : State :=
  { s with producer := Function.update s.producer id pc }

/-- What the channel has taken in so far. -/
def taken (s : State) : List Message := s.received ++ s.channel.contents

/-- The coroutine whose send completes goes on after it. -/
def completed (s : State) (id : ProducerId) : State :=
  match s.producer id with
  | .suspended seq => s.setProducer id (.looping (seq + 1))
  | _ => s

def step (producers : Finset ProducerId) (perProducer : ℕ) (s : State) : Act → Option State
  | .next id =>
      match s.producer id with
      | .looping seq =>
          if seq ≤ perProducer then some (s.setProducer id (.timing seq))
          else some (s.setProducer id .returned)
      | _ => none
  | .timerFires id =>
      match s.producer id with
      | .timing seq => some (s.setProducer id (.sending seq))
      | _ => none
  | .send id =>
      match s.producer id with
      | .sending seq =>
          match s.channel.send id ⟨id, seq⟩ with
          | .done channel => some ({ s with channel }.setProducer id (.looping (seq + 1)))
          | .suspended channel => some ({ s with channel }.setProducer id (.suspended seq))
          | .refused => some (s.setProducer id .threw)
      | _ => none
  | .close =>
      if s.closer = .joining ∧ ∀ id ∈ producers, s.producer id = .returned then
        some { s with channel := s.channel.close, closer := .returned }
      else none
  | .joinFails =>
      if s.closer = .joining ∧ ∃ id ∈ producers, s.producer id = .threw then
        some { s with closer := .threw }
      else none
  | .receive =>
      -- a receive that waits gets the value of the next send in the step after it
      match s.consumer, s.channel.receive with
      | .receiving, some (msg, none, channel) =>
          some { s with channel, received := s.received ++ [msg] }
      | .receiving, some (msg, some id, channel) =>
          some ({ s with channel, received := s.received ++ [msg] }.completed id)
      | _, _ => none
  | .exit =>
      if s.consumer = .receiving ∧ s.channel.receive.isNone ∧ s.channel.closed then
        some { s with consumer := .returned }
      else none

/-- Every coroutine has returned. -/
def Finished (producers : Finset ProducerId) (s : State) : Prop :=
  (∀ id ∈ producers, s.producer id = .returned) ∧ s.closer = .returned ∧ s.consumer = .returned

instance (producers : Finset ProducerId) (s : State) : Decidable (s.Finished producers) :=
  inferInstanceAs (Decidable (_ ∧ _))

end State

/-- The coroutines at their start, for these producers. -/
def started (producers : Finset ProducerId) (capacity : ℕ) : State where
  channel := .make capacity
  producer id := if id ∈ producers then .looping 1 else .returned

def mpscSystem (producers : Finset ProducerId) (perProducer capacity : ℕ) : System State Act where
  init s := s = started producers capacity
  step s act s' := s.step producers perProducer act = some s'

/-- The first `n` messages of a producer. -/
def messages (id : ProducerId) (n : ℕ) : List Message := (List.range' 1 n).map (⟨id, ·⟩)

/-- Those of the messages that are from this producer. -/
def ofProducer (id : ProducerId) (msgs : List Message) : List Message :=
  msgs.filter fun msg => msg.producerId = id

end CppWorkspace.Csp.CspMpsc
