import CppWorkspace.Lib.Commuting
import CppWorkspace.Lib.SignedInt
import CppWorkspace.Lib.TextStream

/-!
`demo_06_delayed_messages.cpp`: a rocket that answers a start request when its
countdown is over. Any number of requests come at any time. A promise that is replaced
is broken, and the runtime answers the requests that a terminated actor can no longer
handle.
-/

namespace CppWorkspace.Actors.DelayedMessages

open Lib TextStream

abbrev Text := List Char

abbrev RequestId := ℕ

inductive Message where
  | start (request : RequestId) (count : ℤ)
  | tick
deriving DecidableEq, Repr

inductive Reply where
  /-- The text that is delivered. -/
  | ignition
  | brokenPromise
  | receiverDown
deriving DecidableEq, Repr

def countdownText (remaining : ℤ) : Text := "  倒计时: ".toList ++ showInt remaining

/-- `rocket_state`; the promise is the request that it answers. -/
structure RocketState where
  remaining : ℤ := 0
  launched : Option RequestId := none
deriving DecidableEq, Repr

inductive Rocket where
  | running (state : RocketState)
  | quit
  /-- `remaining` has overflowed. -/
  | undefined
deriving DecidableEq, Repr

/-- The rocket, its mailbox and what the runtime holds for it. -/
structure World where
  rocket : Rocket := .running {}
  mailbox : List Message := []
  delayedTicks : ℕ := 0
  /-- The requests that were made. -/
  sent : List (RequestId × ℤ) := []
  replies : List (RequestId × Reply) := []
  output : List Text := []
deriving DecidableEq, Repr

inductive Event where
  | request (id : RequestId) (count : ℤ)
  | delayOver
  | handle
deriving DecidableEq, Repr

/-- The requests among the messages. -/
def requests (mailbox : List Message) : List RequestId :=
  mailbox.filterMap fun
    | .start request _ => some request
    | .tick => none

namespace World

/-- The handler of `start_atom`. -/
def onStart (s : World) (state : RocketState) (request : RequestId) (count : ℤ) : World :=
  { s with
    rocket := .running ⟨count, some request⟩
    delayedTicks := s.delayedTicks + 1
    replies := s.replies ++ state.launched.toList.map fun old => (old, .brokenPromise) }

/-- The rocket delivers its promise and terminates. -/
def quit (s : World) (state : RocketState) : World :=
  { s with
    rocket := .quit
    mailbox := []
    replies := s.replies ++ (state.launched.toList.map fun request => (request, .ignition)) ++
      (requests s.mailbox).map fun request => (request, .receiverDown) }

/-- The handler of `tick_atom`. -/
def onTick (s : World) (state : RocketState) : World :=
  let printed := { s with output := s.output ++ [countdownText state.remaining] }
  match int (state.remaining - 1) with
  | none => { printed with rocket := .undefined }
  | some remaining =>
      if 0 < remaining then
        { printed with
          rocket := .running { state with remaining }
          delayedTicks := s.delayedTicks + 1 }
      else printed.quit state

def react (s : World) (state : RocketState) : Message → World
  | .start request count => s.onStart state request count
  | .tick => s.onTick state

def step (s : World) : Event → Option World
  | .request id count =>
      if id ∉ s.sent.map Prod.fst ∧ FitsInt count then
        match s.rocket with
        | .running _ => some { s with
            sent := s.sent ++ [(id, count)]
            mailbox := s.mailbox ++ [.start id count] }
        | .quit => some { s with
            sent := s.sent ++ [(id, count)]
            replies := s.replies ++ [(id, .receiverDown)] }
        | .undefined => none
      else none
  | .delayOver =>
      if 0 < s.delayedTicks then
        match s.rocket with
        | .running _ => some { s with
            delayedTicks := s.delayedTicks - 1
            mailbox := s.mailbox ++ [.tick] }
        | .quit => some { s with delayedTicks := s.delayedTicks - 1 }
        | .undefined => none
      else none
  | .handle =>
      match s.rocket, s.mailbox with
      | .running state, message :: rest => some ({ s with mailbox := rest }.react state message)
      | _, _ => none

end World

def rocketSystem : System World Event where
  init s := s = {}
  step s event s' := s.step event = some s'

/-- No more requests are made. -/
def launchOnly : System World Event :=
  rocketSystem.restrict fun _ event => event = .delayOver ∨ event = .handle

end CppWorkspace.Actors.DelayedMessages
