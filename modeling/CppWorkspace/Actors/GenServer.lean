import CppWorkspace.Lib.Channel
import CppWorkspace.Lib.Transition

/-!
`actor_genserver.cpp`: a server that owns a counter, clients that cast
increments and call for its value over one bounded mailbox, and an orchestrator
that joins the clients, asks for the final value and stops the server. A
coroutine is a program counter with its local variables; a send or a receive is
one step, taken once the channel allows it. Integers are unbounded.
-/

namespace CppWorkspace.Actors.GenServer

open Lib

/-- Who calls `call_get`: a client or the orchestrator. The reply channel of
the call is named by its caller. -/
abbrev Caller (ι : Type*) := Option ι

/-- `message`. -/
inductive Message (ι : Type*) where
  | increment (amount : Int)
  | getValue (reply : Caller ι)
  | stop
deriving DecidableEq

inductive ServerPc (ι : Type*) where
  | receiving
  | replying (reply : Caller ι)
  | stopped
deriving DecidableEq

/-- The two loops of `client` with their counter, and the call between them. -/
inductive ClientPc where
  | first (i : Int)
  | calling
  | awaiting
  | second (i : Int)
  | returned
deriving DecidableEq

inductive OrchestratorPc where
  | joining
  | calling
  | awaiting
  | stopping
  | returned
deriving DecidableEq

structure State (ι : Type*) where
  mailbox : Channel (Message ι)
  server : ServerPc ι := .receiving
  value : Int := 0
  handled : Int := 0
  client : ι → ClientPc := fun _ => .first 0
  orchestrator : OrchestratorPc := .joining
  /-- The reply channel of each caller's call. -/
  reply : Caller ι → Channel Int := fun _ => .make 1

inductive Act (ι : Type*) where
  | cast (i : ι)
  | firstDone (i : ι)
  | call (caller : Caller ι)
  | result (caller : Caller ι) (value : Int)
  | secondDone (i : ι)
  | join
  | handle (message : Message ι)
  | sendReply (reply : Caller ι)
  | stop
deriving DecidableEq

variable {ι : Type*} [DecidableEq ι]

namespace State

def setClient (s : State ι) (i : ι) (pc : ClientPc) : State ι :=
  { s with client := Function.update s.client i pc }

/-- The caller goes on after its `get_value` is in the mailbox; the reply
channel of the call is new. -/
def called (s : State ι) : Caller ι → State ι
  | some i => { s.setClient i .awaiting with reply := Function.update s.reply (some i) (.make 1) }
  | none => { s with orchestrator := .awaiting, reply := Function.update s.reply none (.make 1) }

/-- `call_get` returns to its caller. -/
def answered (s : State ι) (totals : ι → Int) : Caller ι → State ι
  | some i => s.setClient i (.second ((totals i).tdiv 2))
  | none => { s with orchestrator := .stopping }

/-- The caller is about to send its `get_value`. -/
def Calling (s : State ι) : Caller ι → Prop
  | some i => s.client i = .calling
  | none => s.orchestrator = .calling

def Awaiting (s : State ι) : Caller ι → Prop
  | some i => s.client i = .awaiting
  | none => s.orchestrator = .awaiting

/-- `counter_server` for one message. -/
def serve (s : State ι) : Message ι → State ι
  | .increment amount => { s with handled := s.handled + 1, value := s.value + amount }
  | .getValue reply => { s with handled := s.handled + 1, server := .replying reply }
  | .stop => { s with handled := s.handled + 1, server := .stopped }

/-- The client after an increment is in the mailbox. -/
def advanced (s : State ι) (i : ι) : State ι :=
  match s.client i with
  | .first j => s.setClient i (.first (j + 1))
  | .second j => s.setClient i (.second (j + 1))
  | _ => s

/-- The client is in one of its loops with an increment to send. -/
def Casting (s : State ι) (totals : ι → Int) (i : ι) : Prop :=
  (∃ j, s.client i = .first j ∧ j < (totals i).tdiv 2) ∨
    ∃ j, s.client i = .second j ∧ j < totals i

end State

def Step (totals : ι → Int) (s : State ι) : Act ι → State ι → Prop
  | .cast i, s' => ∃ mailbox, s.Casting totals i ∧
      s.mailbox.put (.increment 1) = some mailbox ∧ s' = { s with mailbox := mailbox }.advanced i
  | .firstDone i, s' => ∃ j, s.client i = .first j ∧ ¬ j < (totals i).tdiv 2 ∧
      s' = s.setClient i .calling
  | .call caller, s' => ∃ mailbox, s.Calling caller ∧
      s.mailbox.put (.getValue caller) = some mailbox ∧
      s' = { s with mailbox := mailbox }.called caller
  | .result caller value, s' => ∃ reply, s.Awaiting caller ∧
      (s.reply caller).take = some (value, reply) ∧
      s' = { s with reply := Function.update s.reply caller reply }.answered totals caller
  | .secondDone i, s' => ∃ j, s.client i = .second j ∧ ¬ j < totals i ∧
      s' = s.setClient i .returned
  | .join, s' => s.orchestrator = .joining ∧ (∀ i, s.client i = .returned) ∧
      s' = { s with orchestrator := .calling }
  | .handle message, s' => ∃ mailbox, s.server = .receiving ∧
      s.mailbox.take = some (message, mailbox) ∧ s' = { s with mailbox := mailbox }.serve message
  | .sendReply caller, s' => ∃ reply, s.server = .replying caller ∧
      (s.reply caller).put s.value = some reply ∧
      s' = { s with server := .receiving, reply := Function.update s.reply caller reply }
  | .stop, s' => ∃ mailbox, s.orchestrator = .stopping ∧ s.mailbox.put .stop = some mailbox ∧
      s' = { s with mailbox := mailbox, orchestrator := .returned }

/-- `run` with a mailbox of this capacity and one client for each total. -/
def genServer (totals : ι → Int) (capacity : Nat) : System (State ι) (Act ι) where
  init s := s = { mailbox := .make capacity }
  step := Step totals

end CppWorkspace.Actors.GenServer
