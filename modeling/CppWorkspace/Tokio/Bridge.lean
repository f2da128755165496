import CppWorkspace.Lib.Transition

/-!
`asio-call-tokio`: coroutines on an `io_context` that await tasks of a tokio
runtime. The suspended handler is parked on the heap, its address crosses into
Rust as an integer and comes back once, when the task calls its completion.
Executors are a parameter; timers only decide the order of the completions,
and every order is allowed.
-/

namespace CppWorkspace.Tokio.Bridge

open Lib

inductive Kind where
  | add
  | greet
deriving DecidableEq, Repr

/-- The arguments of `sleep_then_add` and `fetch_greeting`. -/
inductive Call where
  | add (lhs rhs : Int32) (delayMs : Nat)
  | greet (name : List Char) (delayMs : Nat)
deriving DecidableEq, Repr

inductive Value where
  | sum (value : Int32)
  | text (value : List Char)
deriving DecidableEq, Repr

def Call.kind : Call → Kind
  | .add _ _ _ => .add
  | .greet _ _ => .greet

def Value.kind : Value → Kind
  | .sum _ => .add
  | .text _ => .greet

/-- `i32::saturating_add`. -/
def saturatingAdd (lhs rhs : Int32) : Int32 :=
  let sum := lhs.toInt + rhs.toInt
  if sum < Int32.minValue.toInt then Int32.minValue
  else if Int32.maxValue.toInt < sum then Int32.maxValue
  else lhs + rhs

/-- The sum is clamped to the range of the type, never wrapped. -/
theorem saturatingAdd_toInt (lhs rhs : Int32) :
    (saturatingAdd lhs rhs).toInt =
      max Int32.minValue.toInt (min Int32.maxValue.toInt (lhs.toInt + rhs.toInt)) := by
  have hmin : Int32.minValue.toInt = -2 ^ 31 := rfl
  have hmax : Int32.maxValue.toInt = 2 ^ 31 - 1 := rfl
  simp only [saturatingAdd]
  split
  · next hlow => omega
  · next hlow =>
    split
    · next hhigh => omega
    · next hhigh =>
      rw [Int32.toInt_add, Int.bmod_eq_of_le] <;> omega

/-- The name every worker thread of the runtime is given. -/
def threadName : Option (List Char) := some "tokio-ffi".toList

def greeting (name : List Char) : List Char :=
  let name := if name = [] then "anonymous".toList else name
  "Hello, ".toList ++ name ++ "! Composed by tokio on thread \"".toList ++
    threadName.getD "?".toList ++ "\".".toList

/-- What the tokio task hands to its completion. -/
def Call.result : Call → Value
  | .add lhs rhs _ => .sum (saturatingAdd lhs rhs)
  | .greet name _ => .text (greeting name)

/-- The completion handler of the `await`-th await, with the executor its
coroutine runs on. -/
structure Handler (E : Type*) where
  await : Nat
  executor : E

/-- `pending_op<Result>`: the handler, empty once moved out, and the executor
of the work guard. -/
structure PendingOp (E : Type*) where
  result : Kind
  handler : Option (Handler E)
  work : E

/-- A spawned tokio task that has not called its completion. -/
structure TokioTask where
  call : Call
  ctx : Nat

/-- A tokio thread that has entered `resume`. -/
structure Resuming where
  ctx : Nat
  value : Value

inductive Ready (E : Type*) where
  | plain
  | resume (handler : Handler E) (value : Value) (executor : E)

/-- A thread that has called `io_context::run`, or a worker of the tokio runtime. -/
inductive Thread where
  | loop
  | tokio
deriving DecidableEq, Repr

/-- Only a thread that is inside `run` takes handlers from the queue. -/
def Thread.inRun : Thread → Bool
  | .loop => true
  | .tokio => false

structure Resumption (E : Type*) where
  await : Nat
  value : Value
  executor : E
  thread : Thread

structure State (E : Type*) where
  awaits : List (Call × E) := []
  heap : Nat → Option (PendingOp E) := fun _ => none
  tasks : List TokioTask := []
  resuming : List Resuming := []
  /-- Operations whose handler is posted and which are not yet destroyed. -/
  releasing : List Nat := []
  queue : List (Ready E) := []
  /-- Handlers that the `io_context` is executing. -/
  running : Nat := 0
  outstanding : Nat := 0
  stopped : Bool := false
  resumed : List (Resumption E) := []
  /-- A context was used that does not stand for a parked operation. -/
  undefined : Bool := false

variable {E : Type*}

namespace State

/-- The `io_context` stops when its last work finishes. -/
def workFinished (s : State E) : State E :=
  { s with
    outstanding := s.outstanding - 1
    stopped := s.stopped || s.outstanding - 1 = 0 }

/-- `park`, and the tokio task spawned with the returned context. -/
def park (s : State E) (call : Call) (executor : E) (ctx : Nat) : State E :=
  { s with
    awaits := s.awaits ++ [(call, executor)]
    heap := Function.update s.heap ctx
      (some ⟨call.kind, some ⟨s.awaits.length, executor⟩, executor⟩)
    tasks := s.tasks ++ [⟨call, ctx⟩]
    outstanding := s.outstanding + 1 }

/-- The first half of `resume`: post the handler with the result to the
executor of the guard. -/
def post (s : State E) (ctx : Nat) (value : Value) : State E :=
  match s.heap ctx with
  | some ⟨result, some handler, work⟩ =>
      if result = value.kind then
        { s with
          heap := Function.update s.heap ctx (some ⟨result, none, work⟩)
          releasing := s.releasing ++ [ctx]
          queue := s.queue ++ [.resume handler value work]
          outstanding := s.outstanding + 1 }
      else { s with undefined := true }
  | _ => { s with undefined := true }

/-- The second half: the operation and its guard are destroyed. -/
def release (s : State E) (ctx : Nat) : State E :=
  match s.heap ctx with
  | some _ => { s with heap := Function.update s.heap ctx none }.workFinished
  | none => { s with undefined := true }

/-- A thread enters a handler. -/
def enter (s : State E) (thread : Thread) : Ready E → State E
  | .plain => { s with running := s.running + 1 }
  | .resume handler value executor =>
      { s with
        running := s.running + 1
        resumed := s.resumed ++ [⟨handler.await, value, executor, thread⟩] }

end State

inductive Act (E : Type*) where
  | spawn
  | start (call : Call) (executor : E) (ctx : Nat)
  | complete (task : TokioTask)
  | post (ctx : Nat)
  | release (ctx : Nat)
  | run (thread : Thread) (item : Ready E)
  | finish

/-- A coroutine starts an await while one of its handlers runs, at any free
address. -/
def Step (s : State E) : Act E → State E → Prop
  | .spawn, s' => s.stopped = false ∧
      s' = { s with queue := s.queue ++ [.plain], outstanding := s.outstanding + 1 }
  | .start call executor ctx, s' => 0 < s.running ∧ s.heap ctx = none ∧
      s' = s.park call executor ctx
  | .complete task, s' => ∃ before after, s.tasks = before ++ task :: after ∧
      s' = { s with
        tasks := before ++ after
        resuming := s.resuming ++ [⟨task.ctx, task.call.result⟩] }
  | .post ctx, s' => ∃ before value after, s.resuming = before ++ ⟨ctx, value⟩ :: after ∧
      s' = { s with resuming := before ++ after }.post ctx value
  | .release ctx, s' => ∃ before after, s.releasing = before ++ ctx :: after ∧
      s' = { s with releasing := before ++ after }.release ctx
  | .run thread item, s' => thread.inRun = true ∧ s.stopped = false ∧ ∃ before after,
      s.queue = before ++ item :: after ∧ s' = { s with queue := before ++ after }.enter thread item
  | .finish, s' => 0 < s.running ∧ s' = { s with running := s.running - 1 }.workFinished

def bridgeSystem : System (State E) (Act E) where
  init s := s = {}
  step := Step

end CppWorkspace.Tokio.Bridge
