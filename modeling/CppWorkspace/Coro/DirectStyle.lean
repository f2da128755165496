import CppWorkspace.Coro.Machine

/-!
`sync_wait` of `task.hpp`. A coroutine body of ordinary code creates tasks,
awaits them and ends by `co_return` or by an exception; the same body read in
direct style calls the child where the coroutine awaits it.
-/

namespace CppWorkspace.Coro

/-- `task_result<T>`: nothing yet, a value (of one possible value for `void`) or
an exception. -/
inductive TaskResult (V E : Type) where
  | empty
  | value (v : V)
  | exception (e : E)
deriving Repr, DecidableEq

/-- `take()`: the value, or the exception that it rethrows. Without a result its
assertion fails. -/
def TaskResult.take {V E : Type} : TaskResult V E → Option (Except E V)
  | .empty => none
  | .value v => some (.ok v)
  | .exception e => some (.error e)

/-- What a coroutine body does next. `try` around a `co_await` is its handler;
other control flow is in the locals. -/
inductive Stmt (κ V E μ : Type) where
  | create (body : κ) (next : ℕ → κ)
  | await (t : ℕ) (next : V → κ) (handler : Option (E → κ))
  | get (next : μ → κ)
  | set (memory : μ) (next : κ)
  | coReturn (v : V)
  | throw (e : E)

section Semantics

variable {κ V E μ : Type}

/-- Where a body goes on with what the `co_await` expression gives: an exception
goes to the handler or escapes. -/
def afterAwait (next : V → κ) (handler : Option (E → κ)) : Except E V → κ ⊕ E
  | .ok v => .inl (next v)
  | .error e =>
      match handler with
      | some handle => .inl (handle e)
      | none => .inr e

/-- The frame of a coroutine: its locals, or an exception on its way to
`unhandled_exception()`. -/
inductive Locals (κ E : Type) where
  | body (locals : κ)
  | escaping (e : E)
  | aborted

/-- `await_resume()`. -/
def awaitResume (next : V → κ) (handler : Option (E → κ)) (result : Option (TaskResult V E)) :
    Locals κ E :=
  match (result.getD .empty).take with
  | none => .aborted
  | some outcome =>
      match afterAwait next handler outcome with
      | .inl locals => .body locals
      | .inr e => .escaping e

/-- The state machine of a body. Nothing follows a failed assertion. -/
def compile (code : κ → Stmt κ V E μ) : Locals κ E → Instr (Locals κ E) (TaskResult V E) μ
  | .escaping e => .ret (.exception e)
  | .aborted => .get (fun _ => .aborted)
  | .body locals =>
      match code locals with
      | .create body next => .create (.body body) (fun t => .body (next t))
      | .await t next handler => .await t (awaitResume next handler)
      | .get next => .get (fun memory => .body (next memory))
      | .set memory next => .set memory (.body next)
      | .coReturn v => .ret (.value v)
      | .throw e => .ret (.exception e)

/-! Direct style. -/

/-- The calls that have been created and not made, and the memory. -/
structure Heap (κ μ : Type) where
  thunks : ℕ → Option κ
  next : ℕ
  memory : μ

def Heap.create (heap : Heap κ μ) (body : κ) : Heap κ μ :=
  { heap with thunks := Function.update heap.thunks heap.next (some body), next := heap.next + 1 }

def Heap.take (heap : Heap κ μ) (t : ℕ) : Heap κ μ :=
  { heap with thunks := Function.update heap.thunks t none }

@[simp] theorem Heap.create_thunks_next (heap : Heap κ μ) (body : κ) :
    (heap.create body).thunks heap.next = some body := Function.update_self ..

theorem Heap.create_thunks_of_ne (heap : Heap κ μ) (body : κ) {t : ℕ} (h : t ≠ heap.next) :
    (heap.create body).thunks t = heap.thunks t := Function.update_of_ne h ..

@[simp] theorem Heap.take_thunks_self (heap : Heap κ μ) (t : ℕ) : (heap.take t).thunks t = none :=
  Function.update_self ..

theorem Heap.take_thunks_of_ne (heap : Heap κ μ) {t u : ℕ} (h : u ≠ t) :
    (heap.take t).thunks u = heap.thunks u := Function.update_of_ne h ..

/-- A call of a child and the return from it. -/
inductive Call where
  | call (caller callee : ℕ)
  | ret (callee caller : ℕ)
deriving Repr, DecidableEq

/-- A body as a function that calls its children: what it returns or throws, and
the calls it makes. There is none when a child is called twice or the fuel runs
out. -/
def direct (code : κ → Stmt κ V E μ) :
    ℕ → ℕ → κ → Heap κ μ → Option (Except E V × Heap κ μ × List Call)
  | 0, _, _, _ => none
  | fuel + 1, self, locals, heap =>
      match code locals with
      | .create body next => direct code fuel self (next heap.next) (heap.create body)
      | .get next => direct code fuel self (next heap.memory) heap
      | .set memory next => direct code fuel self next { heap with memory := memory }
      | .coReturn v => some (.ok v, heap, [])
      | .throw e => some (.error e, heap, [])
      | .await t next handler =>
          match heap.thunks t with
          | none => none
          | some body =>
              match direct code fuel t body (heap.take t) with
              | none => none
              | some (outcome, heap', calls) =>
                  match afterAwait next handler outcome with
                  | .inr e => some (.error e, heap', .call self t :: calls ++ [.ret t self])
                  | .inl locals' =>
                      match direct code fuel self locals' heap' with
                      | none => none
                      | some (last, heap'', more) =>
                          some (last, heap'', .call self t :: calls ++ .ret t self :: more)

/-! `sync_wait`. -/

/-- What `resume()` does until it comes back: the pending handle is resumed, or
the running coroutine goes on. -/
def State.advance {κ ρ μ : Type} (code : κ → Instr κ ρ μ) (s : State κ ρ μ) :
    Option (State κ ρ μ × List Event) :=
  match s.pending with
  | some _ => s.step code .resume
  | none => s.step code (.exec s.now s.now)

/-- `resume()` has come back. -/
def State.idle {κ ρ μ : Type} (s : State κ ρ μ) : Bool :=
  s.pending.isNone && s.stack.isEmpty

def State.drive {κ ρ μ : Type} (code : κ → Instr κ ρ μ) :
    ℕ → State κ ρ μ → Option (State κ ρ μ × List Event)
  | 0, s => if s.idle then some (s, []) else none
  | fuel + 1, s =>
      if s.idle then some (s, [])
      else
        match s.advance code with
        | none => none
        | some (s', events) =>
            match State.drive code fuel s' with
            | none => none
            | some (last, more) => some (last, events ++ more)

/-- `sync_wait`: `start()`, the assertion that the task is done, and `result()`. -/
def syncWait (code : κ → Stmt κ V E μ) (fuel : ℕ)
    (s : State (Locals κ E) (TaskResult V E) μ) (t : ℕ) :
    Option (Except E V × State (Locals κ E) (TaskResult V E) μ × List Event) :=
  match s.step (compile code) (.start t) with
  | none => none
  | some (started, events) =>
      match started.drive (compile code) fuel with
      | none => none
      | some (last, more) =>
          match ((last.result t).getD .empty).take with
          | none => none
          | some outcome => some (outcome, last, events ++ more)

/-- What the machine shows of a call and of a return. -/
def Call.events : Call → List Event
  | .call caller callee => [.awaitCall caller callee, .resumed callee (.awaiter caller)]
  | .ret callee caller => [.resumed caller (.finalAwaiter callee)]

def Call.callee? : Call → Option ℕ
  | .call _ callee => some callee
  | .ret _ _ => none

/-- The tasks that are called, in order. -/
def called (calls : List Call) : List ℕ := calls.filterMap Call.callee?

/-- Only tasks that have been called before call or are returned to. -/
def CalledFirst : List ℕ → List Call → Prop
  | _, [] => True
  | before, .call caller callee :: rest => caller ∈ before ∧ CalledFirst (callee :: before) rest
  | before, .ret _ caller :: rest => caller ∈ before ∧ CalledFirst before rest

end Semantics

end CppWorkspace.Coro
