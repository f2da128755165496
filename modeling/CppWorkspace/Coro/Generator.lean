import CppWorkspace.Lib.Transition
import CppWorkspace.Lib.LazySequence
import CppWorkspace.Coro.FrameOwnership

/-!
`coro::generator`: the promise, `next()`, `value()`, the iterator and range-for loops
over generator objects that a program may move in between.
-/

namespace CppWorkspace.Coro

open Lib System

/-- The frame of a generator coroutine with its promise. The body is suspended in a
state of `β`, or at its final suspend point. -/
structure GeneratorFrame (β V E : Type) where
  point : Option β
  current : Option V
  exception : Option E

namespace GeneratorFrame

variable {β V E : Type}

/-- `initial_suspend` stops the coroutine before its body. -/
def initial (b : β) : GeneratorFrame β V E := ⟨some b, none, none⟩

def done (frame : GeneratorFrame β V E) : Bool := frame.point.isNone

/-- `handle_.resume()` up to the next suspension: `yield_value`, or `return_void` or
`unhandled_exception` and the final suspend point. -/
def resume (code : β → Activation β V E) (frame : GeneratorFrame β V E) :
    GeneratorFrame β V E :=
  match frame.point with
  | none => frame
  | some b =>
      match code b with
      | .yields v b' => { frame with point := some b', current := some v }
      | .returns => { frame with point := none }
      | .throws e => { frame with point := none, exception := some e }

/-- `next()` on a handle that is not null. -/
def next (code : β → Activation β V E) (frame : GeneratorFrame β V E) :
    GeneratorFrame β V E × Except E Bool :=
  if frame.done then (frame, .ok false)
  else
    let resumed := frame.resume code
    match resumed.exception with
    | some e => (resumed, .error e)
    | none => (resumed, .ok !resumed.done)

end GeneratorFrame

/-- The same operation with other contents of the frames. -/
def WrapperOp.map {κ φ ψ : Type} (g : φ → ψ) : WrapperOp κ φ → WrapperOp κ ψ
  | .construct o => .construct o
  | .create o size content => .create o size (g content)
  | .moveConstruct o other => .moveConstruct o other
  | .moveAssign o other => .moveAssign o other
  | .destruct o => .destruct o

/-- The content of the frame that the operation makes. -/
def WrapperOp.content {κ φ : Type} : WrapperOp κ φ → Option φ
  | .create _ _ content => some content
  | .construct _ | .moveConstruct _ _ | .moveAssign _ _ | .destruct _ => none

/-- The generator objects of a program. -/
abbrev Generators (κ β V E : Type) := Wrappers κ (GeneratorFrame β V E)

namespace Generators

variable {κ β V E : Type}

/-- `next()` on an object; there is no outcome when the frame has been destroyed. -/
def next (code : β → Activation β V E) (w : Generators κ β V E) (o : κ) :
    Option (Generators κ β V E × Except E Bool) :=
  match w.handle o with
  | none => some (w, .ok false)
  | some f =>
      (w.frames f).map fun frame =>
        (w.setFrame f (frame.next code).1, (frame.next code).2)

/-- `*handle_.promise().current` -/
def value (w : Generators κ β V E) (o : κ) : Option V :=
  (w.handle o).bind fun f => (w.frames f).bind (·.current)

end Generators

/-- `generator::iterator` -/
structure GeneratorIterator (κ : Type) where
  gen : κ
  done : Bool

/-- A range-for is at its body, or it has ended by its test, by leaving its body early or by
an exception of `begin()` or `++`. -/
inductive LoopStatus (E : Type) where
  | running
  | finished
  | left
  | threw (e : E)

def LoopStatus.isRunning {E : Type} : LoopStatus E → Bool
  | .running => true
  | .finished | .left | .threw _ => false

/-- A range-for over a generator object with the values that its body has seen. `frame`
and `before` say what the object owned when the loop began and how many calls on that frame
there had been. -/
structure RangeFor (κ V E : Type) where
  iter : GeneratorIterator κ
  visited : List V
  status : LoopStatus E
  frame : Option ℕ
  before : ℕ

/-- A call of `next()` on a frame, made by the range-for with the given number or by other
code. -/
structure GeneratorCall (E : Type) where
  frame : ℕ
  loop : Option ℕ
  result : Except E Bool

/-- A program that uses generators. `bodies` are the bodies of the frames as they were
created, `calls` all calls and `loops` all range-for loops so far. -/
structure GeneratorState (κ β V E : Type) where
  wrappers : Generators κ β V E
  bodies : List β
  calls : List (GeneratorCall E)
  loops : List (RangeFor κ V E)

/-- What the program does: it makes, moves or destroys objects, calls `next()`, begins a
range-for, comes to the end of the body of one or leaves it. -/
inductive GeneratorAction (κ β : Type) where
  | object (op : WrapperOp κ β)
  | next (o : κ)
  | begin (o : κ)
  | iterate (i : ℕ)
  | leave (i : ℕ)

namespace GeneratorState

variable {κ β V E : Type}

def init (stats : FrameStats) : GeneratorState κ β V E := ⟨.init stats, [], [], []⟩

/-- The calls on a frame. -/
def callsOn (s : GeneratorState κ β V E) (f : ℕ) : List (GeneratorCall E) :=
  s.calls.filter (·.frame = f)

/-- `next()` on an object that exists. -/
def call (code : β → Activation β V E) (s : GeneratorState κ β V E) (o : κ)
    (loop : Option ℕ) : Option (GeneratorState κ β V E × Except E Bool) :=
  if s.wrappers.hasObject o then
    (s.wrappers.next code o).map fun (wrappers, result) =>
      ({ s with
          wrappers := wrappers
          calls := s.calls ++ ((s.wrappers.handle o).map (⟨·, loop, result⟩)).toList }, result)
  else none

end GeneratorState

namespace RangeFor

variable {κ β V E : Type}

/-- `++iter`, which leaves `done_` as it is when `next()` throws, then the test of the loop
and, if the loop goes on, `*iter`. -/
def proceed (loop : RangeFor κ V E) (w : Generators κ β V E) :
    Except E Bool → Option (RangeFor κ V E)
  | .error e => some { loop with status := .threw e }
  | .ok more =>
      let iter : GeneratorIterator κ := { loop.iter with done := !more }
      if iter.done then some { loop with iter := iter, status := .finished }
      else (w.value iter.gen).map fun v =>
        { loop with iter := iter, visited := loop.visited ++ [v] }

end RangeFor

namespace GeneratorState

variable {κ β V E : Type}

/-- The loop with number `i` calls `++` and goes on. -/
def advance (code : β → Activation β V E) (s : GeneratorState κ β V E) (i : ℕ)
    (loop : RangeFor κ V E) : Option (GeneratorState κ β V E × RangeFor κ V E) := do
  let (s', result) ← s.call code loop.iter.gen (some i)
  let loop' ← loop.proceed s'.wrappers result
  return (s', loop')

/-- `begin()`; the loop gets the next number. -/
def beginLoop (code : β → Activation β V E) (s : GeneratorState κ β V E) (o : κ) :
    Option (GeneratorState κ β V E) := do
  let frame := s.wrappers.handle o
  let before := (frame.map fun f => (s.callsOn f).length).getD 0
  let (s', loop) ← s.advance code s.loops.length ⟨⟨o, false⟩, [], .running, frame, before⟩
  return { s' with loops := s'.loops ++ [loop] }

/-- The end of the body of a range-for. -/
def iterate (code : β → Activation β V E) (s : GeneratorState κ β V E) (i : ℕ) :
    Option (GeneratorState κ β V E) := do
  let loop ← s.loops[i]?
  if loop.status.isRunning then
    let (s', loop') ← s.advance code i loop
    return { s' with loops := s'.loops.set i loop' }
  else none

/-- The body of a range-for is left early. -/
def leave (s : GeneratorState κ β V E) (i : ℕ) : Option (GeneratorState κ β V E) := do
  let loop ← s.loops[i]?
  if loop.status.isRunning then
    return { s with loops := s.loops.set i { loop with status := .left } }
  else none

/-- An operation on objects; the object of a running range-for is left alone. -/
def execute [DecidableEq κ] (s : GeneratorState κ β V E) (op : WrapperOp κ β) :
    Option (GeneratorState κ β V E) :=
  if ∀ loop ∈ s.loops, loop.status.isRunning → loop.iter.gen ∉ op.objects then
    (s.wrappers.step (op.map .initial)).map fun wrappers =>
      { s with wrappers := wrappers, bodies := s.bodies ++ op.content.toList }
  else none

def step [DecidableEq κ] (code : β → Activation β V E) (s : GeneratorState κ β V E) :
    GeneratorAction κ β → Option (GeneratorState κ β V E)
  | .object op => s.execute op
  | .next o => (s.call code o none).map Prod.fst
  | .begin o => s.beginLoop code o
  | .iterate i => s.iterate code i
  | .leave i => s.leave i

end GeneratorState

/-- The programs that use generators with bodies of `code`. -/
def generatorSystem {κ β V E : Type} [DecidableEq κ] (code : β → Activation β V E)
    (stats : FrameStats) : System (GeneratorState κ β V E) (GeneratorAction κ β) where
  init s := s = .init stats
  step s a s' := s.step code a = some s'

end CppWorkspace.Coro
