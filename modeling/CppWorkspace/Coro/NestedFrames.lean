import CppWorkspace.Lib.Transition
import CppWorkspace.Coro.FrameOwnership

/-!
Wrapper objects that live in coroutine frames. `handle_.destroy()` calls the destructors
of the objects in the frame before it frees the frame, and these destroy frames in
their turn: what an operation has still to do grows while it is done.
-/

namespace CppWorkspace.Coro

open Lib System Relation

/-- The class of an object, for every type argument `T`. -/
inductive WrapperClass (τ : Type) where
  | task (T : τ)
  | generator (T : τ)
deriving DecidableEq

abbrev WrapperObject (τ ν : Type) := WrapperClass τ × ν

/-- What a frame of a coroutine of this class holds: the wrapper objects among its
parameters and locals and in its promise, the last made first. -/
structure Contents (τ ν : Type) where
  kind : WrapperClass τ
  objects : List (WrapperObject τ ν)

/-- The parts of an operation. -/
inductive Work (τ ν : Type) where
  /-- `destroy()`, as far as `handle_.destroy()`. -/
  | destroy (o : WrapperObject τ ν)
  /-- `handle_ = {}` -/
  | clear (o : WrapperObject τ ν)
  /-- `frame_counted::operator delete` -/
  | operatorDelete
  /-- The destructor returns. -/
  | gone (o : WrapperObject τ ν)
  /-- `handle_ = std::exchange(other.handle_, {})` -/
  | exchange (o other : WrapperObject τ ν)
deriving DecidableEq

/-- What `handle_.destroy()` does to a frame with these objects, and `handle_ = {}` after
it. -/
def frameWork {τ ν : Type} (o : WrapperObject τ ν) (objects : List (WrapperObject τ ν)) :
    List (Work τ ν) :=
  objects.flatMap (fun x => [.destroy x, .gone x]) ++ [.operatorDelete, .clear o]

/-- What can be done with wrapper objects; `home` is the frame in which an object is
made, if it is made in one. -/
inductive NestedOp (τ ν : Type) where
  | construct (o : WrapperObject τ ν) (home : Option ℕ)
  | create (o : WrapperObject τ ν) (size : UInt64) (home : Option ℕ)
  | moveConstruct (o other : WrapperObject τ ν) (home : Option ℕ)
  | moveAssign (o other : WrapperObject τ ν)
  | destruct (o : WrapperObject τ ν)
deriving DecidableEq

abbrev Nest (τ ν : Type) := Wrappers (WrapperObject τ ν) (Contents τ ν)

/-- The objects and frames, and what the operation that is going on has still to do, its
next part first. -/
structure NestedWrappers (τ ν : Type) where
  wrappers : Nest τ ν
  todo : List (Work τ ν)
  undefined : Bool

namespace Wrappers

variable {τ ν : Type}

/-- The objects in the frame that an object has the handle of. -/
def owned (w : Nest τ ν) (o : WrapperObject τ ν) : List (WrapperObject τ ν) :=
  match (w.handle o).bind w.frames with
  | some contents => contents.objects
  | none => []

/-- `x` lives in the frame that `o` owns. -/
def Owns (w : Nest τ ν) (o x : WrapperObject τ ν) : Prop := x ∈ w.owned o

/-- The frame is no more, though its memory is not yet freed. -/
def endFrame (w : Nest τ ν) (f : ℕ) : Nest τ ν :=
  { w with
    frames := Function.update w.frames f none
    destroyed := w.destroyed ++ [f] }

/-- An object is made in this frame, or outside of all frames. -/
def place (w : Nest τ ν) (o : WrapperObject τ ν) : Option ℕ → Option (Nest τ ν)
  | none => some w
  | some f =>
      (w.frames f).map fun contents =>
        w.setFrame f { contents with objects := o :: contents.objects }

variable [DecidableEq τ] [DecidableEq ν]

/-- The object is gone, also from the frame in which it has lived. -/
def forget (w : Nest τ ν) (o : WrapperObject τ ν) : Nest τ ν :=
  { w with
    handles := Function.update w.handles o none
    frames := fun f => (w.frames f).map fun contents =>
      { contents with objects := contents.objects.filter (· ≠ o) } }

/-- An operation begins. Objects are made where there is none, and used while they
exist; a coroutine is of the class of its wrapper, and objects move within a class. -/
def begin (w : Nest τ ν) : NestedOp τ ν → Option (Nest τ ν × List (Work τ ν))
  | .construct o home =>
      if w.hasObject o then none else (w.place o home).map fun w => (w.construct o, [])
  | .create o size home =>
      if w.hasObject o then none
      else (w.place o home).map fun w => (w.create o size ⟨o.1, []⟩, [])
  | .moveConstruct o other home =>
      if w.hasObject o = false ∧ w.hasObject other ∧ o.1 = other.1 then
        (w.place o home).map fun w => (w.moveConstruct o other, [])
      else none
  | .moveAssign o other =>
      if w.hasObject o ∧ w.hasObject other ∧ o.1 = other.1 then
        some (w, if o = other then [] else [.destroy o, .exchange o other])
      else none
  | .destruct o => if w.hasObject o then some (w, [.destroy o, .gone o]) else none

/-- The next part of an operation. It is undefined if it uses an object that is gone or
destroys a frame that has been destroyed. -/
def perform (w : Nest τ ν) : Work τ ν → Option (Nest τ ν × List (Work τ ν))
  | .destroy o =>
      if w.hasObject o then
        match w.handle o with
        | none => some (w, [])
        | some f =>
            (w.frames f).map fun contents => (w.endFrame f, frameWork o contents.objects)
      else none
  | .clear o => if w.hasObject o then some (w.setHandle o none, []) else none
  | .operatorDelete => some ({ w with stats := w.stats.operatorDelete }, [])
  | .gone o => if w.hasObject o then some (w.forget o, []) else none
  | .exchange o other =>
      if w.hasObject o ∧ w.hasObject other then some (w.exchange o other, []) else none

end Wrappers

namespace NestedWrappers

variable {τ ν : Type} [DecidableEq τ] [DecidableEq ν]

def init (stats : FrameStats) : NestedWrappers τ ν := ⟨.init stats, [], false⟩

/-- An operation begins, or the one that is going on goes on. -/
def step (s : NestedWrappers τ ν) : Option (NestedOp τ ν) → Option (NestedWrappers τ ν)
  | some op =>
      if s.undefined = false ∧ s.todo = [] then
        (s.wrappers.begin op).map fun r => ⟨r.1, r.2, false⟩
      else none
  | none =>
      match s.undefined, s.todo with
      | false, part :: rest =>
          match s.wrappers.perform part with
          | some (w, more) => some ⟨w, more ++ rest, false⟩
          | none => some { s with undefined := true }
      | _, _ => none

end NestedWrappers

/-- Programs that create, move and destroy tasks and generators in any order, outside of
frames and in them. The coroutines of the frames that are destroyed are suspended. -/
def nestedSystem (τ ν : Type) [DecidableEq τ] [DecidableEq ν] (stats : FrameStats) :
    System (NestedWrappers τ ν) (Option (NestedOp τ ν)) where
  init s := s = .init stats
  step s label s' := s.step label = some s'

/-- The operation that is going on goes on. -/
def goingOn (τ ν : Type) [DecidableEq τ] [DecidableEq ν] (stats : FrameStats) :
    System (NestedWrappers τ ν) (Option (NestedOp τ ν)) :=
  (nestedSystem τ ν stats).restrict fun _ label => label = none

namespace Wrappers

variable {τ ν : Type}

/-- No operation destroys the frame in which its own object or the one it moves from
lives: the object that ends has neither in its frame, nor in the frames of the objects
there, and so on. -/
def Spares (w : Nest τ ν) : Option (NestedOp τ ν) → Prop
  | some (.moveAssign o other) =>
      o ≠ other → ¬ TransGen w.Owns o o ∧ ¬ TransGen w.Owns o other
  | some (.destruct o) => ¬ TransGen w.Owns o o
  | some (.construct _ _) | some (.create _ _ _) | some (.moveConstruct _ _ _) | none => True

end Wrappers

namespace NestedOp

variable {τ ν : Type} [DecidableEq τ] [DecidableEq ν]

/-- The object that the operation destroys or gives another handle. -/
def ends : NestedOp τ ν → Option (WrapperObject τ ν)
  | .moveAssign o other => if o = other then none else some o
  | .destruct o => some o
  | .construct _ _ | .create _ _ _ | .moveConstruct _ _ _ => none

/-- The object that gets the frame of a new coroutine. -/
def creates : NestedOp τ ν → Option (WrapperObject τ ν)
  | .create o _ _ => some o
  | .construct _ _ | .moveConstruct _ _ _ | .moveAssign _ _ | .destruct _ => none

/-- The object that is moved to and the one that is moved from. -/
def moves : NestedOp τ ν → Option (WrapperObject τ ν × WrapperObject τ ν)
  | .moveConstruct o other _ => some (o, other)
  | .moveAssign o other => if o = other then none else some (o, other)
  | .construct _ _ | .create _ _ _ | .destruct _ => none

/-- The objects that the operation names; an assignment of an object to itself does
nothing to it. -/
def objects : NestedOp τ ν → List (WrapperObject τ ν)
  | .construct o _ | .create o _ _ | .destruct o => [o]
  | .moveConstruct o other _ => [o, other]
  | .moveAssign o other => if o = other then [] else [o, other]

/-- What an operation has done when it is over: a coroutine that is called has a new
frame; the frames that the object that the operation ends owns, and those that the
objects in them own, are destroyed, and no others; the objects in them are gone, as is an
object that is destroyed; what is moved from has the null handle and what is moved to
has the handle; and the other objects keep theirs. -/
structure Effect (op : NestedOp τ ν) (w w' : Nest τ ν) : Prop where
  nextFrame : w'.nextFrame = w.nextFrame + op.creates.toList.length
  created : ∀ o, op.creates = some o → w'.handle o = some w.nextFrame
  destroyed : ∃ frames, w'.destroyed = w.destroyed ++ frames ∧
    ∀ f, f ∈ frames ↔ ∃ o x, op.ends = some o ∧ ReflTransGen w.Owns o x ∧ w.handle x = some f
  gone : ∀ x, (op = .destruct x ∨ ∃ o, op.ends = some o ∧ TransGen w.Owns o x) →
    w'.hasObject x = false
  moved : ∀ o other, op.moves = some (o, other) →
    w'.handle other = none ∧ w'.handle o = w.handle other
  kept : ∀ x, x ∉ op.objects → (∀ o, op.ends = some o → ¬ TransGen w.Owns o x) →
    w'.handles x = w.handles x

end NestedOp

end CppWorkspace.Coro
