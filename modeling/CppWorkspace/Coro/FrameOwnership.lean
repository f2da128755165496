import CppWorkspace.Lib.UniqueOwner

/-!
The wrapper objects of coroutine frames. `task` and `generator` have the same
constructors, moves and `destroy()`; what a frame contains is a parameter. No object
lives in a frame here.
-/

namespace CppWorkspace.Coro

open Lib

/-- The counters of `frame_stats`. -/
structure FrameStats where
  liveFrames : UInt64
  totalAllocations : UInt64
  lastFrameSize : UInt64
deriving DecidableEq

namespace FrameStats

/-- `frame_counted::operator new`, with memory for the frame. -/
def operatorNew (stats : FrameStats) (size : UInt64) : FrameStats :=
  ⟨stats.liveFrames + 1, stats.totalAllocations + 1, size⟩

/-- `frame_counted::operator delete`. -/
def operatorDelete (stats : FrameStats) : FrameStats :=
  { stats with liveFrames := stats.liveFrames - 1 }

end FrameStats

/-- The wrapper objects and the frames. An object that exists has the null handle
or that of a frame; `destroyed` are the frames on which `destroy()` has been called. -/
structure Wrappers (κ φ : Type) where
  handles : κ → Option (Option ℕ)
  frames : ℕ → Option φ
  nextFrame : ℕ
  destroyed : List ℕ
  stats : FrameStats

/-- What can be done with wrapper objects. -/
inductive WrapperOp (κ φ : Type) where
  | construct (o : κ)
  | create (o : κ) (size : UInt64) (content : φ)
  | moveConstruct (o other : κ)
  | moveAssign (o other : κ)
  | destruct (o : κ)

namespace Wrappers

variable {κ φ : Type}

/-- No object yet; other code may have frames of its own. -/
def init (stats : FrameStats) : Wrappers κ φ := ⟨fun _ => none, fun _ => none, 0, [], stats⟩

def hasObject (w : Wrappers κ φ) (o : κ) : Bool := (w.handles o).isSome

/-- `handle_` -/
def handle (w : Wrappers κ φ) (o : κ) : Option ℕ := (w.handles o).join

/-- The frames that exist. -/
def alive (w : Wrappers κ φ) : Set ℕ := {f | (w.frames f).isSome}

/-- `handle_.destroy()` -/
def destroyFrame (w : Wrappers κ φ) (f : ℕ) : Wrappers κ φ :=
  { w with
    frames := Function.update w.frames f none
    destroyed := w.destroyed ++ [f]
    stats := w.stats.operatorDelete }

def setFrame (w : Wrappers κ φ) (f : ℕ) (content : φ) : Wrappers κ φ :=
  { w with frames := Function.update w.frames f (some content) }

variable [DecidableEq κ]

def setHandle (w : Wrappers κ φ) (o : κ) (h : Option ℕ) : Wrappers κ φ :=
  { w with handles := Function.update w.handles o (some h) }

def destroy (w : Wrappers κ φ) (o : κ) : Wrappers κ φ :=
  match w.handle o with
  | some f => (w.destroyFrame f).setHandle o none
  | none => w

/-- The default constructor. -/
def construct (w : Wrappers κ φ) (o : κ) : Wrappers κ φ := w.setHandle o none

/-- A coroutine is called: its frame is allocated and `get_return_object` makes the
wrapper. -/
def create (w : Wrappers κ φ) (o : κ) (size : UInt64) (content : φ) : Wrappers κ φ :=
  { w with
    handles := Function.update w.handles o (some (some w.nextFrame))
    frames := Function.update w.frames w.nextFrame (some content)
    nextFrame := w.nextFrame + 1
    stats := w.stats.operatorNew size }

/-- `handle_ = std::exchange(other.handle_, {})` -/
def exchange (w : Wrappers κ φ) (o other : κ) : Wrappers κ φ :=
  (w.setHandle other none).setHandle o (w.handle other)

/-- The move constructor. -/
def moveConstruct (w : Wrappers κ φ) (o other : κ) : Wrappers κ φ := w.exchange o other

/-- `operator=` -/
def moveAssign (w : Wrappers κ φ) (o other : κ) : Wrappers κ φ :=
  if o = other then w else (w.destroy o).exchange o other

/-- The destructor, after which the object is gone. -/
def destruct (w : Wrappers κ φ) (o : κ) : Wrappers κ φ :=
  { w.destroy o with handles := Function.update (w.destroy o).handles o none }

/-- One operation. Objects are made where there is none, and used while they exist. -/
def step (w : Wrappers κ φ) : WrapperOp κ φ → Option (Wrappers κ φ)
  | .construct o => if w.hasObject o then none else some (w.construct o)
  | .create o size content =>
      if w.hasObject o then none else some (w.create o size content)
  | .moveConstruct o other =>
      if w.hasObject o = false ∧ w.hasObject other then some (w.moveConstruct o other) else none
  | .moveAssign o other =>
      if w.hasObject o ∧ w.hasObject other then some (w.moveAssign o other) else none
  | .destruct o => if w.hasObject o then some (w.destruct o) else none

end Wrappers

namespace WrapperOp

variable {κ φ : Type} [DecidableEq κ]

/-- The object that the operation destroys or gives another handle. -/
def ends : WrapperOp κ φ → Option κ
  | .moveAssign o other => if o = other then none else some o
  | .destruct o => some o
  | .construct _ | .create _ _ _ | .moveConstruct _ _ => none

/-- The object that gets the frame of a new coroutine. -/
def creates : WrapperOp κ φ → Option κ
  | .create o _ _ => some o
  | .construct _ | .moveConstruct _ _ | .moveAssign _ _ | .destruct _ => none

/-- The object that is moved to and the one that is moved from. -/
def moves : WrapperOp κ φ → Option (κ × κ)
  | .moveConstruct o other => some (o, other)
  | .moveAssign o other => if o = other then none else some (o, other)
  | .construct _ | .create _ _ _ | .destruct _ => none

/-- The objects that the operation names; an assignment of an object to itself does
nothing to it. -/
def objects : WrapperOp κ φ → List κ
  | .construct o | .create o _ _ | .destruct o => [o]
  | .moveConstruct o other => [o, other]
  | .moveAssign o other => if o = other then [] else [o, other]

/-- What an operation does: a coroutine that is called has a new frame, the frame of the
object that the operation ends is destroyed and no other, what is moved from has the null
handle afterwards and what is moved to has the handle, and the other objects keep theirs. -/
structure Effect (op : WrapperOp κ φ) (w w' : Wrappers κ φ) : Prop where
  nextFrame : w'.nextFrame = w.nextFrame + op.creates.toList.length
  created : ∀ o, op.creates = some o → w'.handle o = some w.nextFrame
  destroyed : w'.destroyed = w.destroyed ++ (op.ends.bind w.handle).toList
  moved : ∀ o other, op.moves = some (o, other) →
    w'.handle other = none ∧ w'.handle o = w.handle other
  kept : ∀ o, o ∉ op.objects → w'.handles o = w.handles o

end WrapperOp

namespace Wrappers

variable {κ φ : Type} {w w' : Wrappers κ φ} {o o' other : κ} {f : ℕ} {start : UInt64}

theorem alive_init (stats : FrameStats) : (init stats : Wrappers κ φ).alive = ∅ := by
  simp [alive, init]

theorem handle_of_not_hasObject (h : w.hasObject o = false) : w.handle o = none := by
  rw [hasObject, Option.isSome_eq_false_iff, Option.isNone_iff_eq_none] at h
  rw [handle, h]
  rfl

theorem ne_of_hasObject (ho : w.hasObject o = false) (hother : w.hasObject other = true) :
    o ≠ other := by
  rintro rfl
  rw [ho] at hother
  cases hother

theorem alive_destroyFrame (w : Wrappers κ φ) (f : ℕ) :
    (w.destroyFrame f).alive = w.alive \ {f} := by
  ext f'
  by_cases h : f' = f
  · subst h
    simp [alive, destroyFrame]
  · simp [alive, destroyFrame, h]

theorem frames_setFrame_self (w : Wrappers κ φ) (f : ℕ) (content : φ) :
    (w.setFrame f content).frames f = some content := Function.update_self ..

theorem frames_setFrame_of_ne {f' : ℕ} (h : f' ≠ f) (content : φ) :
    (w.setFrame f content).frames f' = w.frames f' := Function.update_of_ne h ..

theorem alive_setFrame (w : Wrappers κ φ) (content : φ) (hf : f ∈ w.alive) :
    (w.setFrame f content).alive = w.alive := by
  ext f'
  by_cases h : f' = f
  · subst h
    simpa [alive, setFrame] using hf
  · simp [alive, setFrame, h]

/-- One owner for each frame that exists, one destruction for each that existed, and the
count of both in `frame_stats`, which was `start` before the first frame. -/
structure Owned (start : UInt64) (w : Wrappers κ φ) : Prop where
  exclusive : Exclusive w.handle w.alive
  lifetimes : Lifetimes w.nextFrame w.destroyed w.alive
  live : w.stats.liveFrames = start + UInt64.ofNat w.nextFrame - UInt64.ofNat w.destroyed.length

namespace Owned

theorem init (stats : FrameStats) :
    Owned stats.liveFrames (.init stats : Wrappers κ φ) where
  exclusive := by
    rw [alive_init]
    exact .empty
  lifetimes := by
    rw [alive_init]
    exact .empty
  live := by simp [Wrappers.init]

theorem setFrame (h : Owned start w) (hf : f ∈ w.alive) (content : φ) :
    Owned start (w.setFrame f content) where
  exclusive := by
    rw [alive_setFrame w content hf]
    exact h.exclusive
  lifetimes := by
    rw [alive_setFrame w content hf]
    exact h.lifetimes
  live := h.live

/-- The number of frames that an object owns, as `frame_stats` counts it. -/
theorem liveFrames_eq (h : Owned start w) :
    w.stats.liveFrames = start + UInt64.ofNat {f | ∃ o, w.handle o = some f}.ncard := by
  rw [h.exclusive.setOf_held, h.live]
  have hcount := h.lifetimes.ncard_add_length
  rw [← hcount, UInt64.ofNat_add]
  grind

end Owned

variable [DecidableEq κ]

/-- What a step is. -/
theorem step_cases {op : WrapperOp κ φ} (h : w.step op = some w') :
    (∃ o, op = .construct o ∧ w.hasObject o = false ∧ w' = w.construct o) ∨
    (∃ o size content, op = .create o size content ∧ w.hasObject o = false ∧
      w' = w.create o size content) ∨
    (∃ o other, op = .moveConstruct o other ∧ w.hasObject o = false ∧
      w.hasObject other = true ∧ w' = w.moveConstruct o other) ∨
    (∃ o other, op = .moveAssign o other ∧ w' = w.moveAssign o other) ∨
    ∃ o, op = .destruct o ∧ w' = w.destruct o := by
  cases op with
  | construct o =>
      simp only [step, Option.ite_none_left_eq_some] at h
      obtain ⟨ho, hw'⟩ := h
      cases hw'
      exact .inl ⟨o, rfl, by simpa using ho, rfl⟩
  | create o size content =>
      simp only [step, Option.ite_none_left_eq_some] at h
      obtain ⟨ho, hw'⟩ := h
      cases hw'
      exact .inr (.inl ⟨o, size, content, rfl, by simpa using ho, rfl⟩)
  | moveConstruct o other =>
      simp only [step, Option.ite_none_right_eq_some] at h
      obtain ⟨⟨ho, hother⟩, hw'⟩ := h
      cases hw'
      exact .inr (.inr (.inl ⟨o, other, rfl, ho, hother, rfl⟩))
  | moveAssign o other =>
      simp only [step, Option.ite_none_right_eq_some] at h
      obtain ⟨-, hw'⟩ := h
      cases hw'
      exact .inr (.inr (.inr (.inl ⟨o, other, rfl, rfl⟩)))
  | destruct o =>
      simp only [step, Option.ite_none_right_eq_some] at h
      obtain ⟨-, hw'⟩ := h
      cases hw'
      exact .inr (.inr (.inr (.inr ⟨o, rfl, rfl⟩)))

theorem handle_setHandle (w : Wrappers κ φ) (o : κ) (h : Option ℕ) :
    (w.setHandle o h).handle = Function.update w.handle o h := by
  funext o'
  by_cases heq : o' = o
  · subst heq
    simp [handle, setHandle]
  · simp [handle, setHandle, heq]

/-- `destroy()` leaves the object with the null handle. -/
theorem handle_destroy (w : Wrappers κ φ) (o : κ) :
    (w.destroy o).handle = Function.update w.handle o none := by
  rw [destroy]
  split
  next f hf => exact handle_setHandle (w.destroyFrame f) o none
  next hnone => rw [← hnone, Function.update_eq_self]

theorem destroyed_destroy (w : Wrappers κ φ) (o : κ) :
    (w.destroy o).destroyed = w.destroyed ++ (w.handle o).toList := by
  rw [destroy]
  split
  next f hf =>
      rw [hf]
      rfl
  next hnone =>
      rw [hnone]
      exact (List.append_nil _).symm

theorem handles_destroy_of_ne (hne : o' ≠ o) : (w.destroy o).handles o' = w.handles o' := by
  rw [destroy]
  split
  next f hf => exact Function.update_of_ne hne ..
  next hnone => rfl

theorem handle_create (w : Wrappers κ φ) (o : κ) (size : UInt64) (content : φ) :
    (w.create o size content).handle = Function.update w.handle o (some w.nextFrame) := by
  funext o'
  by_cases heq : o' = o
  · subst heq
    simp [handle, create]
  · simp [handle, create, heq]

theorem alive_create (w : Wrappers κ φ) (o : κ) (size : UInt64) (content : φ) :
    (w.create o size content).alive = insert w.nextFrame w.alive := by
  ext f
  by_cases h : f = w.nextFrame
  · subst h
    simp [alive, create]
  · simp [alive, create, h]

theorem handle_exchange (w : Wrappers κ φ) (hne : o ≠ other) :
    (w.exchange o other).handle =
      Function.update (Function.update w.handle o (w.handle other)) other none := by
  rw [exchange, handle_setHandle, handle_setHandle, Function.update_comm hne.symm]

theorem handles_exchange_of_ne (ho : o' ≠ o) (hother : o' ≠ other) :
    (w.exchange o other).handles o' = w.handles o' := by
  change Function.update (Function.update w.handles other (some none)) o _ o' = _
  rw [Function.update_of_ne ho, Function.update_of_ne hother]

theorem handle_destruct (w : Wrappers κ φ) (o : κ) :
    (w.destruct o).handle = Function.update w.handle o none := by
  funext o'
  by_cases heq : o' = o
  · subst heq
    simp [handle, destruct]
  · have hkept := congrFun (handle_destroy w o) o'
    rw [Function.update_of_ne heq] at hkept ⊢
    rw [← hkept]
    exact congrArg Option.join (Function.update_of_ne heq ..)

namespace Owned

theorem construct (h : Owned start w) (ho : w.hasObject o = false) :
    Owned start (w.construct o) where
  exclusive := by
    have hnone := handle_of_not_hasObject ho
    rw [Wrappers.construct, handle_setHandle, ← hnone, Function.update_eq_self]
    exact h.exclusive
  lifetimes := h.lifetimes
  live := h.live

theorem create (h : Owned start w) (ho : w.hasObject o = false) (size : UInt64) (content : φ) :
    Owned start (w.create o size content) where
  exclusive := by
    rw [handle_create, alive_create]
    exact h.exclusive.acquire (handle_of_not_hasObject ho) h.lifetimes.not_mem_alive
  lifetimes := by
    rw [alive_create]
    exact h.lifetimes.acquire
  live := by
    change w.stats.liveFrames + 1 = _
    rw [h.live]
    change _ = start + UInt64.ofNat (w.nextFrame + 1) - UInt64.ofNat w.destroyed.length
    rw [UInt64.ofNat_add, UInt64.ofNat_one]
    grind

/-- What `destroy()` does to the frame is what ends its lifetime. -/
theorem destroy (h : Owned start w) (o : κ) : Owned start (w.destroy o) := by
  cases ho : w.handle o with
  | none =>
      rw [Wrappers.destroy, ho]
      exact h
  | some f =>
      have halive : (w.destroy o).alive = w.alive \ {f} := by
        rw [Wrappers.destroy, ho]
        exact alive_destroyFrame w f
      refine ⟨?_, ?_, ?_⟩
      · rw [handle_destroy, halive]
        exact h.exclusive.release ho
      · rw [destroyed_destroy, ho, halive]
        have hreleased := h.lifetimes.release (h.exclusive.mem_alive o f ho)
        rw [Wrappers.destroy, ho]
        exact hreleased
      · rw [Wrappers.destroy, ho]
        change w.stats.liveFrames - 1 =
          start + UInt64.ofNat w.nextFrame - UInt64.ofNat (w.destroyed ++ [f]).length
        rw [h.live, List.length_append, List.length_singleton, UInt64.ofNat_add,
          UInt64.ofNat_one]
        grind

theorem exchange (h : Owned start w) (ho : w.handle o = none) (hne : o ≠ other) :
    Owned start (w.exchange o other) where
  exclusive := by
    rw [handle_exchange w hne]
    exact h.exclusive.exchange ho hne
  lifetimes := h.lifetimes
  live := h.live

theorem moveConstruct (h : Owned start w) (ho : w.hasObject o = false)
    (hother : w.hasObject other = true) : Owned start (w.moveConstruct o other) :=
  h.exchange (handle_of_not_hasObject ho) (ne_of_hasObject ho hother)

theorem moveAssign (h : Owned start w) (o other : κ) : Owned start (w.moveAssign o other) := by
  rw [Wrappers.moveAssign]
  split
  next heq => exact h
  next hne =>
      have hnull : (w.destroy o).handle o = none := by
        rw [handle_destroy, Function.update_self]
      exact (h.destroy o).exchange hnull hne

theorem destruct (h : Owned start w) (o : κ) : Owned start (w.destruct o) where
  exclusive := by
    have hdestroyed := (h.destroy o).exclusive
    rw [handle_destroy] at hdestroyed
    rw [handle_destruct]
    exact hdestroyed
  lifetimes := (h.destroy o).lifetimes
  live := (h.destroy o).live

theorem step {op : WrapperOp κ φ} (h : Owned start w) (hstep : w.step op = some w') :
    Owned start w' := by
  rcases step_cases hstep with ⟨o, rfl, ho, rfl⟩ | ⟨o, size, content, rfl, ho, rfl⟩ |
    ⟨o, other, rfl, ho, hother, rfl⟩ | ⟨o, other, rfl, rfl⟩ | ⟨o, rfl, rfl⟩
  · exact h.construct ho
  · exact h.create ho size content
  · exact h.moveConstruct ho hother
  · exact h.moveAssign o other
  · exact h.destruct o

end Owned

instance (w : Wrappers κ φ) : DecidablePred (· ∈ w.alive) := fun f =>
  inferInstanceAs (Decidable ((w.frames f).isSome = true))

theorem effect_moveConstruct (hne : o ≠ other) :
    (WrapperOp.moveConstruct o other).Effect w (w.moveConstruct o other) where
  nextFrame := rfl
  created _ h := by cases h
  destroyed := (List.append_nil _).symm
  moved o₁ other₁ h := by
    cases h
    rw [moveConstruct, handle_exchange w hne]
    exact ⟨Function.update_self .., by rw [Function.update_of_ne hne, Function.update_self]⟩
  kept o' h := by
    rw [WrapperOp.objects, List.mem_pair, not_or] at h
    exact handles_exchange_of_ne h.1 h.2

theorem nextFrame_destroy (w : Wrappers κ φ) (o : κ) : (w.destroy o).nextFrame = w.nextFrame := by
  rw [destroy]
  split <;> rfl

theorem effect_moveAssign (w : Wrappers κ φ) (o other : κ) :
    (WrapperOp.moveAssign o other).Effect w (w.moveAssign o other) := by
  by_cases heq : o = other
  · subst heq
    rw [moveAssign, if_pos rfl]
    constructor
    · rfl
    · intro o' h
      cases h
    · simp [WrapperOp.ends]
    · intro o₁ other₁ h
      simp [WrapperOp.moves] at h
    · intro o' _
      rfl
  · rw [moveAssign, if_neg heq]
    constructor
    · exact nextFrame_destroy w o
    · intro o' h
      cases h
    · rw [WrapperOp.ends, if_neg heq]
      exact destroyed_destroy w o
    · intro o₁ other₁ h
      rw [WrapperOp.moves, if_neg heq] at h
      cases h
      rw [handle_exchange _ heq, handle_destroy, Function.update_self, Function.update_of_ne heq,
        Function.update_self, Function.update_of_ne (Ne.symm heq)]
      exact ⟨rfl, rfl⟩
    · intro o' h
      rw [WrapperOp.objects, if_neg heq, List.mem_pair, not_or] at h
      rw [handles_exchange_of_ne h.1 h.2, handles_destroy_of_ne h.1]

theorem effect_destruct (w : Wrappers κ φ) (o : κ) :
    (WrapperOp.destruct o).Effect w (w.destruct o) where
  nextFrame := nextFrame_destroy w o
  created _ h := by cases h
  destroyed := destroyed_destroy w o
  moved _ _ h := by cases h
  kept o' h := by
    rw [WrapperOp.objects, List.mem_singleton] at h
    rw [← handles_destroy_of_ne (w := w) h]
    exact Function.update_of_ne h ..

theorem effect_construct (w : Wrappers κ φ) (o : κ) :
    (WrapperOp.construct o).Effect w (w.construct o) where
  nextFrame := rfl
  created _ h := by cases h
  destroyed := (List.append_nil _).symm
  moved _ _ h := by cases h
  kept _ h := Function.update_of_ne (List.mem_singleton.not.mp h) ..

theorem effect_create (w : Wrappers κ φ) (o : κ) (size : UInt64) (content : φ) :
    (WrapperOp.create o size content).Effect w (w.create o size content) where
  nextFrame := rfl
  created o' h := by
    cases h
    rw [handle_create, Function.update_self]
  destroyed := (List.append_nil _).symm
  moved _ _ h := by cases h
  kept _ h := Function.update_of_ne (List.mem_singleton.not.mp h) ..

theorem effect_of_step {op : WrapperOp κ φ} (hstep : w.step op = some w') : op.Effect w w' := by
  rcases step_cases hstep with ⟨o, rfl, ho, rfl⟩ | ⟨o, size, content, rfl, ho, rfl⟩ |
    ⟨o, other, rfl, ho, hother, rfl⟩ | ⟨o, other, rfl, rfl⟩ | ⟨o, rfl, rfl⟩
  · exact effect_construct w o
  · exact effect_create w o size content
  · exact effect_moveConstruct (ne_of_hasObject ho hother)
  · exact effect_moveAssign w o other
  · exact effect_destruct w o

end Wrappers

end CppWorkspace.Coro
