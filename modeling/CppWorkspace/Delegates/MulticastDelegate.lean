import CppWorkspace.Lib.Transition

/-!
Delegates and multicast delegates of `delegate.hpp`. A slot shares its delegate
with the snapshots of running broadcasts; of that shared node only the state
captured by the callable ever changes, and it lives in a cell of its own.
Strong references to the owners of weak bindings are held by the program until
it releases them, and by the invocations that have locked them.
-/

namespace CppWorkspace.Delegates

/-- The control block of an object under a `shared_ptr`. -/
abbrev Owner := Nat

/-- `const void*`; `none` is the null pointer. -/
abbrev Pointer := Option Nat

/-- A delegate. `ι` names the code of the target. -/
structure Delegate (ι : Type) where
  invocation : Option ι
  weak : Option Owner
  usesWeak : Bool
  owner : Pointer
deriving Repr, DecidableEq

namespace Delegate

variable {ι : Type}

/-- The delegate that is not bound. -/
def unbound : Delegate ι := ⟨none, none, false, none⟩

def createStatic (func : ι) : Delegate ι := ⟨some func, none, false, none⟩

def createLambda (functor : ι) : Delegate ι := ⟨some functor, none, false, none⟩

def createRaw (object : Pointer) (method : ι) : Delegate ι := ⟨some method, none, false, object⟩

def createSP (weak : Option Owner) (object : Pointer) (method : ι) : Delegate ι :=
  ⟨some method, weak, true, object⟩

def createWeakLambda (weak : Option Owner) (object : Pointer) (functor : ι) : Delegate ι :=
  ⟨some functor, weak, true, object⟩

/-- `weak.lock()` at the start of an invocation of a weak binding. -/
def lock (d : Delegate ι) : Option Owner := if d.usesWeak then d.weak else none

/-- The part of `IsBoundToObject` that does not ask `IsBound`. -/
def targets (d : Delegate ι) (object : Pointer) : Bool := object.isSome && d.owner == object

end Delegate

/-- `Slot`, with the `id_` of its handle. -/
structure Slot (ι : Type) where
  handle : Nat
  delegate : Delegate ι
  cell : Nat
deriving Repr, DecidableEq

/-- Two slots have different handles and different cells. -/
def Slot.Differ {ι : Type} (s t : Slot ι) : Prop := s.handle ≠ t.handle ∧ s.cell ≠ t.cell

instance {ι : Type} : Std.Symm (@Slot.Differ ι) := ⟨fun _ _ h => ⟨h.1.symm, h.2.symm⟩⟩

/-- A multicast delegate and what its listeners share: the handle counter, the
captured states of the callables, the owners the program has released and the
invocations that have not returned, innermost first. `nextHandle` does not wrap: it is
the source's 64-bit counter as long as fewer than 2^64 handles have been made, and then
a `DelegateHandle` compares as its number does (`delegateHandle_beq`). -/
structure State (ι σ : Type) where
  slots : List (Slot ι)
  nextHandle : Nat
  cells : Nat → σ
  nextCell : Nat
  released : List Owner
  running : List (Slot ι)
  sorted : slots.Pairwise fun s t => s.handle < t.handle ∧ s.cell < t.cell
  fresh : ∀ s ∈ slots, s.handle < nextHandle ∧ s.cell < nextCell

namespace State

variable {ι σ : Type}

/-- A new multicast delegate. -/
def new (cells : Nat → σ) : State ι σ where
  slots := []
  nextHandle := 1
  cells := cells
  nextCell := 0
  released := []
  running := []
  sorted := .nil
  fresh := by simp

/-- Keep only some of the slots. -/
def keep (st : State ι σ) (slots : List (Slot ι)) (h : slots.Sublist st.slots) : State ι σ :=
  { st with
    slots := slots
    sorted := st.sorted.sublist h
    fresh := fun s hs => st.fresh s (h.subset hs) }

/-- `!expired()`. -/
def alive (st : State ι σ) (o : Owner) : Bool :=
  !st.released.contains o || st.running.any fun s => s.delegate.lock == some o

/-- `Delegate::IsBound`. -/
def isBound (st : State ι σ) (d : Delegate ι) : Bool :=
  d.invocation.isSome && (!d.usesWeak || d.weak.any st.alive)

/-- `Delegate::IsBoundToObject`. -/
def isBoundToObject (st : State ι σ) (d : Delegate ι) (object : Pointer) : Bool :=
  d.targets object && st.isBound d

/-- The slot an `Add` makes next. -/
def newSlot (st : State ι σ) (d : Delegate ι) : Slot ι := ⟨st.nextHandle, d, st.nextCell⟩

/-- `Add`: a new handle and a new shared node at the end of `slots_`. -/
def add (st : State ι σ) (d : Delegate ι) (captured : σ) : State ι σ :=
  { st with
    slots := st.slots ++ [st.newSlot d]
    nextHandle := st.nextHandle + 1
    cells := Function.update st.cells st.nextCell captured
    nextCell := st.nextCell + 1
    sorted := by
      refine List.pairwise_append.mpr ⟨st.sorted, List.pairwise_singleton _ _, fun s hs t ht => ?_⟩
      rw [List.mem_singleton.mp ht]
      exact st.fresh s hs
    fresh := by
      intro s hs
      rcases List.mem_append.mp hs with hold | hnew
      · exact (st.fresh s hold).imp Nat.lt_succ_of_lt Nat.lt_succ_of_lt
      · rw [List.mem_singleton.mp hnew]
        exact ⟨Nat.lt_succ_self _, Nat.lt_succ_self _⟩ }

/-- `Remove`: erase the first slot with the handle. -/
def remove (st : State ι σ) (h : Nat) : Bool × State ι σ :=
  if st.slots.any (·.handle == h) then
    (true, st.keep (st.slots.eraseP (·.handle == h)) (List.eraseP_sublist ..))
  else (false, st)

/-- `RemoveAll`: erase the slots bound to the object. -/
def removeAll (st : State ι σ) (object : Pointer) : Nat × State ι σ :=
  let kept := st.slots.filter fun s => !st.isBoundToObject s.delegate object
  (st.slots.length - kept.length, st.keep kept (List.filter_sublist ..))

/-- `Clear`. -/
def clear (st : State ι σ) : State ι σ := st.keep [] (List.nil_sublist _)

/-- The clean-up at the end of `Broadcast`. -/
def purge (st : State ι σ) : State ι σ :=
  st.keep (st.slots.filter fun s => st.isBound s.delegate) (List.filter_sublist ..)

/-- `Contains`. -/
def contains (st : State ι σ) (h : Nat) : Bool := st.slots.any (·.handle == h)

/-- The program drops its reference to an owner. -/
def release (st : State ι σ) (o : Owner) : State ι σ := { st with released := o :: st.released }

/-- The invocation of a slot starts and locks the owner of a weak binding. -/
def enter (st : State ι σ) (slot : Slot ι) : State ι σ :=
  { st with running := slot :: st.running }

/-- The innermost invocation returns. -/
def leave (st : State ι σ) : State ι σ := { st with running := st.running.tail }

/-- A callable writes its captured state. -/
def write (st : State ι σ) (cell : Nat) (captured : σ) : State ι σ :=
  { st with cells := Function.update st.cells cell captured }

theorem contains_iff (st : State ι σ) (h : Nat) :
    st.contains h = true ↔ ∃ s ∈ st.slots, s.handle = h := by
  simp [contains]

/-- A handle and a cell belong to one slot. -/
theorem slot_unique (st : State ι σ) {s t : Slot ι} (hs : s ∈ st.slots) (ht : t ∈ st.slots)
    (h : s.handle = t.handle ∨ s.cell = t.cell) : s = t := by
  by_contra hne
  have hdiffer : st.slots.Pairwise Slot.Differ := st.sorted.imp fun hst => ⟨hst.1.ne, hst.2.ne⟩
  obtain ⟨hhandle, hcell⟩ := hdiffer.forall hs ht hne
  exact h.elim hhandle hcell

end State

end CppWorkspace.Delegates
