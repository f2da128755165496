import CppWorkspace.Delegates.MulticastDelegate

/-!
`Broadcast` with listeners that use the delegate they are called from. A
listener is a program over the public operations and its own captured state;
`code` gives the program of every target. The depth bounds how far broadcasts
are nested, so a result means that every listener has returned.
-/

namespace CppWorkspace.Delegates

/-- What a program can do with a multicast delegate, and with its references to
the owners of weak bindings. -/
inductive Action (ι σ α : Type) where
  | add (d : Delegate ι) (captured : σ)
  | remove (h : Nat)
  | removeAll (object : Pointer)
  | clear
  | broadcast (arg : α)
  | release (o : Owner)

/-- What an operation returns. -/
inductive Reply where
  | handle (h : Nat)
  | found (b : Bool)
  | count (n : Nat)
  | nothing
deriving Repr, DecidableEq

/-- The body of a listener. -/
inductive Listener (ι σ α : Type) where
  | done
  | act (a : Action ι σ α) (k : Reply → Listener ι σ α)
  | get (k : σ → Listener ι σ α)
  | set (captured : σ) (k : Listener ι σ α)

/-- What happens to the delegate, in order. An invocation shows the captured
state of its callable when it starts and when it ends. -/
inductive Event (ι σ : Type) where
  | added (slot : Slot ι) (captured : σ)
  | removed (h : Nat)
  | removedAll (object : Pointer)
  | cleared
  | released (o : Owner)
  | began (slot : Slot ι) (captured : σ)
  | wrote (slot : Slot ι) (captured : σ)
  | finished (slot : Slot ι) (captured : σ)
  | purged
deriving Repr, DecidableEq

/-- One turn of the loop in `Broadcast`. -/
structure Visit (ι σ : Type) where
  slot : Slot ι
  turn : State ι σ
  events : List (Event ι σ)
  after : State ι σ

/-- One call of `Broadcast`. -/
structure Round (ι σ : Type) where
  visits : List (Visit ι σ)
  state : State ι σ

def Round.events {ι σ : Type} (r : Round ι σ) : List (Event ι σ) :=
  r.visits.flatMap (·.events) ++ [.purged]

namespace State

variable {ι σ α : Type}

/-- An operation, given what nested calls of `Broadcast` do. -/
def perform (broadcast : α → State ι σ → Option (Round ι σ)) (st : State ι σ) :
    Action ι σ α → Option (Reply × State ι σ × List (Event ι σ))
  | .add d captured =>
      some (.handle st.nextHandle, st.add d captured, [.added (st.newSlot d) captured])
  | .remove h => some (.found (st.remove h).1, (st.remove h).2, [.removed h])
  | .removeAll object =>
      some (.count (st.removeAll object).1, (st.removeAll object).2, [.removedAll object])
  | .clear => some (.nothing, st.clear, [.cleared])
  | .broadcast arg => (broadcast arg st).map fun r => (.nothing, r.state, r.events)
  | .release o => some (.nothing, st.release o, [.released o])

/-- Run the body of a listener in the given slot. -/
def runListener (broadcast : α → State ι σ → Option (Round ι σ)) (self : Slot ι) :
    Listener ι σ α → State ι σ → Option (State ι σ × List (Event ι σ))
  | .done, st => some (st, [])
  | .act a k, st => do
      let (reply, next, first) ← st.perform broadcast a
      let (last, rest) ← runListener broadcast self (k reply) next
      some (last, first ++ rest)
  | .get k, st => runListener broadcast self (k (st.cells self.cell)) st
  | .set captured k, st => do
      let (last, rest) ← runListener broadcast self k (st.write self.cell captured)
      some (last, .wrote self captured :: rest)

/-- `invocation_(args...)`. The reference to a locked owner lasts until the
listener returns. -/
def invoke (broadcast : α → State ι σ → Option (Round ι σ)) (slot : Slot ι)
    (body : Listener ι σ α) (st : State ι σ) : Option (State ι σ × List (Event ι σ)) := do
  let (last, events) ← runListener broadcast slot body (st.enter slot)
  some (last.leave,
    .began slot (st.cells slot.cell) :: (events ++ [.finished slot (last.cells slot.cell)]))

/-- `ExecuteIfBound`. -/
def executeIfBound (code : ι → α → Listener ι σ α)
    (broadcast : α → State ι σ → Option (Round ι σ)) (arg : α) (slot : Slot ι) (st : State ι σ) :
    Option (State ι σ × List (Event ι σ)) :=
  match slot.delegate.invocation with
  | some target =>
      if st.isBound slot.delegate then st.invoke broadcast slot (code target arg)
      else some (st, [])
  | none => some (st, [])

/-- The body of the loop in `Broadcast`. -/
def turn (code : ι → α → Listener ι σ α)
    (broadcast : α → State ι σ → Option (Round ι σ)) (arg : α) (slot : Slot ι) (st : State ι σ) :
    Option (State ι σ × List (Event ι σ)) :=
  if st.contains slot.handle then executeIfBound code broadcast arg slot st else some (st, [])

/-- The loop of `Broadcast` over its snapshot. -/
def visitAll (code : ι → α → Listener ι σ α)
    (broadcast : α → State ι σ → Option (Round ι σ)) (arg : α) :
    List (Slot ι) → State ι σ → Option (List (Visit ι σ) × State ι σ)
  | [], st => some ([], st)
  | slot :: snapshot, st => do
      let (after, events) ← turn code broadcast arg slot st
      let (visits, last) ← visitAll code broadcast arg snapshot after
      some (⟨slot, st, events, after⟩ :: visits, last)

/-- `Broadcast`, with listeners that nest it less than `depth` deep. -/
def broadcast (code : ι → α → Listener ι σ α) :
    (depth : Nat) → α → State ι σ → Option (Round ι σ)
  | 0, _, _ => none
  | depth + 1, arg, st => do
      let (visits, last) ← visitAll code (broadcast code depth) arg st.slots st
      some ⟨visits, last.purge⟩

end State

end CppWorkspace.Delegates
