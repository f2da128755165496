import CppWorkspace.Delegates.Handles

/-!
`Character` of `main.cpp` in the delegate example: `TakeDamage`, with listeners of
`OnHealthChanged` and of the death event that use the character they are called from.
Health is an exact number, and a call is given by the damage that its formula yields.
-/

namespace CppWorkspace.Delegates

/-- The multicast delegates of a character. -/
inductive Topic where
  | onHealthChanged
  | death
deriving DecidableEq, Repr

def Topic.other : Topic → Topic
  | onHealthChanged => death
  | death => onHealthChanged

structure Character (ι σ : Type) where
  health : Int := 100
  onHealthChanged : State ι σ
  deathEvent : State ι σ

/-- What a program does with a character. Only the character broadcasts its death. -/
inductive CharacterOp (ι σ : Type) where
  | takeDamage (damage : Nat)
  | subscribe (topic : Topic) (a : Action ι σ Empty)
  | broadcast (oldHealth newHealth : Int)

/-- The body of a listener. -/
inductive Reaction (ι σ : Type) where
  | done
  | act (op : CharacterOp ι σ) (k : Reply → Reaction ι σ)
  | get (k : σ → Reaction ι σ)
  | set (captured : σ) (k : Reaction ι σ)

/-- What the calls of `TakeDamage` do, in order: one begins, one broadcasts the death,
one returns. -/
inductive DamageAct where
  | takeDamage (damage : Nat)
  | dies
  | returns
deriving DecidableEq, Repr

/-- The arguments of a broadcast: the old and the new health, or none. -/
abbrev BroadcastArgs := Option (Int × Int)

/-- A call that listeners may be nested in. -/
inductive CharacterCall where
  | takeDamage (damage : Nat)
  | broadcast (topic : Topic) (args : BroadcastArgs)

namespace Character

variable {ι σ : Type}

/-- A new character, with the captured states that its listeners will have. -/
def new (cells : Nat → σ) : Character ι σ where
  onHealthChanged := .new cells
  deathEvent := .new cells

def delegate (c : Character ι σ) : Topic → State ι σ
  | .onHealthChanged => c.onHealthChanged
  | .death => c.deathEvent

def modify (c : Character ι σ) (topic : Topic) (f : State ι σ → State ι σ) : Character ι σ :=
  match topic with
  | .onHealthChanged => { c with onHealthChanged := f c.onHealthChanged }
  | .death => { c with deathEvent := f c.deathEvent }

/-- The counter of the handles and the owners are shared by the delegates. -/
def modifyBoth (c : Character ι σ) (f : State ι σ → State ι σ) : Character ι σ :=
  (c.modify .onHealthChanged f).modify .death f

def subscribe (c : Character ι σ) (topic : Topic) :
    Action ι σ Empty → Reply × Character ι σ
  | .add d captured =>
      (.handle (c.delegate topic).nextHandle,
        (c.modify topic (·.add d captured)).modify topic.other (·.createElsewhere))
  | .remove h =>
      (.found ((c.delegate topic).remove h).1, c.modify topic fun st => (st.remove h).2)
  | .removeAll object =>
      (.count ((c.delegate topic).removeAll object).1,
        c.modify topic fun st => (st.removeAll object).2)
  | .clear => (.nothing, c.modify topic (·.clear))
  | .release o => (.nothing, c.modifyBoth (·.release o))
  | .broadcast arg => arg.elim

section Calls

variable (nested : CharacterCall → Character ι σ → Option (Character ι σ × List DamageAct))

/-- An operation, given what nested calls do. -/
def perform (c : Character ι σ) :
    CharacterOp ι σ → Option (Reply × Character ι σ × List DamageAct)
  | .takeDamage damage => (nested (.takeDamage damage) c).map fun r => (.nothing, r)
  | .subscribe topic a => some ((c.subscribe topic a).1, (c.subscribe topic a).2, [])
  | .broadcast oldHealth newHealth =>
      (nested (.broadcast .onHealthChanged (some (oldHealth, newHealth))) c).map fun r =>
        (.nothing, r)

/-- Run the body of a listener in its slot. -/
def runReaction (topic : Topic) (self : Slot ι) :
    Reaction ι σ → Character ι σ → Option (Character ι σ × List DamageAct)
  | .done, c => some (c, [])
  | .act op k, c => do
      let (reply, next, first) ← c.perform nested op
      let (last, rest) ← runReaction topic self (k reply) next
      some (last, first ++ rest)
  | .get k, c => runReaction topic self (k ((c.delegate topic).cells self.cell)) c
  | .set captured k, c =>
      runReaction topic self k (c.modify topic (·.write self.cell captured))

/-- `invocation_(args...)`, which locks a weak owner. -/
def invoke (topic : Topic) (slot : Slot ι) (body : Reaction ι σ) (c : Character ι σ) :
    Option (Character ι σ × List DamageAct) := do
  let (last, acts) ← runReaction nested topic slot body (c.modifyBoth (·.enter slot))
  some (last.modifyBoth (·.leave), acts)

variable (code : ι → BroadcastArgs → Reaction ι σ)

/-- The body of the loop in `Broadcast`. -/
def turn (topic : Topic) (args : BroadcastArgs) (slot : Slot ι) (c : Character ι σ) :
    Option (Character ι σ × List DamageAct) :=
  if (c.delegate topic).contains slot.handle then
    match slot.delegate.invocation with
    | some target =>
        if (c.delegate topic).isBound slot.delegate then
          c.invoke nested topic slot (code target args)
        else some (c, [])
    | none => some (c, [])
  else some (c, [])

/-- The loop of `Broadcast` over its snapshot. -/
def visitAll (topic : Topic) (args : BroadcastArgs) :
    List (Slot ι) → Character ι σ → Option (Character ι σ × List DamageAct)
  | [], c => some (c, [])
  | slot :: snapshot, c => do
      let (after, first) ← c.turn nested code topic args slot
      let (last, rest) ← visitAll topic args snapshot after
      some (last, first ++ rest)

def broadcast (topic : Topic) (args : BroadcastArgs) (c : Character ι σ) :
    Option (Character ι σ × List DamageAct) := do
  let (last, acts) ← visitAll nested code topic args (c.delegate topic).slots c
  some (last.modify topic (·.purge), acts)

def takeDamage (damage : Nat) (c : Character ι σ) :
    Option (Character ι σ × List DamageAct) := do
  let oldHealth := c.health
  let health := max 0 (oldHealth - damage)
  let (changed, first) ←
    broadcast nested code .onHealthChanged (some (oldHealth, health)) { c with health }
  if 0 < oldHealth ∧ changed.health ≤ 0 then
    let (last, rest) ← broadcast nested code .death none changed
    some (last, .takeDamage damage :: (first ++ .dies :: (rest ++ [.returns])))
  else some (changed, .takeDamage damage :: (first ++ [.returns]))

end Calls

/-- A call, with listeners that nest calls less than `depth` deep. -/
def call (code : ι → BroadcastArgs → Reaction ι σ) :
    (depth : Nat) → CharacterCall → Character ι σ → Option (Character ι σ × List DamageAct)
  | 0, _, _ => none
  | depth + 1, .takeDamage damage, c => c.takeDamage (call code depth) code damage
  | depth + 1, .broadcast topic args, c => c.broadcast (call code depth) code topic args

/-- The program's own operations, one after another. -/
def play (code : ι → BroadcastArgs → Reaction ι σ) (depth : Nat) :
    List (CharacterOp ι σ) → Character ι σ → Option (Character ι σ × List DamageAct)
  | [], c => some (c, [])
  | op :: ops, c => do
      let (_, next, first) ← c.perform (call code depth) op
      let (last, rest) ← play code depth ops next
      some (last, first ++ rest)

end Character

end CppWorkspace.Delegates
