import CppWorkspace.Delegates.Reentrancy
import CppWorkspace.Delegates.Rebinding

/-!
The handles of `delegate.hpp` are numbers of 64 bits from one counter, which all
multicast delegates share; and the operations of one multicast delegate whose
listeners leave it alone, with an account of what was done to it.
-/

namespace CppWorkspace.Delegates

open Lib System

variable {ι σ α : Type}

/-- `DelegateHandle`, with its `id_`. -/
structure DelegateHandle where
  id : UInt64 := 0
deriving DecidableEq, Repr

namespace DelegateHandle

/-- What `Create` returns when the counter has been counted up to `n`. -/
def create (n : Nat) : DelegateHandle := ⟨UInt64.ofNat n⟩

end DelegateHandle

/-- The `handle` of a slot. -/
def Slot.delegateHandle (s : Slot ι) : DelegateHandle := .create s.handle

namespace State

/-- `Remove`, for any handle that the program has. -/
def removeHandle (st : State ι σ) (h : DelegateHandle) : Bool × State ι σ :=
  if st.slots.any (·.delegateHandle == h) then
    (true, st.keep (st.slots.eraseP (·.delegateHandle == h)) (List.eraseP_sublist ..))
  else (false, st)

/-- Another multicast delegate makes a handle. -/
def createElsewhere (st : State ι σ) : State ι σ :=
  { st with
    nextHandle := st.nextHandle + 1
    fresh := fun s hs => (st.fresh s hs).imp Nat.lt_succ_of_lt id }

/-- `Num`. -/
def num (st : State ι σ) : Nat := st.slots.countP fun s => st.isBound s.delegate

end State

/-- A listener that uses no operation of the delegate and releases no owner. -/
inductive Listener.Quiet : Listener ι σ α → Prop
  | done : Quiet .done
  | get {k : σ → Listener ι σ α} (h : ∀ captured, Quiet (k captured)) : Quiet (.get k)
  | set {captured : σ} {k : Listener ι σ α} (h : Quiet k) : Quiet (.set captured k)

/-- The slots whose targets are called, in order. -/
def called (events : List (Event ι σ)) : List (Slot ι) :=
  events.filterMap fun
    | .began slot _ => some slot
    | _ => none

/-- What a program does from outside the listeners. -/
inductive Operation (ι σ α : Type) where
  | add (d : Delegate ι) (captured : σ)
  | remove (h : DelegateHandle)
  | removeAll (object : Pointer)
  | clear
  | broadcast (arg : α)
  | release (o : Owner)
  | createElsewhere

/-- Whether a handle is made. -/
def Operation.creates : Operation ι σ α → Bool
  | .add .. | .createElsewhere => true
  | _ => false

/-- An operation in the account: with the handle that it returned, and the owners that
were destroyed before it, where it matters. -/
inductive Entry (ι : Type) where
  | added (h : DelegateHandle) (d : Delegate ι)
  | removed (h : DelegateHandle)
  | removedAll (object : Pointer) (destroyed : List Owner)
  | cleared
  | broadcast (destroyed : List Owner)
  | destroyed (o : Owner)
  | createdElsewhere
deriving DecidableEq, Repr

/-- A multicast delegate, and what has been done to it. -/
structure Session (ι σ : Type) where
  delegate : State ι σ
  history : List (Entry ι) := []

namespace Session

def step (code : ι → α → Listener ι σ α) (s : Session ι σ) :
    Operation ι σ α → Option (Session ι σ)
  | .add d captured =>
      some ⟨s.delegate.add d captured,
        s.history ++ [.added (.create s.delegate.nextHandle) d]⟩
  | .remove h => some ⟨(s.delegate.removeHandle h).2, s.history ++ [.removed h]⟩
  | .removeAll object =>
      some ⟨(s.delegate.removeAll object).2,
        s.history ++ [.removedAll object s.delegate.released]⟩
  | .clear => some ⟨s.delegate.clear, s.history ++ [.cleared]⟩
  | .broadcast arg =>
      -- no listener broadcasts, so that one level is enough
      (s.delegate.broadcast code 1 arg).map fun r =>
        ⟨r.state, s.history ++ [.broadcast s.delegate.released]⟩
  | .release o => some ⟨s.delegate.release o, s.history ++ [.destroyed o]⟩
  | .createElsewhere =>
      some ⟨s.delegate.createElsewhere, s.history ++ [.createdElsewhere]⟩

/-- A new multicast delegate, with the captured states that callables will have. -/
def start (cells : Nat → σ) : Session ι σ := ⟨.new cells, []⟩

end Session

/-- An addition: the handle that `Add` returned, and the delegate. -/
structure Addition (ι : Type) where
  handle : DelegateHandle
  delegate : Delegate ι
deriving DecidableEq, Repr

def Slot.addition (s : Slot ι) : Addition ι := ⟨s.delegateHandle, s.delegate⟩

/-- The binding still counts when these owners are destroyed. -/
def Delegate.live (destroyed : List Owner) (d : Delegate ι) : Bool :=
  d.isBound fun o => !destroyed.contains o

/-- The entry removes, clears or purges an addition made before it. -/
def Entry.takesOut (a : Addition ι) : Entry ι → Bool
  | .removed h => a.handle == h
  | .removedAll object gone => a.delegate.targets object && a.delegate.live gone
  | .cleared => true
  | .broadcast gone => !a.delegate.live gone
  | .added .. | .destroyed _ | .createdElsewhere => false

/-- The additions that nothing after them takes out, in order. -/
def survivors : List (Entry ι) → List (Addition ι)
  | [] => []
  | .added h d :: rest =>
      if rest.any (Entry.takesOut ⟨h, d⟩) then survivors rest else ⟨h, d⟩ :: survivors rest
  | _ :: rest => survivors rest

section Quiet

/-- A delegate after listeners that leave it alone. -/
def State.withCells (st : State ι σ) (cells : Nat → σ) : State ι σ := { st with cells }

theorem called_append (first second : List (Event ι σ)) :
    called (first ++ second) = called first ++ called second :=
  List.filterMap_append

variable {code : ι → α → Listener ι σ α}

theorem Listener.Quiet.runs (broadcast : α → State ι σ → Option (Round ι σ))
    {body : Listener ι σ α} (h : body.Quiet) (self : Slot ι) (st : State ι σ) :
    ∃ cells events, State.runListener broadcast self body st = some (st.withCells cells, events) ∧
      called events = [] := by
  induction h generalizing st with
  | done => exact ⟨st.cells, [], rfl, rfl⟩
  | get _ ih => exact ih _ st
  | @set captured k _ ih =>
      obtain ⟨cells, events, hruns, hcalled⟩ := ih (st.write self.cell captured)
      refine ⟨cells, .wrote self captured :: events, ?_, hcalled⟩
      rw [State.runListener, hruns]
      rfl

/-- The turn of a slot that is there: its target is called when it is bound. -/
theorem turn_quiet (broadcast : α → State ι σ → Option (Round ι σ))
    (hquiet : ∀ target arg, (code target arg).Quiet) (arg : α) {slot : Slot ι} {st : State ι σ}
    (hslot : slot ∈ st.slots) :
    ∃ cells events, State.turn code broadcast arg slot st = some (st.withCells cells, events) ∧
      called events = if st.isBound slot.delegate then [slot] else [] := by
  have hcontains : st.contains slot.handle = true := (st.contains_iff _).mpr ⟨slot, hslot, rfl⟩
  cases hbound : st.isBound slot.delegate with
  | false =>
      refine ⟨st.cells, [], ?_, rfl⟩
      rw [State.turn, if_pos hcontains, State.executeIfBound]
      split
      · rw [if_neg (by simp [hbound])]
        rfl
      · rfl
  | true =>
      obtain ⟨target, htarget⟩ : ∃ target, slot.delegate.invocation = some target :=
        Option.isSome_iff_exists.mp (Bool.and_eq_true_iff.mp hbound).1
      obtain ⟨cells, events, hruns, hcalled⟩ :=
        (hquiet target arg).runs broadcast slot (st.enter slot)
      refine ⟨cells, .began slot (st.cells slot.cell) ::
        (events ++ [.finished slot (cells slot.cell)]), ?_, ?_⟩
      · rw [State.turn, if_pos hcontains, State.executeIfBound, htarget]
        simp only [hbound, if_true, State.invoke, hruns]
        rfl
      · rw [← List.singleton_append, called_append, called_append, hcalled]
        rfl

theorem visitAll_quiet (broadcast : α → State ι σ → Option (Round ι σ))
    (hquiet : ∀ target arg, (code target arg).Quiet) (arg : α) (snapshot : List (Slot ι))
    (st : State ι σ) (hsnapshot : ∀ slot ∈ snapshot, slot ∈ st.slots) :
    ∃ visits cells,
      State.visitAll code broadcast arg snapshot st = some (visits, st.withCells cells) ∧
      called (visits.flatMap (·.events)) = st.boundOf snapshot := by
  induction snapshot generalizing st with
  | nil => exact ⟨[], st.cells, rfl, rfl⟩
  | cons slot snapshot ih =>
      obtain ⟨cells, events, hturn, hcalled⟩ :=
        turn_quiet broadcast hquiet arg (hsnapshot slot List.mem_cons_self)
      obtain ⟨visits, last, hvisits, hrest⟩ :=
        ih (st.withCells cells) fun s hs => hsnapshot s (List.mem_cons_of_mem _ hs)
      refine ⟨⟨slot, st, events, st.withCells cells⟩ :: visits, last, ?_, ?_⟩
      · rw [State.visitAll, hturn]
        simp only [Option.bind_eq_bind, Option.bind_some, hvisits]
        rfl
      · rw [List.flatMap_cons, called_append, hcalled, hrest, State.boundOf, State.boundOf,
          List.filter_cons]
        split <;> rfl

/-- A broadcast to listeners that leave the delegate alone calls those that are bound,
in order, and keeps their slots. -/
theorem broadcast_quiet (hquiet : ∀ target arg, (code target arg).Quiet) (depth : Nat) (arg : α)
    (st : State ι σ) :
    ∃ r cells, State.broadcast code (depth + 1) arg st = some r ∧
      r.state = (st.withCells cells).purge ∧ called r.events = st.boundOf st.slots := by
  obtain ⟨visits, cells, hvisits, hcalled⟩ :=
    visitAll_quiet (State.broadcast code depth) hquiet arg st.slots st fun _ => id
  refine ⟨⟨visits, (st.withCells cells).purge⟩, cells, ?_, rfl, ?_⟩
  · rw [State.broadcast, hvisits]
    rfl
  · rw [Round.events, called_append, hcalled]
    exact List.append_nil _

end Quiet

section Handles

/-- Below 2^64 the handle tells the count. -/
theorem DelegateHandle.create_toNat {n : Nat} (hn : n < 2 ^ 64) : (create n).id.toNat = n := by
  rw [create, UInt64.toNat_ofNat']
  exact Nat.mod_eq_of_lt hn

theorem DelegateHandle.create_beq {n : Nat} (hn : n < 2 ^ 64) (h : DelegateHandle) :
    (create n == h) = (n == h.id.toNat) := by
  refine Bool.eq_iff_iff.mpr ?_
  rw [beq_iff_eq, beq_iff_eq]
  constructor
  · intro heq
    rw [← heq, create_toNat hn]
  · intro heq
    rw [heq]
    simp [create]

theorem State.delegateHandle_beq {st : State ι σ} (hcount : st.nextHandle ≤ 2 ^ 64)
    (h : DelegateHandle) {slot : Slot ι} (hslot : slot ∈ st.slots) :
    (slot.delegateHandle == h) = (slot.handle == h.id.toNat) :=
  DelegateHandle.create_beq ((st.fresh slot hslot).1.trans_le hcount) h

/-- While the counter has not come round, `Remove` goes by the count. -/
theorem State.removeHandle_eq {st : State ι σ} (hcount : st.nextHandle ≤ 2 ^ 64)
    (h : DelegateHandle) : st.removeHandle h = st.remove h.id.toNat := by
  have hany : st.slots.any (·.delegateHandle == h) = st.slots.any (·.handle == h.id.toNat) := by
    refine Bool.eq_iff_iff.mpr ?_
    rw [List.any_eq_true, List.any_eq_true]
    exact exists_congr fun slot => and_congr_right fun hslot => by
      rw [st.delegateHandle_beq hcount h hslot]
  have herase : ∀ slots : List (Slot ι), (∀ slot ∈ slots, slot ∈ st.slots) →
      slots.eraseP (·.delegateHandle == h) = slots.eraseP (·.handle == h.id.toNat) := by
    intro slots hslots
    induction slots with
    | nil => rfl
    | cons slot slots ih =>
        rw [List.eraseP_cons, List.eraseP_cons,
          st.delegateHandle_beq hcount h (hslots slot List.mem_cons_self),
          ih fun s hs => hslots s (List.mem_cons_of_mem _ hs)]
  unfold State.removeHandle State.remove
  rw [hany]
  simp only [herase st.slots fun _ => id]

/-- `Remove` takes out the slots with the handle. -/
theorem State.removeHandle_slots {st : State ι σ} (hcount : st.nextHandle ≤ 2 ^ 64)
    (h : DelegateHandle) :
    (st.removeHandle h).2.slots = st.slots.filter fun slot => !(slot.delegateHandle == h) := by
  rw [State.removeHandle_eq hcount, State.remove_slots]
  refine List.filter_congr fun slot hslot => ?_
  rw [st.delegateHandle_beq hcount h hslot]
  rfl

end Handles

end CppWorkspace.Delegates
