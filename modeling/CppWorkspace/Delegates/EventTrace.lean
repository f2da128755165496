import CppWorkspace.Delegates.Broadcast

/-!
The events of a run, one after the other, as steps of a transition system: what
each does to the slots, the captured states and the running invocations. The
invariants of reentrant broadcasts are inductions over such runs, whatever call
an event belongs to.
-/

namespace CppWorkspace.Delegates

open Lib System

variable {ι σ : Type}

/-- What an event does. -/
def Event.Step (st : State ι σ) : Event ι σ → State ι σ → Prop
  | .added slot captured, st' =>
      slot = st.newSlot slot.delegate ∧ st' = st.add slot.delegate captured
  | .removed h, st' => st' = (st.remove h).2
  | .removedAll object, st' => st' = (st.removeAll object).2
  | .cleared, st' => st' = st.clear
  | .released o, st' => st' = st.release o
  | .began slot captured, st' =>
      slot ∈ st.slots ∧ st.isBound slot.delegate ∧ captured = st.cells slot.cell ∧
        st' = st.enter slot
  | .wrote slot captured, st' =>
      st.running.head? = some slot ∧ st' = st.write slot.cell captured
  | .finished slot captured, st' =>
      st.running.head? = some slot ∧ captured = st.cells slot.cell ∧ st' = st.leave
  | .purged, st' => st' = st.purge

/-- The runs start where no listener is running. -/
def eventSystem : System (State ι σ) (Event ι σ) where
  init st := st.running = []
  step := Event.Step

/-- What a later state has in common with an earlier one: new slots are newer
than all that existed, and an owner that was gone is gone. -/
structure Evolves (st st' : State ι σ) : Prop where
  nextHandle : st.nextHandle ≤ st'.nextHandle
  nextCell : st.nextCell ≤ st'.nextCell
  slots : ∀ t ∈ st'.slots, t ∈ st.slots ∨ st.nextHandle ≤ t.handle ∧ st.nextCell ≤ t.cell
  alive : ∀ o, st'.alive o = true → st.alive o = true

namespace Evolves

variable {st st' st'' : State ι σ}

theorem refl (st : State ι σ) : Evolves st st := ⟨le_rfl, le_rfl, fun _ => Or.inl, fun _ => id⟩

theorem trans (h : Evolves st st') (h' : Evolves st' st'') : Evolves st st'' where
  nextHandle := h.nextHandle.trans h'.nextHandle
  nextCell := h.nextCell.trans h'.nextCell
  slots t ht := by
    rcases h'.slots t ht with hold | ⟨hhandle, hcell⟩
    · exact h.slots t hold
    · exact Or.inr ⟨h.nextHandle.trans hhandle, h.nextCell.trans hcell⟩
  alive o ho := h.alive o (h'.alive o ho)

theorem keep (st : State ι σ) (slots : List (Slot ι)) (hs : slots.Sublist st.slots) :
    Evolves st (st.keep slots hs) :=
  ⟨le_rfl, le_rfl, fun _ ht => Or.inl (hs.subset ht), fun _ => id⟩

end Evolves

/-- A delegate that is bound later was bound before. -/
theorem Evolves.isBound {st st' : State ι σ} (h : Evolves st st') {d : Delegate ι}
    (hbound : st'.isBound d = true) : st.isBound d = true := by
  unfold State.isBound at hbound ⊢
  cases hweak : d.weak with
  | none => simpa [hweak] using hbound
  | some o =>
    simp only [hweak, Option.any_some, Bool.and_eq_true, Bool.or_eq_true] at hbound ⊢
    exact ⟨hbound.1, hbound.2.imp id (h.alive o)⟩

/-- An event on the list of additions. Broadcasts, clean-ups included, leave it
alone. -/
def replayStep (slots : List (Slot ι)) : Event ι σ → List (Slot ι)
  | .added slot _ => slots ++ [slot]
  | .removed h => slots.filter (·.handle != h)
  | .removedAll object => slots.filter fun s => !s.delegate.targets object
  | .cleared => []
  | .released _ | .began .. | .wrote .. | .finished .. | .purged => slots

/-- The added and not removed slots, in order of addition. -/
def replay (events : List (Event ι σ)) (slots : List (Slot ι)) : List (Slot ι) :=
  events.foldl replayStep slots

/-- The slots that are bound in a state. -/
def State.boundOf (st : State ι σ) (slots : List (Slot ι)) : List (Slot ι) :=
  slots.filter fun s => st.isBound s.delegate

theorem Evolves.boundOf {st st' : State ι σ} (h : Evolves st st') (slots : List (Slot ι)) :
    st'.boundOf (st.boundOf slots) = st'.boundOf slots := by
  unfold State.boundOf
  rw [List.filter_filter]
  refine List.filter_congr fun s _ => ?_
  cases hbound : st'.isBound s.delegate with
  | false => rfl
  | true => simp [h.isBound hbound]

/-- `Remove` takes out the one slot with the handle. -/
theorem State.remove_slots (st : State ι σ) (h : Nat) :
    (st.remove h).2.slots = st.slots.filter (·.handle != h) := by
  have hkeep (s : Slot ι) (l : List (Slot ι)) (hsorted : (s :: l).Pairwise fun s t =>
      s.handle < t.handle ∧ s.cell < t.cell) : l.filter (·.handle != s.handle) = l := by
    refine List.filter_eq_self.mpr fun t ht => ?_
    have := ((List.pairwise_cons.mp hsorted).1 t ht).1
    simp only [bne_iff_ne, ne_eq]
    omega
  have herase (l : List (Slot ι)) (hsorted : l.Pairwise fun s t =>
      s.handle < t.handle ∧ s.cell < t.cell) :
      l.eraseP (·.handle == h) = l.filter (·.handle != h) := by
    induction l with
    | nil => rfl
    | cons s l ih =>
      by_cases hs : s.handle = h
      · subst hs
        simp [hkeep s l hsorted]
      · simp [hs, ih (List.pairwise_cons.mp hsorted).2]
  unfold State.remove
  split
  · exact herase st.slots st.sorted
  · next hnone =>
    refine (List.filter_eq_self.mpr fun s hs => ?_).symm
    simp only [List.any_eq_true, not_exists, not_and] at hnone
    simpa using hnone s hs

end CppWorkspace.Delegates
