import CppWorkspace.Delegates.EventTrace

/-!
The state captured by a callable. Only an invocation of a slot writes the cell
of that slot, so between two invocations it holds what the first one left,
however the slots have changed.
-/

namespace CppWorkspace.Delegates

open Lib System

variable {ι σ : Type}

/-- The invocations that have not returned. -/
def executingStep (running : List (Slot ι)) : Event ι σ → List (Slot ι)
  | .began slot _ => slot :: running
  | .finished .. => running.tail
  | _ => running

/-- The captured state that an event leaves in the slot with the handle. -/
def leftStep (handle : Nat) (captured : σ) : Event ι σ → σ
  | .added slot captured' | .finished slot captured' =>
      if slot.handle = handle then captured' else captured
  | _ => captured

/-- What the last invocation of a slot left, or the state it was added with. -/
def left (handle : Nat) (events : List (Event ι σ)) (captured : σ) : σ :=
  events.foldl (leftStep handle) captured

theorem Event.Step.running {st st' : State ι σ} {e : Event ι σ} (h : e.Step st st') :
    st'.running = executingStep st.running e := by
  cases e with
  | added slot captured => obtain ⟨-, rfl⟩ := h; rfl
  | removed handle =>
    cases h
    unfold State.remove
    split <;> rfl
  | removedAll object => cases h; rfl
  | cleared => cases h; rfl
  | released o => cases h; rfl
  | began slot captured => obtain ⟨-, -, -, rfl⟩ := h; rfl
  | wrote slot captured => obtain ⟨-, rfl⟩ := h; rfl
  | finished slot captured => obtain ⟨-, -, rfl⟩ := h; rfl
  | purged => cases h; rfl

/-- The slots of the running invocations are told apart from the slots of the
delegate by their handles and by their cells alike. -/
structure Apart (st : State ι σ) : Prop where
  fresh : ∀ r ∈ st.running, r.handle < st.nextHandle ∧ r.cell < st.nextCell
  iff : ∀ r ∈ st.running, ∀ t ∈ st.slots, r.handle = t.handle ↔ r.cell = t.cell

theorem Apart.keep {st : State ι σ} (h : Apart st) (slots : List (Slot ι))
    (hs : slots.Sublist st.slots) : Apart (st.keep slots hs) :=
  ⟨h.fresh, fun r hr t ht => h.iff r hr t (hs.subset ht)⟩

theorem Apart.remove {st : State ι σ} (h : Apart st) (handle : Nat) :
    Apart (st.remove handle).2 := by
  unfold State.remove
  split
  · exact h.keep _ (List.eraseP_sublist ..)
  · exact h

theorem Apart.step {st st' : State ι σ} {e : Event ι σ} (h : Apart st) (hstep : e.Step st st') :
    Apart st' := by
  cases e with
  | added slot captured =>
    obtain ⟨-, rfl⟩ := hstep
    constructor
    · intro r hr
      exact (h.fresh r hr).imp Nat.lt_succ_of_lt Nat.lt_succ_of_lt
    · intro r hr t ht
      rcases List.mem_append.mp ht with hold | hnew
      · exact h.iff r hr t hold
      · rw [List.mem_singleton.mp hnew]
        obtain ⟨hhandle, hcell⟩ := h.fresh r hr
        simp only [State.newSlot]
        omega
  | removed handle => cases hstep; exact h.remove handle
  | removedAll object => cases hstep; exact h.keep _ (List.filter_sublist ..)
  | cleared => cases hstep; exact h.keep _ _
  | released o => cases hstep; exact ⟨h.fresh, h.iff⟩
  | began slot captured =>
    obtain ⟨hslot, -, -, rfl⟩ := hstep
    constructor
    · intro r hr
      rcases List.mem_cons.mp hr with rfl | hold
      · exact st.fresh r hslot
      · exact h.fresh r hold
    · intro r hr t ht
      rcases List.mem_cons.mp hr with rfl | hold
      · constructor
        · intro heq
          rw [st.slot_unique hslot ht (Or.inl heq)]
        · intro heq
          rw [st.slot_unique hslot ht (Or.inr heq)]
      · exact h.iff r hold t ht
  | wrote slot captured => obtain ⟨-, rfl⟩ := hstep; exact ⟨h.fresh, h.iff⟩
  | finished slot captured =>
    obtain ⟨-, -, rfl⟩ := hstep
    exact ⟨fun r hr => h.fresh r (List.mem_of_mem_tail hr),
      fun r hr => h.iff r (List.mem_of_mem_tail hr)⟩
  | purged => cases hstep; exact h.keep _ (List.filter_sublist ..)

/-- A slot that is not running holds the given captured states. -/
def Holds (st : State ι σ) (captured : Slot ι → σ) : Prop :=
  ∀ t ∈ st.slots, (∀ r ∈ st.running, r.handle ≠ t.handle) → st.cells t.cell = captured t

theorem Holds.keep {st : State ι σ} {captured : Slot ι → σ} (h : Holds st captured)
    (slots : List (Slot ι)) (hs : slots.Sublist st.slots) : Holds (st.keep slots hs) captured :=
  fun t ht => h t (hs.subset ht)

/-- One event leaves in every slot what `leftStep` says. -/
theorem Holds.step {st st' : State ι σ} {e : Event ι σ} {captured : Slot ι → σ}
    (h : Holds st captured) (hapart : Apart st) (hstep : e.Step st st') :
    Holds st' fun t => leftStep t.handle (captured t) e := by
  cases e with
  | added slot captured' =>
    obtain ⟨hslot, rfl⟩ := hstep
    have hhandle : slot.handle = st.nextHandle := by rw [hslot]; rfl
    intro t ht hidle
    rcases List.mem_append.mp ht with hold | hnew
    · obtain ⟨hlt, hcell⟩ := st.fresh t hold
      simp only [leftStep, State.add, hhandle, if_neg hlt.ne', Function.update_of_ne hcell.ne]
      exact h t hold hidle
    · rw [List.mem_singleton.mp hnew]
      simp [leftStep, State.add, State.newSlot, hhandle]
  | removed handle =>
    cases hstep
    unfold State.remove
    split
    · exact h.keep _ (List.eraseP_sublist ..)
    · exact h
  | removedAll object => cases hstep; exact h.keep _ (List.filter_sublist ..)
  | cleared => cases hstep; exact h.keep _ _
  | released o => cases hstep; exact h
  | began slot captured' =>
    obtain ⟨-, -, -, rfl⟩ := hstep
    exact fun t ht hidle => h t ht fun r hr => hidle r (List.mem_cons_of_mem _ hr)
  | wrote slot captured' =>
    obtain ⟨hhead, rfl⟩ := hstep
    have hrunning : slot ∈ st.running := List.mem_of_mem_head? hhead
    intro t ht hidle
    have hcell : t.cell ≠ slot.cell := fun heq =>
      hidle slot hrunning ((hapart.iff slot hrunning t ht).mpr heq.symm)
    simp only [State.write, leftStep, Function.update_of_ne hcell]
    exact h t ht hidle
  | finished slot captured' =>
    obtain ⟨hhead, rfl, rfl⟩ := hstep
    have hrunning : slot ∈ st.running := List.mem_of_mem_head? hhead
    intro t ht hidle
    simp only [State.leave, leftStep]
    split
    · next heq => rw [(hapart.iff slot hrunning t ht).mp heq]
    · next hne =>
      refine h t ht fun r hr => ?_
      obtain ⟨rest, hrest⟩ := List.head?_eq_some_iff.mp hhead
      rw [hrest] at hr
      rcases List.mem_cons.mp hr with rfl | htail
      · exact hne
      · exact hidle r (by simpa [State.leave, hrest] using htail)
  | purged => cases hstep; exact h.keep _ (List.filter_sublist ..)

end CppWorkspace.Delegates
