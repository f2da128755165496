import CppWorkspace.Delegates.Handles

/-!
What `slots_` lists: the additions that nothing has taken out since, whatever the
program did in between.
-/

namespace CppWorkspace.Delegates

open Lib System

variable {ι σ α : Type}

/-- The addition that an entry makes. -/
def Entry.addition : Entry ι → List (Addition ι)
  | .added h d => [⟨h, d⟩]
  | _ => []

theorem survivors_snoc (history : List (Entry ι)) (e : Entry ι) :
    survivors (history ++ [e]) =
      (survivors history).filter (fun a => !e.takesOut a) ++ e.addition := by
  induction history with
  | nil => cases e <;> rfl
  | cons first rest ih =>
      cases first with
      | added h d =>
          have hany : (rest ++ [e]).any (Entry.takesOut ⟨h, d⟩) =
              (rest.any (Entry.takesOut ⟨h, d⟩) || e.takesOut ⟨h, d⟩) := by
            rw [List.any_append, List.any_cons, List.any_nil, Bool.or_false]
          rw [List.cons_append, survivors, survivors, hany, ih]
          cases rest.any (Entry.takesOut ⟨h, d⟩) with
          | true => rfl
          | false => cases htakes : e.takesOut ⟨h, d⟩ <;> simp [htakes]
      | removed h => exact ih
      | removedAll object gone => exact ih
      | cleared => exact ih
      | broadcast gone => exact ih
      | destroyed o => exact ih
      | createdElsewhere => exact ih

/-- The slots are the additions that survive, their handles are counted from 1, and no
listener is running. -/
structure Books (s : Session ι σ) : Prop where
  slots : s.delegate.slots.map Slot.addition = survivors s.history
  counted : ∀ slot ∈ s.delegate.slots, 0 < slot.handle
  idle : s.delegate.running = []

section Steps

variable {code : ι → α → Listener ι σ α} {s s' : Session ι σ}

/-- Outside the listeners the owners that are alive are those that were not destroyed. -/
theorem State.isBound_idle {st : State ι σ} (hidle : st.running = []) (d : Delegate ι) :
    st.isBound d = d.live st.released := by
  have halive : st.alive = fun o => !st.released.contains o := by
    funext o
    rw [State.alive, hidle]
    exact Bool.or_false _
  unfold Delegate.live
  rw [← halive]
  rfl

theorem filter_additions (slots : List (Slot ι)) (p : Addition ι → Bool) :
    (slots.filter fun slot => p slot.addition).map Slot.addition =
      (slots.map Slot.addition).filter p :=
  List.filter_map.symm

/-- A step that only drops slots. -/
theorem Books.drops (h : Books s) {delegate : State ι σ} {e : Entry ι} (hnone : e.addition = [])
    (hidle : delegate.running = [])
    (hslots : delegate.slots = s.delegate.slots.filter fun slot => !e.takesOut slot.addition) :
    Books ⟨delegate, s.history ++ [e]⟩ where
  slots := by
    rw [survivors_snoc, hnone, List.append_nil, ← h.slots, ← filter_additions]
    exact congrArg _ hslots
  counted slot hslot := by
    have hslot' : slot ∈ delegate.slots := hslot
    rw [hslots] at hslot'
    exact h.counted slot (List.mem_filter.mp hslot').1
  idle := hidle

/-- A step that leaves the slots. -/
theorem Books.leaves (h : Books s) {delegate : State ι σ} {e : Entry ι} (hnone : e.addition = [])
    (htakes : ∀ a, e.takesOut a = false) (hidle : delegate.running = [])
    (hslots : delegate.slots = s.delegate.slots) : Books ⟨delegate, s.history ++ [e]⟩ := by
  refine h.drops hnone hidle (hslots.trans ?_)
  exact (List.filter_eq_self.mpr fun slot _ => by rw [htakes]; rfl).symm

/-- A broadcast to listeners that leave the delegate alone. -/
theorem step_broadcast (hquiet : ∀ target arg, (code target arg).Quiet) {arg : α}
    (hstep : s.step code (.broadcast arg) = some s') :
    ∃ cells, s' = ⟨(s.delegate.withCells cells).purge,
      s.history ++ [.broadcast s.delegate.released]⟩ := by
  obtain ⟨r, cells, hreturns, hstate, -⟩ := broadcast_quiet hquiet 0 arg s.delegate
  have hstep' : Option.map (fun r => (⟨r.state, s.history ++ [.broadcast s.delegate.released]⟩ :
      Session ι σ)) (s.delegate.broadcast code 1 arg) = some s' := hstep
  rw [hreturns] at hstep'
  cases hstep'
  exact ⟨cells, congrArg (fun delegate => (⟨delegate, _⟩ : Session ι σ)) hstate⟩

theorem Books.step (h : Books s) (hquiet : ∀ target arg, (code target arg).Quiet)
    (hfirst : 0 < s.delegate.nextHandle) (hcount : s.delegate.nextHandle ≤ 2 ^ 64)
    {op : Operation ι σ α} (hstep : s.step code op = some s') : Books s' := by
  cases op with
  | add d captured =>
      cases hstep
      refine ⟨?_, fun slot hslot => ?_, h.idle⟩
      · have hkeep : (survivors s.history).filter
            (fun a => !(Entry.added (.create s.delegate.nextHandle) d).takesOut a) =
              survivors s.history :=
          List.filter_eq_self.mpr fun a _ => rfl
        rw [survivors_snoc, hkeep, ← h.slots]
        exact List.map_append
      · rcases List.mem_append.mp hslot with hold | hnew
        · exact h.counted slot hold
        · rw [List.mem_singleton.mp hnew]
          exact hfirst
  | remove handle =>
      cases hstep
      refine h.drops rfl ?_ (State.removeHandle_slots hcount handle)
      unfold State.removeHandle
      split
      · exact h.idle
      · exact h.idle
  | removeAll object =>
      cases hstep
      refine h.drops rfl h.idle (List.filter_congr fun slot _ => ?_)
      rw [State.isBoundToObject, State.isBound_idle h.idle]
      rfl
  | clear =>
      cases hstep
      refine h.drops rfl h.idle ?_
      exact (List.filter_eq_nil_iff.mpr fun slot _ => by simp [Entry.takesOut]).symm
  | broadcast arg =>
      obtain ⟨cells, rfl⟩ := step_broadcast hquiet hstep
      refine h.drops rfl ?_ ?_
      · exact h.idle
      · refine List.filter_congr fun slot _ => ?_
        have hlive : (s.delegate.withCells cells).isBound slot.delegate =
            slot.delegate.live s.delegate.released := State.isBound_idle h.idle slot.delegate
        rw [hlive]
        exact (Bool.not_not _).symm
  | release o =>
      cases hstep
      exact h.leaves rfl (fun _ => rfl) h.idle rfl
  | createElsewhere =>
      cases hstep
      exact h.leaves rfl (fun _ => rfl) h.idle rfl

end Steps

end CppWorkspace.Delegates
