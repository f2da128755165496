import CppWorkspace.Coro.DirectStyle

/-!
The calls of a direct run. `Evaluates` has one rule for each statement and
outcome, and is what proofs about `direct` go by.
-/

namespace CppWorkspace.Coro

variable {κ V E μ : Type}

inductive Evaluates (code : κ → Stmt κ V E μ) :
    ℕ → κ → Heap κ μ → Except E V → Heap κ μ → List Call → Prop
  | create {self : ℕ} {locals : κ} {heap heap' : Heap κ μ} {outcome : Except E V}
      {calls : List Call} {body : κ} {next : ℕ → κ} (hcode : code locals = .create body next)
      (hrest : Evaluates code self (next heap.next) (heap.create body) outcome heap' calls) :
      Evaluates code self locals heap outcome heap' calls
  | get {self : ℕ} {locals : κ} {heap heap' : Heap κ μ} {outcome : Except E V}
      {calls : List Call} {next : μ → κ} (hcode : code locals = .get next)
      (hrest : Evaluates code self (next heap.memory) heap outcome heap' calls) :
      Evaluates code self locals heap outcome heap' calls
  | set {self : ℕ} {locals : κ} {heap heap' : Heap κ μ} {outcome : Except E V}
      {calls : List Call} {memory : μ} {next : κ} (hcode : code locals = .set memory next)
      (hrest : Evaluates code self next { heap with memory := memory } outcome heap' calls) :
      Evaluates code self locals heap outcome heap' calls
  | coReturn {self : ℕ} {locals : κ} {heap : Heap κ μ} {v : V}
      (hcode : code locals = .coReturn v) : Evaluates code self locals heap (.ok v) heap []
  | throw {self : ℕ} {locals : κ} {heap : Heap κ μ} {e : E}
      (hcode : code locals = .throw e) : Evaluates code self locals heap (.error e) heap []
  | escapes {self : ℕ} {locals : κ} {heap heap' : Heap κ μ} {t : ℕ} {next : V → κ}
      {handler : Option (E → κ)} {body : κ} {outcome : Except E V} {calls : List Call} {e : E}
      (hcode : code locals = .await t next handler) (hthunk : heap.thunks t = some body)
      (hchild : Evaluates code t body (heap.take t) outcome heap' calls)
      (hafter : afterAwait next handler outcome = .inr e) :
      Evaluates code self locals heap (.error e) heap'
        (.call self t :: calls ++ [.ret t self])
  | goesOn {self : ℕ} {locals locals' : κ} {heap heap' heap'' : Heap κ μ} {t : ℕ} {next : V → κ}
      {handler : Option (E → κ)} {body : κ} {outcome last : Except E V} {calls more : List Call}
      (hcode : code locals = .await t next handler) (hthunk : heap.thunks t = some body)
      (hchild : Evaluates code t body (heap.take t) outcome heap' calls)
      (hafter : afterAwait next handler outcome = .inl locals')
      (hrest : Evaluates code self locals' heap' last heap'' more) :
      Evaluates code self locals heap last heap'' (.call self t :: calls ++ .ret t self :: more)

theorem direct_evaluates {code : κ → Stmt κ V E μ} {fuel self : ℕ} {locals : κ}
    {heap heap' : Heap κ μ} {outcome : Except E V} {calls : List Call}
    (h : direct code fuel self locals heap = some (outcome, heap', calls)) :
    Evaluates code self locals heap outcome heap' calls := by
  induction fuel generalizing self locals heap outcome heap' calls with
  | zero => cases h
  | succ fuel ih =>
      rw [direct] at h
      cases hcode : code locals with
      | create body next =>
          simp only [hcode] at h
          exact .create hcode (ih h)
      | get next =>
          simp only [hcode] at h
          exact .get hcode (ih h)
      | set memory next =>
          simp only [hcode] at h
          exact .set hcode (ih h)
      | coReturn v =>
          simp only [hcode] at h
          cases h
          exact .coReturn hcode
      | throw e =>
          simp only [hcode] at h
          cases h
          exact .throw hcode
      | await t next handler =>
          simp only [hcode] at h
          split at h
          · cases h
          · next body hthunk =>
            split at h
            · cases h
            · next childOutcome middle childCalls hchild =>
              split at h
              · next e hafter =>
                cases h
                exact .escapes hcode hthunk (ih hchild) hafter
              · next locals' hafter =>
                split at h
                · cases h
                · next last final more hrest =>
                  cases h
                  exact .goesOn hcode hthunk (ih hchild) hafter (ih hrest)

theorem called_call (caller callee : ℕ) (calls more : List Call) :
    called (.call caller callee :: calls ++ .ret callee caller :: more) =
      callee :: (called calls ++ called more) := by
  simp [called, List.filterMap_cons, Call.callee?]

theorem CalledFirst.mono {before before' : List ℕ} {calls : List Call}
    (h : CalledFirst before calls) (hsub : ∀ t ∈ before, t ∈ before') :
    CalledFirst before' calls := by
  induction calls generalizing before before' with
  | nil => trivial
  | cons call rest ih =>
      cases call with
      | call caller callee =>
          refine ⟨hsub _ h.1, ih h.2 ?_⟩
          intro t ht
          rcases List.mem_cons.mp ht with rfl | ht
          · exact List.mem_cons_self
          · exact List.mem_cons_of_mem _ (hsub t ht)
      | ret callee caller => exact ⟨hsub _ h.1, ih h.2 hsub⟩

theorem CalledFirst.append {before : List ℕ} {first second : List Call}
    (hfirst : CalledFirst before first) (hsecond : CalledFirst before second) :
    CalledFirst before (first ++ second) := by
  induction first generalizing before with
  | nil => exact hsecond
  | cons call rest ih =>
      cases call with
      | call caller callee =>
          exact ⟨hfirst.1, ih hfirst.2 (hsecond.mono fun t ht => List.mem_cons_of_mem _ ht)⟩
      | ret callee caller => exact ⟨hfirst.1, ih hfirst.2 hsecond⟩

theorem Evaluates.calledFirst {code : κ → Stmt κ V E μ} {self : ℕ} {locals : κ}
    {heap heap' : Heap κ μ} {outcome : Except E V} {calls : List Call}
    (h : Evaluates code self locals heap outcome heap' calls) : CalledFirst [self] calls := by
  induction h with
  | create hcode hrest ih => exact ih
  | get hcode hrest ih => exact ih
  | set hcode hrest ih => exact ih
  | coReturn hcode => trivial
  | throw hcode => trivial
  | escapes hcode hthunk hchild hafter ih =>
      refine ⟨List.mem_singleton_self _, CalledFirst.append (ih.mono ?_) ⟨?_, trivial⟩⟩
      · simp
      · simp
  | goesOn hcode hthunk hchild hafter hrest ihchild ihrest =>
      refine ⟨List.mem_singleton_self _, CalledFirst.append (ihchild.mono ?_)
        ⟨?_, ihrest.mono ?_⟩⟩
      · simp
      · simp
      · simp

/-- What a run does to the calls that are still to be made: it makes some of
them, each once, and creates new ones. -/
structure Bookkeeping (heap heap' : Heap κ μ) (calls : List Call) : Prop where
  next_le : heap.next ≤ heap'.next
  fresh : ∀ t, heap'.next ≤ t → heap'.thunks t = none
  gone : ∀ t, t < heap.next → heap.thunks t = none → heap'.thunks t = none
  made : ∀ t ∈ called calls, heap'.thunks t = none ∧ t < heap'.next ∧
    (t < heap.next → heap.thunks t ≠ none)
  nodup : (called calls).Nodup
  kept : ∀ t, t < heap'.next → t ∉ called calls → heap'.thunks t = none →
    t < heap.next ∧ heap.thunks t = none

namespace Bookkeeping

variable {heap heap' heap'' : Heap κ μ} {calls more : List Call}

theorem refl (hfresh : ∀ t, heap.next ≤ t → heap.thunks t = none) :
    Bookkeeping heap heap [] where
  next_le := Nat.le_refl _
  fresh := hfresh
  gone t _ hnone := hnone
  made t ht := by cases ht
  nodup := List.nodup_nil
  kept t hlt _ hnone := ⟨hlt, hnone⟩

theorem create {body : κ} (h : Bookkeeping (heap.create body) heap' calls) :
    Bookkeeping heap heap' calls where
  next_le := Nat.le_of_succ_le h.next_le
  fresh := h.fresh
  gone t hlt hnone := by
    refine h.gone t (Nat.lt_succ_of_lt hlt) ?_
    rw [heap.create_thunks_of_ne body hlt.ne]
    exact hnone
  made t ht := by
    obtain ⟨hnone, hlt, hold⟩ := h.made t ht
    refine ⟨hnone, hlt, fun hbefore => ?_⟩
    have hthunk := hold (Nat.lt_succ_of_lt hbefore)
    rwa [heap.create_thunks_of_ne body hbefore.ne] at hthunk
  nodup := h.nodup
  kept t hlt hnot hnone := by
    obtain ⟨hbefore, hthunk⟩ := h.kept t hlt hnot hnone
    have hne : t ≠ heap.next := by
      rintro rfl
      simp at hthunk
    rw [heap.create_thunks_of_ne body hne] at hthunk
    exact ⟨lt_of_le_of_ne (Nat.le_of_lt_succ hbefore) hne, hthunk⟩

theorem call {self t : ℕ} {body : κ} (hfresh : ∀ u, heap.next ≤ u → heap.thunks u = none)
    (hthunk : heap.thunks t = some body) (hchild : Bookkeeping (heap.take t) heap' calls)
    (hrest : Bookkeeping heap' heap'' more) :
    Bookkeeping heap heap'' (.call self t :: calls ++ .ret t self :: more) := by
  have htlt : t < heap.next := by
    by_contra hge
    cases hthunk.symm.trans (hfresh t (Nat.le_of_not_lt hge))
  have htaken := heap.take_thunks_self t
  have hother : ∀ u, u ≠ t → (heap.take t).thunks u = heap.thunks u :=
    fun u hu => heap.take_thunks_of_ne hu
  have htgone := hchild.gone t htlt htaken
  have htlt' : t < heap'.next := lt_of_lt_of_le htlt hchild.next_le
  constructor
  · exact hchild.next_le.trans hrest.next_le
  · exact hrest.fresh
  · intro u hlt hnone
    have hne : u ≠ t := by
      rintro rfl
      cases hthunk.symm.trans hnone
    have hmiddle := hchild.gone u hlt ((hother u hne).trans hnone)
    exact hrest.gone u (lt_of_lt_of_le hlt hchild.next_le) hmiddle
  · intro u hu
    rw [called_call] at hu
    rcases List.mem_cons.mp hu with rfl | hu
    · exact ⟨hrest.gone u htlt' htgone, lt_of_lt_of_le htlt' hrest.next_le,
        fun _ => by rw [hthunk]; simp⟩
    · rcases List.mem_append.mp hu with hu | hu
      · obtain ⟨hnone, hlt, hold⟩ := hchild.made u hu
        refine ⟨hrest.gone u hlt hnone, lt_of_lt_of_le hlt hrest.next_le, fun hbefore hempty => ?_⟩
        have hne : u ≠ t := by
          rintro rfl
          exact hold htlt htaken
        exact hold hbefore ((hother u hne).trans hempty)
      · obtain ⟨hnone, hlt, hold⟩ := hrest.made u hu
        refine ⟨hnone, hlt, fun hbefore hempty => ?_⟩
        have hne : u ≠ t := by
          rintro rfl
          exact hold htlt' htgone
        exact hold (lt_of_lt_of_le hbefore hchild.next_le)
          (hchild.gone u hbefore ((hother u hne).trans hempty))
  · rw [called_call, List.nodup_cons, List.nodup_append]
    refine ⟨?_, hchild.nodup, hrest.nodup, ?_⟩
    · rw [List.mem_append]
      rintro (hin | hin)
      · exact (hchild.made t hin).2.2 htlt htaken
      · exact (hrest.made t hin).2.2 htlt' htgone
    · rintro u hu v hv rfl
      obtain ⟨hnone, hlt, -⟩ := hchild.made u hu
      exact (hrest.made u hv).2.2 hlt hnone
  · intro u hlt hnot hnone
    rw [called_call, List.mem_cons, List.mem_append, not_or, not_or] at hnot
    obtain ⟨hne, hnotchild, hnotrest⟩ := hnot
    obtain ⟨hlt', hmiddle⟩ := hrest.kept u hlt hnotrest hnone
    obtain ⟨hbefore, hthunk'⟩ := hchild.kept u hlt' hnotchild hmiddle
    exact ⟨hbefore, (hother u hne).symm.trans hthunk'⟩

end Bookkeeping

theorem heap_take_fresh {heap : Heap κ μ} (hfresh : ∀ t, heap.next ≤ t → heap.thunks t = none)
    {taken : ℕ} (t : ℕ) (ht : (heap.take taken).next ≤ t) : (heap.take taken).thunks t = none := by
  by_cases heq : t = taken
  · rw [heq, heap.take_thunks_self]
  · rw [heap.take_thunks_of_ne heq]
    exact hfresh t ht

theorem Evaluates.bookkeeping {code : κ → Stmt κ V E μ} {self : ℕ} {locals : κ}
    {heap heap' : Heap κ μ} {outcome : Except E V} {calls : List Call}
    (h : Evaluates code self locals heap outcome heap' calls)
    (hfresh : ∀ t, heap.next ≤ t → heap.thunks t = none) : Bookkeeping heap heap' calls := by
  induction h with
  | create hcode hrest ih =>
      refine (ih ?_).create
      intro t ht
      rw [Heap.create_thunks_of_ne _ _ (Nat.ne_of_gt ht)]
      exact hfresh t (Nat.le_of_succ_le ht)
  | get hcode hrest ih => exact ih hfresh
  | set hcode hrest ih =>
      have hbook := ih hfresh
      exact ⟨hbook.next_le, hbook.fresh, hbook.gone, hbook.made, hbook.nodup, hbook.kept⟩
  | coReturn hcode => exact .refl hfresh
  | throw hcode => exact .refl hfresh
  | escapes hcode hthunk hchild hafter ih =>
      have htaken := ih (heap_take_fresh hfresh)
      exact .call hfresh hthunk htaken (.refl htaken.fresh)
  | goesOn hcode hthunk hchild hafter hrest ihchild ihrest =>
      have htaken := ihchild (heap_take_fresh hfresh)
      exact .call hfresh hthunk htaken (ihrest htaken.fresh)

end CppWorkspace.Coro
