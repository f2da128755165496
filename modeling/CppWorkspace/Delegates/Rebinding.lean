import CppWorkspace.Delegates.MulticastDelegate

/-!
The `Bind*` calls of one delegate when user code throws. `BindInternal` forgets
the old binding first and then builds the new invocation; an exception in
between leaves the old invocation without its owner.
-/

namespace CppWorkspace.Delegates

open Lib System

/-- A callable as `BindInternal` receives it, with what its closure captures. -/
inductive Callable (ι : Type) where
  | plain (code : ι)
  | method (object : Pointer) (code : ι)
  | weakMethod (weak : Option Owner) (code : ι)
  | weakLambda (weak : Option Owner) (code : ι)
deriving Repr, DecidableEq

/-- The `weak_ptr` that the closure locks. -/
def Callable.weak : Callable ι → Option (Option Owner)
  | .plain _ | .method _ _ => none
  | .weakMethod weak _ | .weakLambda weak _ => some weak

/-- What `invocation_` holds: the callable and the payload tuple. -/
structure Stored (ι π : Type) where
  callable : Callable ι
  payload : List π
deriving Repr, DecidableEq

/-- Which constructions throw: of the argument of `BindInternal` from the user's
functor, of the captured callable, of the payload tuple, of the
`std::function`. -/
structure Throws where
  argument : Bool := false
  callable : Bool := false
  payload : Bool := false
  function : Bool := false
deriving Repr, DecidableEq

namespace Delegate

variable {ι π : Type}

/-- `IsBound`, given the owners that are alive. -/
def isBound (alive : Owner → Bool) (d : Delegate ι) : Bool :=
  d.invocation.isSome && (!d.usesWeak || d.weak.any alive)

def isBoundToObject (alive : Owner → Bool) (d : Delegate ι) (object : Pointer) : Bool :=
  d.targets object && d.isBound alive

/-- `Unbind`. -/
def unbind (_ : Delegate ι) : Delegate ι := unbound

/-- The first lines of `BindInternal`. -/
def forget (d : Delegate ι) : Delegate ι := { d with weak := none, usesWeak := false, owner := none }

/-- `BindInternal`: whether it returns, and the delegate. The assignment to
`invocation_` itself does not throw. -/
def bindInternal (callable : Callable ι) (payload : List π) (throws : Throws)
    (d : Delegate (Stored ι π)) : Bool × Delegate (Stored ι π) :=
  if throws.callable || (!payload.isEmpty && throws.payload) || throws.function then
    (false, d.forget)
  else (true, { d.forget with invocation := some ⟨callable, payload⟩ })

/-- What a caller of `BindInternal` assigns once it has returned. -/
def afterwards (assign : Delegate ι → Delegate ι) : Bool × Delegate ι → Bool × Delegate ι
  | (false, d) => (false, d)
  | (true, d) => (true, assign d)

/-- `BindStatic`. Copying a function pointer does not throw. -/
def bindStatic (func : ι) (payload : List π) (throws : Throws) (d : Delegate (Stored ι π)) :
    Bool × Delegate (Stored ι π) :=
  d.bindInternal (.plain func) payload { throws with callable := false }

/-- `BindLambda`. -/
def bindLambda (functor : ι) (payload : List π) (throws : Throws) (d : Delegate (Stored ι π)) :
    Bool × Delegate (Stored ι π) :=
  if throws.argument then (false, d) else d.bindInternal (.plain functor) payload throws

/-- `BindRaw`. -/
def bindRaw (object : Pointer) (method : ι) (payload : List π) (throws : Throws)
    (d : Delegate (Stored ι π)) : Bool × Delegate (Stored ι π) :=
  afterwards (fun d => { d with owner := object })
    (d.bindInternal (.method object method) payload { throws with callable := false })

/-- `BindSP`. -/
def bindSP (weak : Option Owner) (object : Pointer) (method : ι) (payload : List π)
    (throws : Throws) (d : Delegate (Stored ι π)) : Bool × Delegate (Stored ι π) :=
  afterwards (fun d => { d with weak := weak, usesWeak := true, owner := object })
    (d.bindInternal (.weakMethod weak method) payload { throws with callable := false })

/-- `BindWeakLambda`; the functor is captured before `BindInternal` is entered. -/
def bindWeakLambda (weak : Option Owner) (object : Pointer) (functor : ι) (payload : List π)
    (throws : Throws) (d : Delegate (Stored ι π)) : Bool × Delegate (Stored ι π) :=
  if throws.argument then (false, d)
  else afterwards (fun d => { d with weak := weak, usesWeak := true, owner := object })
    (d.bindInternal (.weakLambda weak functor) payload throws)

end Delegate

/-- A `Bind*` call. -/
inductive Call (ι : Type) where
  | static (func : ι)
  | lambda (functor : ι)
  | raw (object : Pointer) (method : ι)
  | sp (weak : Option Owner) (object : Pointer) (method : ι)
  | weakLambda (weak : Option Owner) (object : Pointer) (functor : ι)
deriving Repr, DecidableEq

namespace Call

variable {ι π : Type}

def bind (payload : List π) (throws : Throws) (d : Delegate (Stored ι π)) :
    Call ι → Bool × Delegate (Stored ι π)
  | static func => d.bindStatic func payload throws
  | lambda functor => d.bindLambda functor payload throws
  | raw object method => d.bindRaw object method payload throws
  | sp weak object method => d.bindSP weak object method payload throws
  | weakLambda weak object functor => d.bindWeakLambda weak object functor payload throws

/-- The call throws before it enters `BindInternal`. -/
def throwsEarly (throws : Throws) : Call ι → Bool
  | static _ | raw _ _ | sp _ _ _ => false
  | lambda _ | weakLambda _ _ _ => throws.argument

/-- The owner of the `shared_ptr` that a weak binding is given. -/
def owner : Call ι → Option Owner
  | static _ | lambda _ | raw _ _ => none
  | sp weak _ _ | weakLambda weak _ _ => weak

/-- The delegate of a call that returns, which is that of the factories. -/
def bound (payload : List π) : Call ι → Delegate (Stored ι π)
  | static func => .createStatic ⟨.plain func, payload⟩
  | lambda functor => .createLambda ⟨.plain functor, payload⟩
  | raw object method => .createRaw object ⟨.method object method, payload⟩
  | sp weak object method => .createSP weak object ⟨.weakMethod weak method, payload⟩
  | weakLambda weak object functor =>
      .createWeakLambda weak object ⟨.weakLambda weak functor, payload⟩

end Call

/-- The delegate afterwards behaves as before, whichever owners are alive. -/
structure Delegate.Same {ι : Type} (d d' : Delegate ι) : Prop where
  target : d'.invocation = d.invocation
  tracking : d'.lock = d.lock
  isBound : ∀ alive, d'.isBound alive = d.isBound alive
  isBoundToObject : ∀ alive object, d'.isBoundToObject alive object = d.isBoundToObject alive object

/-- The delegate holds nothing that `BindInternal` forgets: it is unbound, or it
is bound to no object. -/
def Delegate.Bare {ι : Type} (d : Delegate ι) : Prop :=
  (d.invocation = none ∧ d.lock = none) ∨ (d.usesWeak = false ∧ d.owner = none)

/-- A delegate that other code uses, and the owners that are destroyed. -/
structure Rebound (ι π : Type) where
  delegate : Delegate (Stored ι π) := .unbound
  destroyed : List Owner := []

namespace Rebound

variable {ι π : Type}

def alive (s : Rebound ι π) (o : Owner) : Bool := !s.destroyed.contains o

inductive Act (ι π : Type) where
  | bind (call : Call ι) (payload : List π) (throws : Throws)
  | unbind
  | destroy (o : Owner)

/-- The caller of a weak binding holds a `shared_ptr` to its owner. -/
def Step (s : Rebound ι π) : Act ι π → Rebound ι π → Prop
  | .bind call payload throws, s' => (∀ o, call.owner = some o → s.alive o = true) ∧
      s' = { s with delegate := (call.bind payload throws s.delegate).2 }
  | .unbind, s' => s' = { s with delegate := s.delegate.unbind }
  | .destroy o, s' => s' = { s with destroyed := o :: s.destroyed }

def reboundSystem : System (Rebound ι π) (Act ι π) where
  init s := s = {}
  step := Step

/-- A call that throws meets a delegate that holds nothing it forgets, or
throws before. -/
def ThrowsSafely (s : Rebound ι π) : Act ι π → Prop
  | .bind call payload throws => (call.bind payload throws s.delegate).1 = false →
      call.throwsEarly throws = true ∨ s.delegate.Bare
  | .unbind | .destroy _ => True

/-- The owner that the target was bound with, when it was bound weakly, has not
been destroyed. -/
def Fresh (s : Rebound ι π) : Prop :=
  s.delegate.isBound s.alive = true → ∀ stored, s.delegate.invocation = some stored →
    ∀ weak, stored.callable.weak = some weak → ∃ o, weak = some o ∧ s.alive o = true

end Rebound

section Calls

variable {ι π : Type} {payload : List π} {throws : Throws} {d : Delegate (Stored ι π)}

theorem bindInternal_cases (callable : Callable ι) (payload : List π) (throws : Throws)
    (d : Delegate (Stored ι π)) :
    d.bindInternal callable payload throws = (false, d.forget) ∨
      d.bindInternal callable payload throws =
        (true, { d.forget with invocation := some ⟨callable, payload⟩ }) := by
  unfold Delegate.bindInternal
  split
  · exact Or.inl rfl
  · exact Or.inr rfl

/-- What a call does: it throws before `BindInternal` or inside, or it binds. -/
theorem Call.bind_cases (call : Call ι) (payload : List π) (throws : Throws)
    (d : Delegate (Stored ι π)) :
    (call.throwsEarly throws = true ∧ call.bind payload throws d = (false, d)) ∨
      (call.throwsEarly throws = false ∧ call.bind payload throws d = (false, d.forget)) ∨
      call.bind payload throws d = (true, call.bound payload) := by
  cases call with
  | static func =>
      rcases bindInternal_cases (.plain func) payload { throws with callable := false } d with h | h
      · exact Or.inr (Or.inl ⟨rfl, h⟩)
      · exact Or.inr (Or.inr h)
  | lambda functor =>
      simp only [throwsEarly, bind, Delegate.bindLambda]
      cases throws.argument with
      | true => exact Or.inl ⟨rfl, rfl⟩
      | false =>
          rcases bindInternal_cases (.plain functor) payload throws d with h | h
          · exact Or.inr (Or.inl ⟨rfl, h⟩)
          · exact Or.inr (Or.inr h)
  | raw object method =>
      simp only [throwsEarly, bind, Delegate.bindRaw]
      rcases bindInternal_cases (.method object method) payload { throws with callable := false } d
        with h | h
      · exact Or.inr (Or.inl ⟨trivial, by rw [h]; rfl⟩)
      · exact Or.inr (Or.inr (by rw [h]; rfl))
  | sp weak object method =>
      simp only [throwsEarly, bind, Delegate.bindSP]
      rcases bindInternal_cases (.weakMethod weak method) payload
        { throws with callable := false } d with h | h
      · exact Or.inr (Or.inl ⟨trivial, by rw [h]; rfl⟩)
      · exact Or.inr (Or.inr (by rw [h]; rfl))
  | weakLambda weak object functor =>
      simp only [throwsEarly, bind, Delegate.bindWeakLambda]
      cases throws.argument with
      | true => exact Or.inl ⟨rfl, rfl⟩
      | false =>
          rcases bindInternal_cases (.weakLambda weak functor) payload throws d with h | h
          · exact Or.inr (Or.inl ⟨rfl, by rw [h]; rfl⟩)
          · exact Or.inr (Or.inr (by rw [h]; rfl))

theorem Delegate.Same.refl (d : Delegate ι) : d.Same d :=
  ⟨rfl, rfl, fun _ => rfl, fun _ _ => rfl⟩

/-- Forgetting the binding shows unless the delegate is bare. The two owners to
look at are one that has been destroyed and the object itself. -/
theorem Delegate.same_forget_iff (d : Delegate ι) : d.Same d.forget ↔ d.Bare := by
  constructor
  · intro h
    cases hinvocation : d.invocation with
    | none => exact Or.inl ⟨hinvocation, h.tracking.symm⟩
    | some code =>
        have hweak : d.usesWeak = false := by
          have hdestroyed := h.isBound fun _ => false
          cases hweak : d.usesWeak with
          | false => rfl
          | true =>
              cases hd : d.weak <;>
                simp [Delegate.isBound, forget, hinvocation, hweak, hd] at hdestroyed
        have howner : d.owner = none := by
          have hobject := h.isBoundToObject (fun _ => true) d.owner
          cases howner : d.owner with
          | none => rfl
          | some object =>
              simp [Delegate.isBoundToObject, targets, Delegate.isBound, forget, hinvocation,
                hweak, howner] at hobject
        exact Or.inr ⟨hweak, howner⟩
  · rintro (⟨hinvocation, hlock⟩ | ⟨hweak, howner⟩)
    · exact ⟨rfl, hlock.symm, fun _ => by simp [Delegate.isBound, forget, hinvocation],
        fun _ _ => by simp [Delegate.isBoundToObject, Delegate.isBound, forget, hinvocation]⟩
    · exact ⟨rfl, by simp [lock, forget, hweak], fun _ => by simp [Delegate.isBound, forget, hweak],
        fun _ _ => by
          simp [Delegate.isBoundToObject, targets, Delegate.isBound, forget, hweak, howner]⟩

/-- A call that throws. -/
theorem Call.same_iff (call : Call ι) (hthrows : (call.bind payload throws d).1 = false) :
    d.Same (call.bind payload throws d).2 ↔ call.throwsEarly throws = true ∨ d.Bare := by
  rcases call.bind_cases payload throws d with ⟨hearly, h⟩ | ⟨hearly, h⟩ | h
  · rw [h]
    exact iff_of_true (.refl d) (Or.inl hearly)
  · rw [h, hearly]
    simpa using d.same_forget_iff
  · rw [h] at hthrows
    cases hthrows

end Calls

namespace Rebound

variable {ι π : Type} {s s' : Rebound ι π}

/-- A target with a weak owner is tracked by the fields of the delegate. -/
def Tracks (d : Delegate (Stored ι π)) : Prop :=
  ∀ stored, d.invocation = some stored → ∀ weak, stored.callable.weak = some weak →
    d.usesWeak = true ∧ d.weak = weak

theorem tracks_bound (call : Call ι) (payload : List π) : Tracks (call.bound payload) := by
  intro stored hstored weak hweak
  cases call <;> cases hstored <;> cases hweak <;> exact ⟨rfl, rfl⟩

/-- A bare delegate has no target with a weak owner. -/
theorem tracks_forget {d : Delegate (Stored ι π)} (h : Tracks d) (hbare : d.Bare) :
    Tracks d.forget := by
  intro stored hstored weak hweak
  rcases hbare with ⟨hnone, -⟩ | ⟨husesWeak, -⟩
  · cases hnone.symm.trans hstored
  · cases husesWeak.symm.trans (h stored hstored weak hweak).1

theorem tracks_step (h : Tracks s.delegate) {act : Act ι π} (hsafe : s.ThrowsSafely act)
    (hstep : Step s act s') : Tracks s'.delegate := by
  cases act with
  | bind call payload throws =>
      obtain ⟨-, rfl⟩ := hstep
      show Tracks (call.bind payload throws s.delegate).2
      rcases call.bind_cases payload throws s.delegate with ⟨-, heq⟩ | ⟨hearly, heq⟩ | heq
      · rw [heq]
        exact h
      · rcases hsafe (by rw [heq]) with hcontra | hbare
        · cases hearly.symm.trans hcontra
        · rw [heq]
          exact tracks_forget h hbare
      · rw [heq]
        exact tracks_bound call payload
  | unbind =>
      cases hstep
      intro stored hstored
      cases hstored
  | destroy o =>
      cases hstep
      exact h

theorem fresh_of_tracks (h : Tracks s.delegate) : s.Fresh := by
  intro hbound stored hstored weak hweak
  obtain ⟨husesWeak, rfl⟩ := h stored hstored weak hweak
  simp only [Delegate.isBound, husesWeak, Bool.not_true, Bool.false_or, Bool.and_eq_true] at hbound
  exact (Option.any_eq_true _ _).mp hbound.2

end Rebound

/-- A `Bind*` call that throws leaves the delegate as it was exactly if it threw
before `BindInternal` was entered or the delegate was bare; and while all calls
that throw do so, a delegate never claims to be bound to a target whose owner
has been destroyed. -/
theorem throwing_rebind_iff (ι π : Type) :
    (∀ (call : Call ι) (payload : List π) (throws : Throws) (d : Delegate (Stored ι π)),
      (call.bind payload throws d).1 = false →
        (d.Same (call.bind payload throws d).2 ↔ call.throwsEarly throws = true ∨ d.Bare)) ∧
      ∀ (labels : List (Rebound.Act ι π)) (s : Rebound ι π),
        (Rebound.reboundSystem.restrict Rebound.ThrowsSafely).Run {} labels s → s.Fresh := by
  refine ⟨fun call payload throws d => call.same_iff, fun labels s hrun => ?_⟩
  have hstart : Rebound.Tracks ({} : Rebound ι π).delegate := fun stored hstored => by cases hstored
  refine Rebound.fresh_of_tracks
    (hrun.preserves (I := fun s => Rebound.Tracks s.delegate) ?_ hstart)
  rintro s act s' h ⟨hsafe, hstep⟩
  exact Rebound.tracks_step h hsafe hstep

/-- Copying the functor of a lambda throws while a method is bound weakly; then
the owner is destroyed. -/
theorem throwing_rebind_before_entry :
    (∃ d d' : Delegate (Stored ℕ ℕ), (Call.lambda 7).bind [5] { argument := true } d = (false, d') ∧
      d.usesWeak = true ∧ d.Same d') ∧
    ∃ (labels : List (Rebound.Act ℕ ℕ)) (s : Rebound ℕ ℕ),
      Rebound.reboundSystem.Run {} labels s ∧ s.delegate.invocation = some ⟨.weakMethod (some 1) 0, []⟩ ∧
        s.delegate.isBound s.alive = false := by
  refine ⟨⟨.createSP (some 1) (some 10) ⟨.weakMethod (some 1) 0, []⟩, _, rfl, rfl,
    ((throwing_rebind_iff ℕ ℕ).1 (.lambda 7) [5] { argument := true } _ rfl).mpr (Or.inl rfl)⟩, ?_⟩
  obtain ⟨labels, s, hrun, hinvocation, hdestroyed⟩ : ∃ labels s,
      (Rebound.reboundSystem.restrict Rebound.ThrowsSafely).Run ({} : Rebound ℕ ℕ) labels s ∧
        s.delegate.invocation = some ⟨.weakMethod (some 1) 0, []⟩ ∧ s.alive 1 = false :=
    ⟨_, _,
      Run.cons (Rebound.Act.bind (.sp (some 1) (some 10) 0) [] {})
        ⟨fun h => (by cases h), fun o ho => (by cases ho; rfl), rfl⟩ <|
      Run.cons (Rebound.Act.bind (.lambda 7) [5] { argument := true })
        ⟨fun _ => Or.inl rfl, fun o ho => (by cases ho), rfl⟩ <|
      Run.cons (Rebound.Act.destroy 1) ⟨trivial, rfl⟩ .nil,
      rfl, rfl⟩
  refine ⟨labels, s, hrun.of_restrict, hinvocation, ?_⟩
  cases hbound : s.delegate.isBound s.alive with
  | false => rfl
  | true =>
      obtain ⟨o, ho, halive⟩ :=
        (throwing_rebind_iff ℕ ℕ).2 labels s hrun hbound _ hinvocation _ rfl
      cases ho
      cases hdestroyed.symm.trans halive

/-- The payload of a lambda throws while a method is bound weakly: the method
stays and is no longer tracked, and the delegate says that it is bound when the
owner has been destroyed. -/
theorem throwing_rebind_outlives_owner :
    ∃ (labels : List (Rebound.Act ℕ ℕ)) (s s' : Rebound ℕ ℕ),
      Rebound.reboundSystem.Run {} labels s ∧
      (Call.lambda 7).bind [5] { payload := true } s.delegate = (false, s'.delegate) ∧
      ¬ s.delegate.Same s'.delegate ∧
      Rebound.reboundSystem.Run s
        [.bind (.lambda 7) [5] { payload := true }, .destroy 1] s' ∧
      s'.delegate.invocation = some ⟨.weakMethod (some 1) 0, []⟩ ∧ s'.alive 1 = false ∧
      s'.delegate.isBound s'.alive = true :=
  ⟨_, ⟨⟨some ⟨.weakMethod (some 1) 0, []⟩, some 1, true, some 10⟩, []⟩, _,
    Run.cons (Rebound.Act.bind (.sp (some 1) (some 10) 0) [] {})
      ⟨fun o ho => (by cases ho; rfl), rfl⟩ .nil,
    rfl,
    fun h => (by cases h.isBound fun _ => false),
    Run.cons (Rebound.Act.bind (.lambda 7) [5] { payload := true })
      ⟨fun o ho => (by cases ho), rfl⟩ <|
    Run.cons (Rebound.Act.destroy 1) rfl .nil,
    rfl, rfl, rfl⟩

end CppWorkspace.Delegates
