import Mathlib

/-!
Labelled transition systems with runs, the invariant rule and forward
simulation. Nothing here refers to a particular program; a development gives
`init` and `step` and receives induction over runs and over reachable states.
-/

namespace CppWorkspace.Lib

/-- A labelled transition system over states `σ` and step labels `α`. -/
structure System (σ : Type*) (α : Type*) where
  init : σ → Prop
  step : σ → α → σ → Prop

namespace System

variable {σ τ α : Type*}

/-- Finite runs, extended at the end so that an induction over a run exposes
its last step. -/
inductive Run (S : System σ α) (start : σ) : List α → σ → Prop
  | nil : Run S start [] start
  | snoc {labels : List α} {middle last : σ} (label : α) :
      Run S start labels middle → S.step middle label last →
      Run S start (labels ++ [label]) last

/-- A state is reachable when some run leads to it from an initial state. -/
def Reachable (S : System σ α) (state : σ) : Prop :=
  ∃ start labels, S.init start ∧ S.Run start labels state

theorem Run.single {S : System σ α} {s s' : σ} {label : α}
    (hstep : S.step s label s') : S.Run s [label] s' := by
  simpa using Run.snoc label .nil hstep

theorem Run.append {S : System σ α} {s middle last : σ} {first second : List α}
    (hfirst : S.Run s first middle) (hsecond : S.Run middle second last) :
    S.Run s (first ++ second) last := by
  induction hsecond with
  | nil => simpa using hfirst
  | snoc label _ hstep ih =>
      rw [← List.append_assoc]
      exact ih.snoc label hstep

theorem Run.cons {S : System σ α} {s middle last : σ} {labels : List α} (label : α)
    (hstep : S.step s label middle) (hrun : S.Run middle labels last) :
    S.Run s (label :: labels) last := by
  simpa using (Run.single hstep).append hrun

/-- A run whose steps a function computes. -/
theorem Run.of_foldlM {S : System σ α} {next : σ → α → Option σ}
    (hnext : ∀ s label s', next s label = some s' → S.step s label s') {s s' : σ} {labels : List α}
    (h : labels.foldlM next s = some s') : S.Run s labels s' := by
  induction labels generalizing s with
  | nil =>
      cases h
      exact .nil
  | cons label rest ih =>
      rw [List.foldlM_cons] at h
      obtain ⟨middle, hstep, hrest⟩ := Option.bind_eq_some_iff.mp h
      exact (ih hrest).cons label (hnext _ _ _ hstep)

/-- Undoing `Run.snoc`: a run over one more label has a state before it. -/
theorem Run.of_append_singleton {S : System σ α} {s last : σ}
    {labels : List α} {label : α} (h : S.Run s (labels ++ [label]) last) :
    ∃ middle, S.Run s labels middle ∧ S.step middle label last := by
  generalize hall : labels ++ [label] = all at h
  cases h with
  | nil => simp at hall
  | snoc label' hrun hstep =>
      obtain ⟨rfl, heq⟩ := List.append_inj' hall rfl
      cases heq
      exact ⟨_, hrun, hstep⟩

/-- A run over two consecutive label lists passes through a state between
them. -/
theorem Run.split {S : System σ α} {s last : σ} {first second : List α}
    (h : S.Run s (first ++ second) last) :
    ∃ middle, S.Run s first middle ∧ S.Run middle second last := by
  induction second using List.reverseRecOn generalizing last with
  | nil => exact ⟨last, by simpa using h, .nil⟩
  | append_singleton second label ih =>
      rw [← List.append_assoc] at h
      obtain ⟨before, hrun, hstep⟩ := h.of_append_singleton
      obtain ⟨middle, hfirst, hsecond⟩ := ih hrun
      exact ⟨middle, hfirst, hsecond.snoc label hstep⟩

theorem Run.eq_of_nil {S : System σ α} {s last : σ} (h : S.Run s [] last) : last = s := by
  generalize hall : ([] : List α) = all at h
  cases h with
  | nil => rfl
  | snoc label _ _ => simp at hall

/-- Undoing `Run.cons`: a run over one more label has a state after its first
step. -/
theorem Run.of_cons {S : System σ α} {s last : σ} {label : α} {labels : List α}
    (h : S.Run s (label :: labels) last) :
    ∃ middle, S.step s label middle ∧ S.Run middle labels last := by
  obtain ⟨middle, hone, hrest⟩ := Run.split (show S.Run s ([label] ++ labels) last from h)
  obtain ⟨start, hnil, hstep⟩ :=
    Run.of_append_singleton (show S.Run s ([] ++ [label]) middle from hone)
  rw [hnil.eq_of_nil] at hstep
  exact ⟨middle, hstep, hrest⟩

/-- When a state has one step at most, every run is the beginning of the run to a state
without a step. -/
theorem Run.extends_to {S : System σ α}
    (hdet : ∀ s label label' s' s'', S.step s label s' → S.step s label' s'' →
      label = label' ∧ s' = s'') {start s last : σ} {labels all : List α}
    (hstuck : ∀ label s', ¬ S.step last label s') (hrun : S.Run start labels s)
    (hall : S.Run start all last) : ∃ rest, all = labels ++ rest ∧ S.Run s rest last := by
  induction hrun with
  | nil => exact ⟨all, rfl, hall⟩
  | snoc label _ hstep ih =>
      obtain ⟨rest, hlabels, hrest⟩ := ih
      cases rest with
      | nil => exact absurd (hrest.eq_of_nil ▸ hstep) (hstuck label _)
      | cons first rest =>
          obtain ⟨middle, hfirst, hlater⟩ := hrest.of_cons
          obtain ⟨rfl, rfl⟩ := hdet _ _ _ _ _ hstep hfirst
          exact ⟨rest, by rw [hlabels, List.append_assoc]; rfl, hlater⟩

/-- An invariant: it holds initially and every step keeps it. -/
structure Invariant (S : System σ α) (I : σ → Prop) : Prop where
  init : ∀ s, S.init s → I s
  step : ∀ s label s', I s → S.step s label s' → I s'

theorem Run.preserves {S : System σ α} {I : σ → Prop}
    (hstep : ∀ s label s', I s → S.step s label s' → I s')
    {s s' : σ} {labels : List α} (hrun : S.Run s labels s') (hs : I s) : I s' := by
  induction hrun with
  | nil => exact hs
  | snoc label _ hlast ih => exact hstep _ label _ ih hlast

/-- The rule for what a run has done so far together with its state. -/
theorem Run.preserves_history {S : System σ α} {I : List α → σ → Prop}
    (hstep : ∀ labels s label s', I labels s → S.step s label s' → I (labels ++ [label]) s')
    {start s : σ} {labels : List α} (hstart : I [] start) (hrun : S.Run start labels s) :
    I labels s := by
  induction hrun with
  | nil => exact hstart
  | snoc label _ hlast ih => exact hstep _ _ label _ ih hlast

/-- Runs are no longer than the work that is there at their start, when every step does
some of it. -/
theorem Run.length_le {S : System σ α} {I : σ → Prop} {work : σ → ℕ}
    (hstep : ∀ s label s', I s → S.step s label s' → I s' ∧ work s' < work s)
    {start s : σ} {labels : List α} (hstart : I start) (hrun : S.Run start labels s) :
    labels.length + work s ≤ work start := by
  have hboth := hrun.preserves_history
    (I := fun labels s => I s ∧ labels.length + work s ≤ work start)
    (fun labels s label s' hs hlast => by
      obtain ⟨hs', hlt⟩ := hstep s label s' hs.1 hlast
      refine ⟨hs', ?_⟩
      rw [List.length_append, List.length_singleton]
      omega) ⟨hstart, by simp⟩
  exact hboth.2

theorem Invariant.reachable {S : System σ α} {I : σ → Prop}
    (hinv : S.Invariant I) {s : σ} (hs : S.Reachable s) : I s := by
  obtain ⟨start, labels, hstart, hrun⟩ := hs
  exact hrun.preserves hinv.step (hinv.init start hstart)

theorem Reachable.step {S : System σ α} {s s' : σ} {label : α}
    (hs : S.Reachable s) (hstep : S.step s label s') : S.Reachable s' := by
  obtain ⟨start, labels, hstart, hrun⟩ := hs
  exact ⟨start, labels ++ [label], hstart, hrun.snoc label hstep⟩

/-- The system in which only the steps that meet `P` are taken. -/
def restrict (S : System σ α) (P : σ → α → Prop) : System σ α where
  init := S.init
  step s label s' := P s label ∧ S.step s label s'

theorem Run.of_restrict {S : System σ α} {P : σ → α → Prop} {s s' : σ}
    {labels : List α} (hrun : (S.restrict P).Run s labels s') :
    S.Run s labels s' := by
  induction hrun with
  | nil => exact .nil
  | snoc label _ hstep ih => exact ih.snoc label hstep.2

/-- `R` is a forward simulation of `C` by `A`: every initial state of `C` has
a related one, and every step of `C` is matched by a step of `A` under the same
label. -/
structure Simulation (C : System σ α) (A : System τ α) (R : σ → τ → Prop) : Prop where
  init : ∀ c, C.init c → ∃ a, A.init a ∧ R c a
  step : ∀ c label c' a, R c a → C.step c label c' →
    ∃ a', A.step a label a' ∧ R c' a'

theorem Simulation.run {C : System σ α} {A : System τ α} {R : σ → τ → Prop}
    (hsim : C.Simulation A R) {c c' : σ} {a : τ} {labels : List α}
    (hrel : R c a) (hrun : C.Run c labels c') :
    ∃ a', A.Run a labels a' ∧ R c' a' := by
  induction hrun with
  | nil => exact ⟨a, .nil, hrel⟩
  | snoc label _ hstep ih =>
      obtain ⟨middle, hlabels, hmiddle⟩ := ih
      obtain ⟨last, hlabel, hlast⟩ := hsim.step _ label _ _ hmiddle hstep
      exact ⟨last, hlabels.snoc label hlabel, hlast⟩

theorem Simulation.reachable {C : System σ α} {A : System τ α} {R : σ → τ → Prop}
    (hsim : C.Simulation A R) {c : σ} (hc : C.Reachable c) :
    ∃ a, A.Reachable a ∧ R c a := by
  obtain ⟨start, labels, hstart, hrun⟩ := hc
  obtain ⟨a, ha, hrel⟩ := hsim.init start hstart
  obtain ⟨a', hlabels, hlast⟩ := hsim.run hrel hrun
  exact ⟨a', ⟨a, labels, ha, hlabels⟩, hlast⟩

/-- A forward simulation in which one step of `C` is matched by any run of
`A`, the empty one included. -/
structure WeakSimulation {β : Type*} (C : System σ α) (A : System τ β)
    (R : σ → τ → Prop) : Prop where
  init : ∀ c, C.init c → ∃ a, A.init a ∧ R c a
  step : ∀ c label c' a, R c a → C.step c label c' → ∃ labels a', A.Run a labels a' ∧ R c' a'

theorem WeakSimulation.run {β : Type*} {C : System σ α} {A : System τ β} {R : σ → τ → Prop}
    (hsim : C.WeakSimulation A R) {c c' : σ} {a : τ} {labels : List α}
    (hrel : R c a) (hrun : C.Run c labels c') : ∃ labels' a', A.Run a labels' a' ∧ R c' a' := by
  induction hrun with
  | nil => exact ⟨[], a, .nil, hrel⟩
  | snoc label _ hstep ih =>
      obtain ⟨first, middle, hfirst, hmiddle⟩ := ih
      obtain ⟨second, last, hsecond, hlast⟩ := hsim.step _ label _ _ hmiddle hstep
      exact ⟨first ++ second, last, hfirst.append hsecond, hlast⟩

theorem WeakSimulation.reachable {β : Type*} {C : System σ α} {A : System τ β}
    {R : σ → τ → Prop} (hsim : C.WeakSimulation A R) {c : σ} (hc : C.Reachable c) :
    ∃ a, A.Reachable a ∧ R c a := by
  obtain ⟨start, labels, hstart, hrun⟩ := hc
  obtain ⟨a, ha, hrel⟩ := hsim.init start hstart
  obtain ⟨labels', a', hlabels, hlast⟩ := hsim.run hrel hrun
  exact ⟨a', ⟨a, labels', ha, hlabels⟩, hlast⟩

end System

end CppWorkspace.Lib
