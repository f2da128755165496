import CppWorkspace.Coro.NestedDestruction

/-!
The runs of programs that handle wrapper objects. As long as no operation destroys the
frame in which its own object or the one it moves from lives, every frame has one owner
and one death; an assignment from an object in the frame that the target owns uses the
object after it is gone.
-/

namespace CppWorkspace.Coro

open Lib System Relation Wrappers

namespace NestedWrappers

variable {τ ν : Type} [DecidableEq τ] [DecidableEq ν] {s s' : NestedWrappers τ ν}
  {w w' : Nest τ ν} {o : WrapperObject τ ν} {part last : Work τ ν} {rest more : List (Work τ ν)}
  {label : Option (NestedOp τ ν)} {start : UInt64} {stats : FrameStats}

theorem step_part (h : w.perform part = some (w', more)) :
    step ⟨w, part :: rest, false⟩ none = some ⟨w', more ++ rest, false⟩ := by
  simp only [step, h]

theorem begin_of_step {op : NestedOp τ ν} (h : s.step (some op) = some s') :
    s.undefined = false ∧ s.todo = [] ∧ s'.undefined = false ∧
      s.wrappers.begin op = some (s'.wrappers, s'.todo) := by
  simp only [step, Option.ite_none_right_eq_some] at h
  obtain ⟨⟨hdefined, hidle⟩, hbegin⟩ := h
  obtain ⟨r, hr, rfl⟩ := Option.map_eq_some_iff.mp hbegin
  exact ⟨hdefined, hidle, rfl, hr⟩

theorem part_of_step (h : s.step none = some s') :
    s.undefined = false ∧ ∃ part rest, s.todo = part :: rest := by
  unfold step at h
  split at h
  · next heq => cases heq
  · next heq =>
    split at h
    · next part rest hdefined htodo => exact ⟨hdefined, part, rest, htodo⟩
    · cases h

theorem Sound.step (h : Sound start s) (hstep : s.step label = some s')
    (hspares : s.wrappers.Spares label) : Sound start s' := by
  obtain ⟨w, todo, undefined⟩ := s
  cases label with
  | some op =>
      obtain ⟨hdefined, hidle, hdefined', hbegin⟩ := begin_of_step hstep
      obtain rfl : todo = [] := hidle
      obtain rfl : undefined = false := hdefined
      have hnext := h.begin hbegin hspares
      rwa [← hdefined'] at hnext
  | none =>
      obtain ⟨hdefined, part, rest, htodo⟩ := part_of_step hstep
      obtain rfl : todo = part :: rest := htodo
      obtain rfl : undefined = false := hdefined
      obtain ⟨w', more, hperform, hsound⟩ := h.perform
      cases (step_part hperform).symm.trans hstep
      exact hsound

/-! Every operation ends: the parts that a destruction adds are those of a frame less. -/

def frameSize (frame : Option (Contents τ ν)) : ℕ :=
  frame.elim 0 fun contents => 2 * contents.objects.length + 2

def workLeft (s : NestedWrappers τ ν) : ℕ :=
  s.todo.length + ∑ f ∈ Finset.range s.wrappers.nextFrame, frameSize (s.wrappers.frames f)

omit [DecidableEq τ] [DecidableEq ν] in
theorem length_frameWork (o : WrapperObject τ ν) (objects : List (WrapperObject τ ν)) :
    (frameWork o objects).length = 2 * objects.length + 2 := by
  rw [frameWork, List.length_append, List.length_flatMap]
  simp [Nat.mul_comm]

omit [DecidableEq τ] [DecidableEq ν] in
theorem sum_endFrame {f : ℕ} {contents : Contents τ ν} (hlt : f < w.nextFrame)
    (hcontents : w.frames f = some contents) :
    ∑ g ∈ Finset.range w.nextFrame, frameSize ((w.endFrame f).frames g) +
      (frameWork o contents.objects).length =
        ∑ g ∈ Finset.range w.nextFrame, frameSize (w.frames g) := by
  have hmem : f ∈ Finset.range w.nextFrame := Finset.mem_range.mpr hlt
  have hothers : ∑ g ∈ (Finset.range w.nextFrame).erase f, frameSize ((w.endFrame f).frames g) =
      ∑ g ∈ (Finset.range w.nextFrame).erase f, frameSize (w.frames g) :=
    Finset.sum_congr rfl fun g hg => by rw [frames_endFrame_of_ne (Finset.ne_of_mem_erase hg)]
  have hgone : frameSize ((w.endFrame f).frames f) = 0 := by
    simp [frameSize, endFrame]
  have hsize : frameSize (w.frames f) = (frameWork o contents.objects).length := by
    rw [hcontents, length_frameWork]
    rfl
  rw [← Finset.add_sum_erase _ _ hmem, ← Finset.add_sum_erase _ (fun g => frameSize (w.frames g))
    hmem, hothers, hgone, hsize]
  omega

theorem Sound.workLeft_lt (h : Sound start ⟨w, part :: rest, false⟩)
    (hperform : w.perform part = some (w', more)) :
    workLeft ⟨w', more ++ rest, false⟩ < workLeft ⟨w, part :: rest, false⟩ := by
  have hpresent := h.pending.present part List.mem_cons_self
  cases part with
  | destroy o =>
      rw [Wrappers.perform, if_pos (hpresent o (List.mem_singleton_self o))] at hperform
      split at hperform
      · cases hperform
        simp [workLeft]
      · next f hf =>
        obtain ⟨contents, hcontents, heq⟩ := Option.map_eq_some_iff.mp hperform
        cases heq
        have hlt : f < w.nextFrame := ((h.lifetimes.alive_iff f).mp (mem_alive hcontents)).1
        have hsum := sum_endFrame (o := o) hlt hcontents
        change (frameWork o contents.objects ++ rest).length +
          ∑ g ∈ Finset.range w.nextFrame, frameSize ((w.endFrame f).frames g) <
            (Work.destroy o :: rest).length +
              ∑ g ∈ Finset.range w.nextFrame, frameSize (w.frames g)
        rw [List.length_append, List.length_cons]
        omega
  | clear o =>
      rw [Wrappers.perform, if_pos (hpresent o (List.mem_singleton_self o))] at hperform
      cases hperform
      simp [workLeft, setHandle]
  | operatorDelete =>
      cases hperform
      simp [workLeft]
  | gone o =>
      rw [Wrappers.perform, if_pos (hpresent o (List.mem_singleton_self o))] at hperform
      cases hperform
      have hsum : ∑ g ∈ Finset.range w.nextFrame, frameSize ((w.forget o).frames g) ≤
          ∑ g ∈ Finset.range w.nextFrame, frameSize (w.frames g) := by
        refine Finset.sum_le_sum fun g _ => ?_
        cases hg : w.frames g with
        | none => simp [frameSize, forget, hg]
        | some contents =>
            have hle := List.length_filter_le (fun x => decide (x ≠ o)) contents.objects
            simp only [frameSize, forget, hg, Option.map_some, Option.elim_some]
            omega
      change rest.length + ∑ g ∈ Finset.range w.nextFrame, frameSize ((w.forget o).frames g) <
        (Work.gone o :: rest).length + _
      rw [List.length_cons]
      exact Nat.add_lt_add_of_lt_of_le (Nat.lt_succ_self _) hsum
  | exchange o other =>
      have ho := hpresent o List.mem_cons_self
      have hother := hpresent other (List.mem_cons_of_mem _ (List.mem_singleton_self other))
      rw [Wrappers.perform, if_pos ⟨ho, hother⟩] at hperform
      cases hperform
      simp [workLeft, Wrappers.exchange, setHandle]

theorem Sound.finishes (stats : FrameStats) (h : Sound start s) :
    ∃ parts last, (goingOn τ ν stats).Run s parts last ∧ last.todo = [] ∧ Sound start last := by
  induction hwork : s.workLeft using Nat.strong_induction_on generalizing s with
  | _ n ih =>
      obtain ⟨w, todo, undefined⟩ := s
      obtain rfl : undefined = false := h.defined
      cases todo with
      | nil => exact ⟨[], _, .nil, rfl, h⟩
      | cons part rest =>
          obtain ⟨w', more, hperform, hsound⟩ := h.perform
          have hlt := h.workLeft_lt hperform
          rw [hwork] at hlt
          obtain ⟨parts, last, hrun, hidle, hlast⟩ := ih _ hlt hsound rfl
          exact ⟨none :: parts, last, hrun.cons none ⟨rfl, step_part hperform⟩, hidle, hlast⟩

/-! What an operation that ends an object has done when it is over. -/

theorem ending_of_run {parts : List (Option (NestedOp τ ν))} (hstart : w.Owned start)
    (hsound : Sound start ⟨w, [.destroy o, last], false⟩)
    (hlast : ∀ (w₁ w₂ : Nest τ ν) more, w₁.perform last = some (w₂, more) → more = [])
    (hrun : (goingOn τ ν stats).Run ⟨w, [.destroy o, last], false⟩ parts s')
    (hidle : s'.todo = []) :
    ∃ w₁, Ending w o w₁ [] ∧ w₁.perform last = some (s'.wrappers, []) := by
  have hinv : (∃ w₁ todo, s' = ⟨w₁, todo ++ [last], false⟩ ∧ Ending w o w₁ todo ∧
      Sound start s') ∨
      ∃ w₁, Ending w o w₁ [] ∧ w₁.perform last = some (s'.wrappers, []) ∧ s'.todo = [] := by
    refine hrun.preserves (I := fun s => (∃ w₁ todo, s = ⟨w₁, todo ++ [last], false⟩ ∧
      Ending w o w₁ todo ∧ Sound start s) ∨
      ∃ w₁, Ending w o w₁ [] ∧ w₁.perform last = some (s.wrappers, []) ∧ s.todo = [])
      ?_ (.inl ⟨w, [.destroy o], rfl, .init w o, hsound⟩)
    rintro s₁ label s₂ hs₁ ⟨rfl, hstep⟩
    have hstep : s₁.step none = some s₂ := hstep
    rcases hs₁ with ⟨w₁, todo, rfl, hending, hsound₁⟩ | ⟨w₁, -, -, hidle₁⟩
    · cases todo with
      | nil =>
          obtain ⟨w₂, more, hperform, -⟩ := hsound₁.perform
          obtain rfl := hlast w₁ w₂ more hperform
          cases (step_part hperform).symm.trans hstep
          exact .inr ⟨w₁, hending, hperform, rfl⟩
      | cons part todo =>
          obtain ⟨w₂, more, hperform, hsound₂⟩ := hsound₁.perform
          cases (step_part hperform).symm.trans hstep
          refine .inl ⟨w₂, more ++ todo, ?_, hending.perform hstart hsound₁ hperform, hsound₂⟩
          rw [List.append_assoc]
          rfl
    · obtain ⟨-, part, rest, htodo⟩ := part_of_step hstep
      rw [hidle₁] at htodo
      cases htodo
  rcases hinv with ⟨w₁, todo, rfl, -, -⟩ | ⟨w₁, hending, hperform, -⟩
  · exact absurd hidle (by simp)
  · exact ⟨w₁, hending, hperform⟩

theorem Sound.effect {op : NestedOp τ ν} {middle : NestedWrappers τ ν}
    {parts : List (Option (NestedOp τ ν))} (h : Sound start s)
    (hspares : s.wrappers.Spares (some op)) (hstep : s.step (some op) = some middle)
    (hrun : (goingOn τ ν stats).Run middle parts s') (hidle : s'.todo = []) :
    op.Effect s.wrappers s'.wrappers := by
  obtain ⟨w, todo, undefined⟩ := s
  obtain ⟨w₁, todo₁, undefined₁⟩ := middle
  have hmiddle := h.step hstep hspares
  obtain ⟨hdefined, hnone, hdefined₁, hbegin⟩ := begin_of_step hstep
  obtain rfl : todo = [] := hnone
  obtain rfl : undefined = false := hdefined
  obtain rfl : undefined₁ = false := hdefined₁
  have hover : todo₁ = [] → op.Effect w s'.wrappers := by
    rintro rfl
    have hsame : s' = ⟨w₁, [], false⟩ := by
      refine hrun.preserves (I := fun s => s = ⟨w₁, [], false⟩) ?_ rfl
      rintro s₁ label s₂ rfl ⟨rfl, hlater⟩
      obtain ⟨-, part, rest, htodo⟩ := part_of_step hlater
      cases htodo
    rw [hsame]
    exact effect_of_begin hbegin
  cases op with
  | construct o home =>
      simp only [Wrappers.begin, Option.ite_none_left_eq_some] at hbegin
      obtain ⟨w₂, -, heq⟩ := Option.map_eq_some_iff.mp hbegin.2
      cases heq
      exact hover rfl
  | create o size home =>
      simp only [Wrappers.begin, Option.ite_none_left_eq_some] at hbegin
      obtain ⟨w₂, -, heq⟩ := Option.map_eq_some_iff.mp hbegin.2
      cases heq
      exact hover rfl
  | moveConstruct o other home =>
      simp only [Wrappers.begin, Option.ite_none_right_eq_some] at hbegin
      obtain ⟨w₂, -, heq⟩ := Option.map_eq_some_iff.mp hbegin.2
      cases heq
      exact hover rfl
  | moveAssign o other =>
      simp only [Wrappers.begin, Option.ite_none_right_eq_some] at hbegin
      obtain ⟨-, heq⟩ := hbegin
      cases heq
      by_cases heq : o = other
      · exact hover (if_pos heq)
      · rw [if_neg heq] at hmiddle hrun
        obtain ⟨hself, hsource⟩ := hspares heq
        obtain ⟨w₂, hending, hperform⟩ := ending_of_run h.owned hmiddle
          (fun w₃ w₄ more hlast => by
            simp only [Wrappers.perform, Option.ite_none_right_eq_some] at hlast
            cases hlast.2
            rfl) hrun hidle
        simp only [Wrappers.perform, Option.ite_none_right_eq_some, Option.some.injEq,
          Prod.mk.injEq] at hperform
        rw [← hperform.2.1]
        exact hending.effect_moveAssign h.owned heq hself hsource
  | destruct o =>
      simp only [Wrappers.begin, Option.ite_none_right_eq_some] at hbegin
      obtain ⟨-, heq⟩ := hbegin
      cases heq
      obtain ⟨w₂, hending, hperform⟩ := ending_of_run h.owned hmiddle
        (fun w₃ w₄ more hlast => by
          simp only [Wrappers.perform, Option.ite_none_right_eq_some] at hlast
          cases hlast.2
          rfl) hrun hidle
      simp only [Wrappers.perform, Option.ite_none_right_eq_some, Option.some.injEq,
        Prod.mk.injEq] at hperform
      rw [← hperform.2.1]
      exact hending.effect_destruct h.owned

end NestedWrappers

section Theorem

variable {τ ν : Type} [DecidableEq τ] [DecidableEq ν]

/-- Frames have one owner and one death, in every run in which no operation destroys the
frame that its own object or the one it moves from lives in. -/
theorem frames_owned_once {stats : FrameStats} {labels : List (Option (NestedOp τ ν))}
    {s : NestedWrappers τ ν}
    (hrun : ((nestedSystem τ ν stats).restrict fun s label => s.wrappers.Spares label).Run
      (.init stats) labels s) :
    s.undefined = false ∧ (∀ f ∈ s.wrappers.alive, ∃! o, s.wrappers.handle o = some f) ∧
      (∀ f < s.wrappers.nextFrame,
        s.wrappers.destroyed.count f = if f ∈ s.wrappers.alive then 0 else 1) ∧
      (∃ parts last, (goingOn τ ν stats).Run s parts last ∧ last.todo = []) ∧
      (s.todo = [] → (∀ o f, s.wrappers.handle o = some f →
          ∃ contents, s.wrappers.frames f = some contents ∧ contents.kind = o.1) ∧
        s.wrappers.stats.liveFrames =
          stats.liveFrames + UInt64.ofNat {f | ∃ o, s.wrappers.handle o = some f}.ncard ∧
        ∀ op middle parts last, s.wrappers.Spares (some op) → s.step (some op) = some middle →
          (goingOn τ ν stats).Run middle parts last → last.todo = [] →
            op.Effect s.wrappers last.wrappers) := by
  have hsound : s.Sound stats.liveFrames :=
    hrun.preserves (fun _ _ _ h hstep => h.step hstep.2 hstep.1)
      (.of_owned (.init stats) (fun _ _ _ hf => by cases hf) (.init stats))
  obtain ⟨parts, last, hfinish, hidle, -⟩ := hsound.finishes stats
  refine ⟨hsound.defined, fun f hf => ?_, fun f hf => hsound.lifetimes.count_released hf,
    ⟨parts, last, hfinish, hidle⟩, fun hnone => ?_⟩
  · obtain ⟨o, ho⟩ := hsound.exclusive.owner f hf
    exact ⟨o, NestedWrappers.handle_of_held ho, fun o' ho' =>
      hsound.unique ho' (NestedWrappers.handle_of_held ho) hf⟩
  · obtain ⟨w, todo, undefined⟩ := s
    obtain rfl : todo = [] := hnone
    obtain rfl : undefined = false := hsound.defined
    refine ⟨fun o f hf => ?_, hsound.owned.liveFrames_eq,
      fun op middle parts last hspares hstep hrun hidle => hsound.effect hspares hstep hrun hidle⟩
    obtain ⟨contents, hcontents⟩ :=
      Option.isSome_iff_exists.mp (hsound.owned.exclusive.mem_alive o f hf)
    exact ⟨contents, hcontents, hsound.kinds_idle o f contents hf hcontents⟩

end Theorem

/-! A test of the condition, and what happens where it fails. -/

section Test

variable {τ ν : Type} [DecidableEq τ] [DecidableEq ν] {w : Nest τ ν} {o x : WrapperObject τ ν}

/-- The objects in the frame of an object, in their frames, and so on, `depth` frames down. -/
def Wrappers.below (w : Nest τ ν) : ℕ → WrapperObject τ ν → List (WrapperObject τ ν)
  | 0, _ => []
  | depth + 1, o => (w.owned o).flatMap fun x => x :: w.below depth x

/-- There is nothing further down. -/
def Wrappers.endsBelow (w : Nest τ ν) (depth : ℕ) (o : WrapperObject τ ν) : Bool :=
  (w.owned o ++ (w.below depth o).flatMap w.owned).all (· ∈ w.below depth o)

theorem Wrappers.mem_below {depth : ℕ} (h : w.endsBelow depth o = true)
    (howns : TransGen w.Owns o x) : x ∈ w.below depth o := by
  simp only [endsBelow, List.all_eq_true, decide_eq_true_eq] at h
  refine mem_of_transGen howns (fun y hy => h y (List.mem_append_left _ hy)) fun y z hy hz => ?_
  exact h z (List.mem_append_right _ (List.mem_flatMap.mpr ⟨y, hy, hz⟩))

/-- A test that suffices for an operation to spare the objects it uses. -/
def Wrappers.sparesWithin (w : Nest τ ν) (depth : ℕ) : Option (NestedOp τ ν) → Bool
  | some (.moveAssign o other) =>
      o = other || w.endsBelow depth o && o ∉ w.below depth o && other ∉ w.below depth o
  | some (.destruct o) => w.endsBelow depth o && o ∉ w.below depth o
  | some (.construct _ _) | some (.create _ _ _) | some (.moveConstruct _ _ _) | none => true

theorem Wrappers.spares_of_within {depth : ℕ} {label : Option (NestedOp τ ν)}
    (h : w.sparesWithin depth label = true) : w.Spares label := by
  cases label with
  | none => trivial
  | some op =>
      cases op with
      | construct _ _ => trivial
      | create _ _ _ => trivial
      | moveConstruct _ _ _ => trivial
      | moveAssign o other =>
          intro hne
          simp only [sparesWithin, hne, decide_false, Bool.false_or, Bool.and_eq_true,
            decide_eq_true_eq] at h
          obtain ⟨⟨hends, hself⟩, hsource⟩ := h
          exact ⟨fun howns => hself (mem_below hends howns),
            fun howns => hsource (mem_below hends howns)⟩
      | destruct o =>
          simp only [sparesWithin, Bool.and_eq_true, decide_eq_true_eq] at h
          exact fun howns => h.2 (mem_below h.1 howns)

/-- A step that passes the test. -/
def NestedWrappers.testedStep (depth : ℕ) (s : NestedWrappers τ ν)
    (label : Option (NestedOp τ ν)) : Option (NestedWrappers τ ν) :=
  if s.wrappers.sparesWithin depth label then s.step label else none

end Test

/-- A generator is moved into the frame of a task; the task is handed on, assigned to
itself, and overwrites another one, and is then destroyed with the generator in its
frame. -/
def nestedChain : List (Option (NestedOp Unit ℕ)) :=
  [some (.create (.task (), 0) 64 none), some (.create (.generator (), 0) 80 none),
    some (.moveConstruct (.generator (), 1) (.generator (), 0) (some 0)),
    some (.moveConstruct (.task (), 1) (.task (), 0) none),
    some (.moveAssign (.task (), 1) (.task (), 1)), some (.create (.task (), 2) 64 none),
    some (.moveAssign (.task (), 2) (.task (), 1))] ++ List.replicate 4 none ++
  [some (.create (.task (), 3) 64 none), some (.destruct (.task (), 2))] ++
    List.replicate 8 none

theorem frames_owned_once_nested : ∃ s : NestedWrappers Unit ℕ,
    ((nestedSystem Unit ℕ ⟨5, 9, 0⟩).restrict fun s label => s.wrappers.Spares label).Run
      (.init ⟨5, 9, 0⟩) nestedChain s ∧ s.todo = [] ∧ s.wrappers.destroyed = [2, 0, 1] ∧
      s.wrappers.hasObject (.generator (), 1) = false ∧
      (∃! o, s.wrappers.handle o = some 3) ∧ s.wrappers.stats.liveFrames = 6 ∧
      s.wrappers.stats.liveFrames =
        5 + UInt64.ofNat {f | ∃ o, s.wrappers.handle o = some f}.ncard := by
  have hend : (nestedChain.foldlM (NestedWrappers.testedStep 2) (.init ⟨5, 9, 0⟩)).map
      (fun s => (s.todo, s.wrappers.destroyed, s.wrappers.hasObject (.generator (), 1),
        decide (3 ∈ s.wrappers.alive), s.wrappers.stats.liveFrames)) =
      some ([], [2, 0, 1], false, true, 6) := by decide
  obtain ⟨s, hsteps, hs⟩ := Option.map_eq_some_iff.mp hend
  simp only [Prod.mk.injEq, decide_eq_true_eq] at hs
  obtain ⟨hidle, hdestroyed, hgone, halive, hlive⟩ := hs
  have hrun := Run.of_foldlM
    (S := (nestedSystem Unit ℕ ⟨5, 9, 0⟩).restrict fun s label => s.wrappers.Spares label)
    (fun s label s' hstep => by
      obtain ⟨htest, hstep⟩ := Option.ite_none_right_eq_some.mp hstep
      exact ⟨Wrappers.spares_of_within htest, hstep⟩) hsteps
  obtain ⟨-, howner, -, -, hbetween⟩ := frames_owned_once hrun
  exact ⟨s, hrun, hidle, hdestroyed, hgone, howner 3 halive, hlive, (hbetween hidle).2.1⟩

/-- `g = std::move(rest)`, where `rest` lives in the frame that `g` owns. -/
def restChain : List (Option (NestedOp Unit ℕ)) :=
  [some (.create (.generator (), 0) 80 none), some (.create (.generator (), 1) 80 none),
    some (.moveConstruct (.generator (), 2) (.generator (), 1) (some 0)),
    some (.moveAssign (.generator (), 0) (.generator (), 2))] ++ List.replicate 8 none

/-- `destroy()` has destroyed `rest` with its frame before its handle is read. -/
theorem moved_from_own_frame : ∃ s : NestedWrappers Unit ℕ,
    (nestedSystem Unit ℕ ⟨5, 9, 0⟩).Run (.init ⟨5, 9, 0⟩) restChain s ∧
      s.todo = [.exchange (.generator (), 0) (.generator (), 2)] ∧
      s.wrappers.hasObject (.generator (), 2) = false ∧ s.wrappers.destroyed = [0, 1] ∧
      s.undefined = true := by
  have hend : (restChain.foldlM NestedWrappers.step (.init ⟨5, 9, 0⟩)).map
      (fun s => (s.todo, s.wrappers.hasObject (.generator (), 2), s.wrappers.destroyed,
        s.undefined)) =
      some ([.exchange (.generator (), 0) (.generator (), 2)], false, [0, 1], true) := by decide
  obtain ⟨s, hsteps, hs⟩ := Option.map_eq_some_iff.mp hend
  simp only [Prod.mk.injEq] at hs
  have hrun := Run.of_foldlM (S := nestedSystem Unit ℕ ⟨5, 9, 0⟩) (fun _ _ _ h => h) hsteps
  exact ⟨s, hrun, hs⟩

end CppWorkspace.Coro
