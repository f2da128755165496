import CppWorkspace.Coro.NestedFrames

/-!
What every part of an operation keeps. A frame that exists has one owner; no pending
destruction reaches an object that the rest of the operation uses.
-/

namespace CppWorkspace.Coro

open Lib System Relation Wrappers

variable {τ ν : Type}

namespace Wrappers

variable {w w' w'' : Nest τ ν} {o other x : WrapperObject τ ν} {f : ℕ} {contents : Contents τ ν}

theorem owns_iff : w.Owns o x ↔
    ∃ f contents, w.handle o = some f ∧ w.frames f = some contents ∧ x ∈ contents.objects := by
  unfold Owns owned
  constructor
  · intro hx
    split at hx
    · next contents h =>
      obtain ⟨f, hf, hcontents⟩ := Option.bind_eq_some_iff.mp h
      exact ⟨f, contents, hf, hcontents, hx⟩
    · exact absurd hx List.not_mem_nil
  · rintro ⟨f, contents, hf, hcontents, hx⟩
    rw [hf, Option.bind_some, hcontents]
    exact hx

theorem mem_alive (h : w.frames f = some contents) : f ∈ w.alive := by
  show (w.frames f).isSome = true
  rw [h]
  rfl

/-- An object has frames of its own class only. -/
def Kinds (w : Nest τ ν) : Prop := ∀ o f contents, w.handle o = some f →
  w.frames f = some contents → contents.kind = o.1

/-- Objects have lost their handles, and frames have come to an end or lost objects. -/
structure Shrinks (w w' : Nest τ ν) : Prop where
  handle : ∀ x f, w'.handle x = some f → w.handle x = some f
  frames : ∀ f contents, w'.frames f = some contents → ∃ before, w.frames f = some before ∧
    contents.kind = before.kind ∧ contents.objects.Sublist before.objects

namespace Shrinks

theorem refl (w : Nest τ ν) : Shrinks w w where
  handle _ _ h := h
  frames _ contents h := ⟨contents, h, rfl, .refl _⟩

theorem trans (h : Shrinks w w') (h' : Shrinks w' w'') : Shrinks w w'' where
  handle x f hx := h.handle x f (h'.handle x f hx)
  frames f contents hcontents := by
    obtain ⟨middle, hmiddle, hkind, hobjects⟩ := h'.frames f contents hcontents
    obtain ⟨before, hbefore, hkind', hobjects'⟩ := h.frames f middle hmiddle
    exact ⟨before, hbefore, hkind.trans hkind', hobjects.trans hobjects'⟩

theorem owns (h : Shrinks w w') (howns : w'.Owns o x) : w.Owns o x := by
  obtain ⟨f, contents, hf, hcontents, hx⟩ := owns_iff.mp howns
  obtain ⟨before, hbefore, -, hobjects⟩ := h.frames f contents hcontents
  exact owns_iff.mpr ⟨f, before, h.handle o f hf, hbefore, hobjects.subset hx⟩

theorem transGen (h : Shrinks w w') (howns : TransGen w'.Owns o x) : TransGen w.Owns o x :=
  TransGen.mono (fun _ _ => h.owns) _ _ howns

theorem not_mem_alive (h : Shrinks w w') (hf : f ∉ w.alive) : f ∉ w'.alive := by
  intro hf'
  obtain ⟨contents, hcontents⟩ := Option.isSome_iff_exists.mp hf'
  obtain ⟨before, hbefore, -, -⟩ := h.frames f contents hcontents
  exact hf (mem_alive hbefore)

end Shrinks

/-- The objects in frames exist, each in one place. -/
structure Housed (w : Nest τ ν) : Prop where
  present : ∀ f contents x, w.frames f = some contents → x ∈ contents.objects →
    w.hasObject x = true
  nodup : ∀ f contents, w.frames f = some contents → contents.objects.Nodup
  home : ∀ f f' contents contents' x, w.frames f = some contents →
    w.frames f' = some contents' → x ∈ contents.objects → x ∈ contents'.objects → f = f'

theorem Housed.init (stats : FrameStats) : (Wrappers.init stats : Nest τ ν).Housed where
  present _ _ _ h := nomatch h
  nodup _ _ h := nomatch h
  home _ _ _ _ _ h := nomatch h

theorem Shrinks.housed (h : Shrinks w w') (hhoused : w.Housed)
    (hpresent : ∀ f contents x, w'.frames f = some contents → x ∈ contents.objects →
      w.hasObject x = true → w'.hasObject x = true) : w'.Housed where
  present f contents x hcontents hx := by
    obtain ⟨before, hbefore, -, hobjects⟩ := h.frames f contents hcontents
    exact hpresent f contents x hcontents hx
      (hhoused.present f before x hbefore (hobjects.subset hx))
  nodup f contents hcontents := by
    obtain ⟨before, hbefore, -, hobjects⟩ := h.frames f contents hcontents
    exact (hhoused.nodup f before hbefore).sublist hobjects
  home f f' contents contents' x hcontents hcontents' hx hx' := by
    obtain ⟨before, hbefore, -, hobjects⟩ := h.frames f contents hcontents
    obtain ⟨before', hbefore', -, hobjects'⟩ := h.frames f' contents' hcontents'
    exact hhoused.home f f' before before' x hbefore hbefore' (hobjects.subset hx)
      (hobjects'.subset hx')

section Placed

variable {home : Option ℕ} {start : UInt64}

/-- An object is made in a frame: the frame has it, and nothing else has changed. -/
theorem place_frames (h : w.place o home = some w') {f : ℕ} {contents : Contents τ ν}
    (hcontents : w'.frames f = some contents) : ∃ before, w.frames f = some before ∧
      contents.kind = before.kind ∧ (contents.objects = before.objects ∨
        home = some f ∧ contents.objects = o :: before.objects) := by
  cases home with
  | none =>
      cases h
      exact ⟨contents, hcontents, rfl, .inl rfl⟩
  | some g =>
      obtain ⟨before, hbefore, rfl⟩ := Option.map_eq_some_iff.mp h
      by_cases heq : f = g
      · subst heq
        rw [frames_setFrame_self] at hcontents
        cases hcontents
        exact ⟨before, hbefore, rfl, .inr ⟨rfl, rfl⟩⟩
      · rw [frames_setFrame_of_ne heq] at hcontents
        exact ⟨contents, hcontents, rfl, .inl rfl⟩

theorem place_rest (h : w.place o home = some w') : w'.handles = w.handles ∧
    w'.nextFrame = w.nextFrame ∧ w'.destroyed = w.destroyed := by
  cases home with
  | none =>
      cases h
      exact ⟨rfl, rfl, rfl⟩
  | some g =>
      obtain ⟨before, -, rfl⟩ := Option.map_eq_some_iff.mp h
      exact ⟨rfl, rfl, rfl⟩

theorem hasObject_place (h : w.place o home = some w') (x : WrapperObject τ ν) :
    w'.hasObject x = w.hasObject x := by
  rw [hasObject, hasObject, (place_rest h).1]

theorem place_owned (howned : w.Owned start) (h : w.place o home = some w') :
    w'.Owned start := by
  cases home with
  | none =>
      cases h
      exact howned
  | some g =>
      obtain ⟨before, hbefore, rfl⟩ := Option.map_eq_some_iff.mp h
      exact howned.setFrame (mem_alive hbefore) _

theorem Kinds.place (h : w.Kinds) (hplace : w.place o home = some w') : w'.Kinds := by
  intro x f contents hf hcontents
  obtain ⟨before, hbefore, hkind, -⟩ := place_frames hplace hcontents
  rw [handle, (place_rest hplace).1] at hf
  exact hkind.trans (h x f before hf hbefore)

/-- A new object has one place, and the others keep theirs. -/
theorem Housed.made (h : w.Housed) (home : Option ℕ) (ho : w.hasObject o = false)
    (hmade : w'.hasObject o = true)
    (hkept : ∀ x, w.hasObject x = true → w'.hasObject x = true)
    (hframes : ∀ f contents, w'.frames f = some contents → contents.objects = [] ∨
      ∃ before, w.frames f = some before ∧ (contents.objects = before.objects ∨
        home = some f ∧ contents.objects = o :: before.objects)) : w'.Housed := by
  have hnew : ∀ f before, w.frames f = some before → o ∉ before.objects := by
    intro f before hbefore hmem
    rw [h.present f before o hbefore hmem] at ho
    cases ho
  have hplace : ∀ f contents x, w'.frames f = some contents → x ∈ contents.objects →
      (x = o ∧ home = some f) ∨
        x ≠ o ∧ ∃ before, w.frames f = some before ∧ x ∈ before.objects := by
    intro f contents x hcontents hx
    rcases hframes f contents hcontents with hnone | ⟨before, hbefore, hsame | ⟨hhome, hcons⟩⟩
    · rw [hnone] at hx
      exact absurd hx List.not_mem_nil
    · rw [hsame] at hx
      exact .inr ⟨fun heq => hnew f before hbefore (heq ▸ hx), before, hbefore, hx⟩
    · rw [hcons] at hx
      rcases List.mem_cons.mp hx with rfl | hx
      · exact .inl ⟨rfl, hhome⟩
      · exact .inr ⟨fun heq => hnew f before hbefore (heq ▸ hx), before, hbefore, hx⟩
  refine ⟨fun f contents x hcontents hx => ?_, fun f contents hcontents => ?_,
    fun f f' contents contents' x hcontents hcontents' hx hx' => ?_⟩
  · rcases hplace f contents x hcontents hx with ⟨rfl, -⟩ | ⟨-, before, hbefore, hx⟩
    · exact hmade
    · exact hkept x (h.present f before x hbefore hx)
  · rcases hframes f contents hcontents with hnone | ⟨before, hbefore, hsame | ⟨-, hcons⟩⟩
    · rw [hnone]
      exact .nil
    · rw [hsame]
      exact h.nodup f before hbefore
    · rw [hcons]
      exact List.nodup_cons.mpr ⟨hnew f before hbefore, h.nodup f before hbefore⟩
  · rcases hplace f contents x hcontents hx with ⟨heq, hhome⟩ | ⟨hne, before, hbefore, hx⟩
    · rcases hplace f' contents' x hcontents' hx' with ⟨-, hhome'⟩ | ⟨hne, -⟩
      · exact Option.some.inj (hhome.symm.trans hhome')
      · exact absurd heq hne
    · rcases hplace f' contents' x hcontents' hx' with ⟨heq, -⟩ | ⟨-, before', hbefore', hx'⟩
      · exact absurd heq hne
      · exact h.home f f' before before' x hbefore hbefore' hx hx'

end Placed

theorem shrinks_stats (w : Nest τ ν) (stats : FrameStats) : Shrinks w { w with stats := stats } where
  handle _ _ h := h
  frames _ contents h := ⟨contents, h, rfl, .refl _⟩

theorem alive_endFrame (w : Nest τ ν) (f : ℕ) : (w.endFrame f).alive = w.alive \ {f} :=
  alive_destroyFrame w f

theorem frames_endFrame_of_ne {f' : ℕ} (h : f' ≠ f) :
    (w.endFrame f).frames f' = w.frames f' := Function.update_of_ne h ..

theorem frames_endFrame {f' : ℕ} (h : (w.endFrame f).frames f' = some contents) :
    f' ≠ f ∧ w.frames f' = some contents := by
  have hne : f' ≠ f := by
    rintro rfl
    rw [show (w.endFrame f').frames f' = none from Function.update_self ..] at h
    cases h
  exact ⟨hne, (frames_endFrame_of_ne hne).symm.trans h⟩

theorem shrinks_endFrame (w : Nest τ ν) (f : ℕ) : Shrinks w (w.endFrame f) where
  handle _ _ h := h
  frames _ contents h := ⟨contents, (frames_endFrame h).2, rfl, .refl _⟩

/-- The objects in other frames are where they were. -/
theorem Owns.endFrame (h : w.Owns o x) (hf : w.handle o ≠ some f) : (w.endFrame f).Owns o x := by
  obtain ⟨f', contents, hf', hcontents, hx⟩ := owns_iff.mp h
  have hne : f' ≠ f := by
    rintro rfl
    exact hf hf'
  exact owns_iff.mpr ⟨f', contents, hf', (frames_endFrame_of_ne hne).trans hcontents, hx⟩

variable [DecidableEq τ] [DecidableEq ν]

theorem frames_create_self (size : UInt64) :
    (w.create o size contents).frames w.nextFrame = some contents := Function.update_self ..

theorem frames_create_of_ne {size : UInt64} {contents' : Contents τ ν} (h : f ≠ w.nextFrame) :
    (w.create o size contents').frames f = w.frames f := Function.update_of_ne h ..

theorem Kinds.create {start : UInt64} (h : w.Kinds) (howned : w.Owned start) (size : UInt64) :
    (w.create o size ⟨o.1, []⟩).Kinds := by
  intro x f contents hf hcontents
  rw [handle_create] at hf
  by_cases heq : x = o
  · subst heq
    rw [Function.update_self] at hf
    cases hf
    rw [frames_create_self] at hcontents
    cases hcontents
    rfl
  · rw [Function.update_of_ne heq] at hf
    have hne : f ≠ w.nextFrame := by
      rintro rfl
      exact howned.lifetimes.not_mem_alive (howned.exclusive.mem_alive x _ hf)
    rw [frames_create_of_ne hne] at hcontents
    exact h x f contents hf hcontents

theorem Kinds.exchange (h : w.Kinds) (hne : o ≠ other) (hkind : o.1 = other.1) :
    (w.exchange o other).Kinds := by
  intro x f contents hf hcontents
  rw [handle_exchange w hne] at hf
  by_cases hother : x = other
  · rw [hother, Function.update_self] at hf
    cases hf
  · rw [Function.update_of_ne hother] at hf
    by_cases ho : x = o
    · rw [ho, Function.update_self] at hf
      rw [ho, hkind]
      exact h other f contents hf hcontents
    · rw [Function.update_of_ne ho] at hf
      exact h x f contents hf hcontents

theorem hasObject_setHandle_self (w : Nest τ ν) (o : WrapperObject τ ν) (h : Option ℕ) :
    (w.setHandle o h).hasObject o = true := by
  rw [hasObject, setHandle]
  simp

theorem hasObject_setHandle (w : Nest τ ν) (h : Option ℕ) (hx : w.hasObject x = true) :
    (w.setHandle o h).hasObject x = true := by
  by_cases heq : x = o
  · rw [heq]
    exact hasObject_setHandle_self w o h
  · rw [hasObject] at hx ⊢
    rw [setHandle]
    simp only [Function.update_of_ne heq]
    exact hx

theorem shrinks_setHandle (w : Nest τ ν) (o : WrapperObject τ ν) :
    Shrinks w (w.setHandle o none) where
  handle x f h := by
    rw [handle_setHandle] at h
    by_cases heq : x = o
    · rw [heq, Function.update_self] at h
      cases h
    · rwa [Function.update_of_ne heq] at h
  frames _ contents h := ⟨contents, h, rfl, .refl _⟩

theorem handle_forget (w : Nest τ ν) (o : WrapperObject τ ν) :
    (w.forget o).handle = Function.update w.handle o none := by
  funext x
  by_cases heq : x = o
  · subst heq
    simp [handle, forget]
  · simp [handle, forget, heq]

theorem hasObject_forget_self (w : Nest τ ν) (o : WrapperObject τ ν) :
    (w.forget o).hasObject o = false := by
  simp [hasObject, forget]

theorem hasObject_forget (hne : x ≠ o) : (w.forget o).hasObject x = w.hasObject x :=
  congrArg Option.isSome (Function.update_of_ne hne ..)

theorem alive_forget (w : Nest τ ν) (o : WrapperObject τ ν) : (w.forget o).alive = w.alive := by
  ext f
  show ((w.frames f).map _).isSome = true ↔ (w.frames f).isSome = true
  rw [Option.isSome_map]

theorem frames_forget (h : (w.forget o).frames f = some contents) :
    ∃ before, w.frames f = some before ∧ contents.kind = before.kind ∧
      contents.objects = before.objects.filter (· ≠ o) := by
  obtain ⟨before, hbefore, rfl⟩ := Option.map_eq_some_iff.mp h
  exact ⟨before, hbefore, rfl, rfl⟩

theorem shrinks_forget (w : Nest τ ν) (o : WrapperObject τ ν) : Shrinks w (w.forget o) where
  handle x f h := by
    rw [handle_forget] at h
    by_cases heq : x = o
    · rw [heq, Function.update_self] at h
      cases h
    · rwa [Function.update_of_ne heq] at h
  frames f contents h := by
    obtain ⟨before, hbefore, hkind, hobjects⟩ := frames_forget h
    exact ⟨before, hbefore, hkind, by rw [hobjects]; exact List.filter_sublist⟩

/-- Only the object itself is missing among those that the frames hold. -/
theorem Owns.forget {a : WrapperObject τ ν} (h : w.Owns a x) (ha : a ≠ o) (hx : x ≠ o) :
    (w.forget o).Owns a x := by
  obtain ⟨f, contents, hf, hcontents, hmem⟩ := owns_iff.mp h
  refine owns_iff.mpr ⟨f, { contents with objects := contents.objects.filter (· ≠ o) }, ?_, ?_, ?_⟩
  · rw [handle_forget, Function.update_of_ne ha, hf]
  · rw [Wrappers.forget]
    simp only [hcontents, Option.map_some]
  · simpa using ⟨hmem, hx⟩

end Wrappers

namespace Work

/-- The objects that the part of an operation uses. -/
def objects : Work τ ν → List (WrapperObject τ ν)
  | .destroy o | .clear o | .gone o => [o]
  | .operatorDelete => []
  | .exchange o other => [o, other]

/-- What may come later: a frame is destroyed once through an object, an object that is
gone is not used, and an exchange is the last. -/
def Before : Work τ ν → Work τ ν → Prop
  | .destroy o, next | .clear o, next => next ≠ .destroy o ∧ next ≠ .clear o
  | .gone o, next => o ∉ next.objects
  | .operatorDelete, _ => True
  | .exchange _ _, _ => False

end Work

section FrameWork

variable {part : Work τ ν} {o other x : WrapperObject τ ν} {objects : List (WrapperObject τ ν)}

theorem mem_frameWork : part ∈ frameWork o objects ↔
    (∃ x ∈ objects, part = .destroy x ∨ part = .gone x) ∨ part = .operatorDelete ∨
      part = .clear o := by
  simp [frameWork]

@[simp] theorem destroy_mem_frameWork : .destroy x ∈ frameWork o objects ↔ x ∈ objects := by
  simp [mem_frameWork]

@[simp] theorem gone_mem_frameWork : .gone x ∈ frameWork o objects ↔ x ∈ objects := by
  simp [mem_frameWork]

@[simp] theorem clear_mem_frameWork : .clear x ∈ frameWork o objects ↔ x = o := by
  simp [mem_frameWork]

@[simp] theorem exchange_not_mem_frameWork : .exchange x other ∉ frameWork o objects := by
  simp [mem_frameWork]

theorem count_frameWork [DecidableEq τ] [DecidableEq ν] (o : WrapperObject τ ν)
    (objects : List (WrapperObject τ ν)) :
    (frameWork o objects).count .operatorDelete = 1 := by
  have hnone : (objects.flatMap fun x => [Work.destroy x, .gone x]).count .operatorDelete = 0 :=
    List.count_eq_zero.mpr (by simp)
  rw [frameWork, List.count_append, hnone]
  simp

theorem pairwise_frameWork (hnodup : objects.Nodup) (ho : o ∉ objects) :
    (frameWork o objects).Pairwise Work.Before := by
  have hne : ∀ x ∈ objects, x ≠ o := fun x hx heq => ho (heq ▸ hx)
  rw [frameWork, List.pairwise_append, List.pairwise_flatMap]
  refine ⟨⟨fun x _ => by simp [Work.Before], hnodup.imp fun {x y} hxy => ?_⟩,
    by simp [Work.Before], ?_⟩
  · simpa [Work.Before, Work.objects] using ⟨Ne.symm hxy, hxy⟩
  · intro before hbefore after hafter
    obtain ⟨x, hx, hpart⟩ := List.mem_flatMap.mp hbefore
    have hxo := hne x hx
    rcases List.mem_pair.mp hpart with rfl | rfl <;>
      rcases List.mem_pair.mp hafter with rfl | rfl <;>
        simp [Work.Before, Work.objects, hxo, Ne.symm hxo]

end FrameWork

namespace NestedWrappers

variable [DecidableEq τ] [DecidableEq ν]

/-- The handle of an object, if it is not that of a frame that has just come to its end. -/
def held (s : NestedWrappers τ ν) (o : WrapperObject τ ν) : Option ℕ :=
  if .clear o ∈ s.todo then none else s.wrappers.handle o

/-- What an operation has still to do can be done. No destruction reaches an object that
is used after it. -/
structure Pending (s : NestedWrappers τ ν) : Prop where
  present : ∀ part ∈ s.todo, ∀ x ∈ part.objects, s.wrappers.hasObject x = true
  order : s.todo.Pairwise Work.Before
  apart : ∀ o, .destroy o ∈ s.todo → ∀ part ∈ s.todo, ∀ x ∈ part.objects,
    ¬ TransGen s.wrappers.Owns o x
  cleared : ∀ o f, .clear o ∈ s.todo → s.wrappers.handle o = some f → f ∉ s.wrappers.alive
  emptied : ∀ o, .gone o ∈ s.todo → s.held o = none ∨ .destroy o ∈ s.todo
  exchanged : ∀ o other, .exchange o other ∈ s.todo →
    (s.held o = none ∨ .destroy o ∈ s.todo) ∧ o ≠ other ∧ o.1 = other.1

/-- One owner for each frame that exists, one destruction for each that existed, and the
count of those whose memory is not yet freed in `frame_stats`, which was `start` before
the first frame. -/
structure Sound (start : UInt64) (s : NestedWrappers τ ν) : Prop where
  defined : s.undefined = false
  exclusive : Exclusive s.held s.wrappers.alive
  lifetimes : Lifetimes s.wrappers.nextFrame s.wrappers.destroyed s.wrappers.alive
  live : s.wrappers.stats.liveFrames = start + UInt64.ofNat s.wrappers.nextFrame -
    UInt64.ofNat s.wrappers.destroyed.length + UInt64.ofNat (s.todo.count .operatorDelete)
  kinds : ∀ o f contents, s.held o = some f → s.wrappers.frames f = some contents →
    contents.kind = o.1
  housed : s.wrappers.Housed
  pending : s.Pending

section Parts

variable {w w' : Nest τ ν} {o other x : WrapperObject τ ν} {f : ℕ} {part : Work τ ν}
  {rest : List (Work τ ν)} {start : UInt64}

theorem held_eq {s : NestedWrappers τ ν} (h : .clear o ∉ s.todo) :
    s.held o = s.wrappers.handle o := if_neg h

theorem handle_of_held {s : NestedWrappers τ ν} (h : s.held o = some f) :
    s.wrappers.handle o = some f := by
  rw [held] at h
  split at h
  · cases h
  · exact h

theorem Pending.tail (h : Pending ⟨w, part :: rest, false⟩) (hshrinks : w.Shrinks w')
    (hpresent : ∀ later ∈ rest, ∀ x ∈ later.objects, w'.hasObject x = true)
    (hheld : held ⟨w', rest, false⟩ = held ⟨w, part :: rest, false⟩)
    (hnull : ∀ x, part = .destroy x → w.handle x = none) :
    Pending ⟨w', rest, false⟩ := by
  -- what a later part takes to be empty is so, or is still to be destroyed
  have hempty : ∀ y, (held ⟨w, part :: rest, false⟩ y = none ∨ .destroy y ∈ part :: rest) →
      held ⟨w', rest, false⟩ y = none ∨ .destroy y ∈ rest := by
    intro y hy
    rw [hheld]
    rcases hy with hnone | hdestroy
    · exact .inl hnone
    · rcases List.mem_cons.mp hdestroy with heq | hdestroy
      · refine .inl (Option.eq_none_iff_forall_ne_some.mpr fun g hg => ?_)
        exact Option.some_ne_none g ((handle_of_held hg).symm.trans (hnull y heq.symm))
      · exact .inr hdestroy
  refine ⟨hpresent, (List.pairwise_cons.mp h.order).2, fun y hy later hlater x hx howns => ?_,
    fun y g hy hg => ?_, fun y hy => hempty y (h.emptied y (List.mem_cons_of_mem _ hy)),
    fun y other hy => ?_⟩
  · exact h.apart y (List.mem_cons_of_mem _ hy) later (List.mem_cons_of_mem _ hlater) x hx
      (hshrinks.transGen howns)
  · exact hshrinks.not_mem_alive
      (h.cleared y g (List.mem_cons_of_mem _ hy) (hshrinks.handle y g hg))
  · obtain ⟨hbefore, hne, hkind⟩ := h.exchanged y other (List.mem_cons_of_mem _ hy)
    exact ⟨hempty y hbefore, hne, hkind⟩

/-- A part that destroys no frame. -/
theorem Sound.tail (h : Sound start ⟨w, part :: rest, false⟩) (hshrinks : w.Shrinks w')
    (hpending : Pending ⟨w', rest, false⟩)
    (hheld : held ⟨w', rest, false⟩ = held ⟨w, part :: rest, false⟩)
    (halive : w'.alive = w.alive) (hnext : w'.nextFrame = w.nextFrame)
    (hdestroyed : w'.destroyed = w.destroyed)
    (hlive : w.stats.liveFrames = w'.stats.liveFrames +
      UInt64.ofNat ([part].count .operatorDelete))
    (hhoused : w'.Housed) : Sound start ⟨w', rest, false⟩ where
  defined := rfl
  exclusive := by
    rw [hheld, halive]
    exact h.exclusive
  lifetimes := by
    rw [hnext, hdestroyed, halive]
    exact h.lifetimes
  live := by
    have hcount : (part :: rest).count .operatorDelete =
        [part].count .operatorDelete + rest.count .operatorDelete := by
      rw [← List.count_append, List.singleton_append]
    have hbefore := h.live
    simp only [hcount, hlive, UInt64.ofNat_add] at hbefore
    simp only [hnext, hdestroyed]
    grind
  kinds y g contents hg hcontents := by
    rw [hheld] at hg
    obtain ⟨before, hbefore, hkind, -⟩ := hshrinks.frames g contents hcontents
    exact hkind.trans (h.kinds y g before hg hbefore)
  housed := hhoused
  pending := hpending

/-- `destroy()` of an object that owns no frame. -/
theorem Sound.destroy_none (h : Sound start ⟨w, .destroy o :: rest, false⟩)
    (hnone : w.handle o = none) : Sound start ⟨w, rest, false⟩ := by
  have hheld : held ⟨w, rest, false⟩ = held ⟨w, .destroy o :: rest, false⟩ := by
    funext x
    simp [held]
  have hpending : Pending ⟨w, rest, false⟩ :=
    h.pending.tail (.refl w)
      (fun later hlater => h.pending.present later (List.mem_cons_of_mem _ hlater)) hheld
      fun x hx => by
        cases hx
        exact hnone
  exact h.tail (.refl w) hpending hheld rfl rfl rfl (by simp) h.housed

theorem Sound.clear (h : Sound start ⟨w, .clear o :: rest, false⟩) :
    Sound start ⟨w.setHandle o none, rest, false⟩ := by
  have horder := List.pairwise_cons.mp h.pending.order
  have hheld : held ⟨w.setHandle o none, rest, false⟩ = held ⟨w, .clear o :: rest, false⟩ := by
    funext x
    by_cases heq : x = o
    · subst heq
      have hlater : Work.clear x ∉ rest := fun hx => (horder.1 _ hx).2 rfl
      simp [held, hlater, handle_setHandle]
    · simp [held, handle_setHandle, heq]
  have hpending : Pending ⟨w.setHandle o none, rest, false⟩ :=
    h.pending.tail (shrinks_setHandle w o)
      (fun later hlater x hx => hasObject_setHandle w none
        (h.pending.present later (List.mem_cons_of_mem _ hlater) x hx)) hheld (by simp)
  exact h.tail (shrinks_setHandle w o) hpending hheld rfl rfl rfl (by simp [setHandle])
    ((shrinks_setHandle w o).housed h.housed fun _ _ _ _ _ => hasObject_setHandle w none)

theorem Sound.operatorDelete (h : Sound start ⟨w, .operatorDelete :: rest, false⟩) :
    Sound start ⟨{ w with stats := w.stats.operatorDelete }, rest, false⟩ := by
  have hshrinks := shrinks_stats w w.stats.operatorDelete
  have hheld : held ⟨{ w with stats := w.stats.operatorDelete }, rest, false⟩ =
      held ⟨w, .operatorDelete :: rest, false⟩ := by
    funext x
    simp [held, handle]
  have hpending : Pending ⟨{ w with stats := w.stats.operatorDelete }, rest, false⟩ :=
    h.pending.tail hshrinks
      (fun later hlater => h.pending.present later (List.mem_cons_of_mem _ hlater)) hheld (by simp)
  refine h.tail hshrinks hpending hheld rfl rfl rfl ?_ ⟨h.housed.present, h.housed.nodup,
    h.housed.home⟩
  change w.stats.liveFrames = w.stats.liveFrames - 1 + UInt64.ofNat 1
  grind

/-- An object that is gone has no frame any more. -/
theorem Pending.gone_handle (h : Pending ⟨w, .gone o :: rest, false⟩) : w.handle o = none := by
  have hlater : ∀ later ∈ rest, o ∉ later.objects := (List.pairwise_cons.mp h.order).1
  have hclear : Work.clear o ∉ Work.gone o :: rest := by
    intro hx
    have hmem : Work.clear o ∈ rest := by simpa using hx
    exact hlater _ hmem (List.mem_singleton_self o)
  rcases h.emptied o List.mem_cons_self with hnone | hdestroy
  · rwa [held_eq hclear] at hnone
  · have hx : Work.destroy o ∈ rest := by simpa using hdestroy
    exact absurd (List.mem_singleton_self o) (hlater _ hx)

theorem Sound.gone (h : Sound start ⟨w, .gone o :: rest, false⟩) :
    Sound start ⟨w.forget o, rest, false⟩ := by
  have hlater : ∀ later ∈ rest, o ∉ later.objects := (List.pairwise_cons.mp h.pending.order).1
  have hnone := h.pending.gone_handle
  have hheld : held ⟨w.forget o, rest, false⟩ = held ⟨w, .gone o :: rest, false⟩ := by
    funext x
    have hsame : (w.forget o).handle = w.handle := by
      rw [handle_forget, ← hnone, Function.update_eq_self]
    simp [held, hsame]
  have hpending : Pending ⟨w.forget o, rest, false⟩ :=
    h.pending.tail (shrinks_forget w o)
      (fun later hmem x hx => by
        have hne : x ≠ o := by
          rintro rfl
          exact hlater later hmem hx
        rw [hasObject_forget hne]
        exact h.pending.present later (List.mem_cons_of_mem _ hmem) x hx) hheld (by simp)
  refine h.tail (shrinks_forget w o) hpending hheld (alive_forget w o) rfl rfl (by simp [forget])
    ((shrinks_forget w o).housed h.housed fun f contents x hcontents hx hpresent => ?_)
  obtain ⟨before, -, -, hobjects⟩ := frames_forget hcontents
  have hne : x ≠ o := by
    rw [hobjects] at hx
    simpa using (List.mem_filter.mp hx).2
  rwa [hasObject_forget hne]

section Frame

variable {contents : Contents τ ν}

/-- The objects in a frame are not used by what comes after the frame's destruction. -/
theorem Pending.not_used (h : Pending ⟨w, .destroy o :: rest, false⟩) (hf : w.handle o = some f)
    (hcontents : w.frames f = some contents) (hx : x ∈ contents.objects) :
    x ≠ o ∧ ∀ later ∈ rest, x ∉ later.objects := by
  have howns : TransGen w.Owns o x := .single (owns_iff.mpr ⟨f, contents, hf, hcontents, hx⟩)
  refine ⟨?_, fun later hlater hmem => ?_⟩
  · rintro rfl
    exact h.apart x List.mem_cons_self _ List.mem_cons_self x (List.mem_singleton_self x) howns
  · exact h.apart o List.mem_cons_self later (List.mem_cons_of_mem _ hlater) x hmem howns

theorem Pending.held_frame (h : Pending ⟨w, .destroy o :: rest, false⟩) (f : ℕ)
    (contents : Contents τ ν) :
    held ⟨w.endFrame f, frameWork o contents.objects ++ rest, false⟩ =
      Function.update (held ⟨w, .destroy o :: rest, false⟩) o none := by
  funext x
  by_cases heq : x = o
  · subst heq
    have hmem : Work.clear x ∈ frameWork x contents.objects ++ rest :=
      List.mem_append_left _ (clear_mem_frameWork.mpr rfl)
    rw [Function.update_self, held, if_pos hmem]
  · have hsame : Work.clear x ∈ frameWork o contents.objects ++ rest ↔
        Work.clear x ∈ Work.destroy o :: rest := by
      simp [heq]
    rw [Function.update_of_ne heq, held, held]
    simp only [hsame]
    rfl

theorem Pending.frame (h : Pending ⟨w, .destroy o :: rest, false⟩) (hhoused : w.Housed)
    (hf : w.handle o = some f) (hcontents : w.frames f = some contents) :
    Pending ⟨w.endFrame f, frameWork o contents.objects ++ rest, false⟩ := by
  have horder := List.pairwise_cons.mp h.order
  have hunused := fun x hx => h.not_used hf hcontents (x := x) hx
  -- nothing is left that owns an object of the frame
  have hfree : ∀ y, ∀ x ∈ contents.objects, ¬ TransGen (w.endFrame f).Owns y x := by
    intro y x hx howns
    obtain ⟨z, -, hzx⟩ := TransGen.tail'_iff.mp howns
    obtain ⟨g, contents', hg, hcontents', hx'⟩ := owns_iff.mp hzx
    obtain ⟨hne, hbefore⟩ := frames_endFrame hcontents'
    exact hne (hhoused.home g f contents' contents x hbefore hcontents hx' hx)
  have hused : ∀ later ∈ frameWork o contents.objects ++ rest, ∀ x ∈ later.objects,
      x ∈ contents.objects ∨ ∃ before ∈ Work.destroy o :: rest, x ∈ before.objects := by
    intro later hlater x hx
    rcases List.mem_append.mp hlater with hnew | hold
    · rcases mem_frameWork.mp hnew with ⟨z, hz, rfl | rfl⟩ | rfl | rfl
      · exact .inl (by rwa [List.mem_singleton.mp hx])
      · exact .inl (by rwa [List.mem_singleton.mp hx])
      · exact absurd hx List.not_mem_nil
      · exact .inr ⟨_, List.mem_cons_self, hx⟩
    · exact .inr ⟨later, List.mem_cons_of_mem _ hold, hx⟩
  have hheld := h.held_frame f contents
  have hempty : ∀ y, (held ⟨w, .destroy o :: rest, false⟩ y = none ∨
      Work.destroy y ∈ Work.destroy o :: rest) →
      held ⟨w.endFrame f, frameWork o contents.objects ++ rest, false⟩ y = none ∨
        Work.destroy y ∈ frameWork o contents.objects ++ rest := by
    intro y hy
    rw [hheld]
    by_cases heq : y = o
    · rw [heq, Function.update_self]
      exact .inl rfl
    · rw [Function.update_of_ne heq]
      refine hy.imp_right fun hmem => List.mem_append_right _ ?_
      simpa [heq] using hmem
  refine ⟨fun later hlater x hx => ?_, ?_, fun y hy later hlater x hx howns => ?_,
    fun y g hy hg => ?_, fun y hy => ?_, fun y other hy => ?_⟩
  · rcases hused later hlater x hx with hnew | ⟨before, hbefore, hx⟩
    · exact hhoused.present f contents x hcontents hnew
    · exact h.present before hbefore x hx
  · refine List.pairwise_append.mpr ⟨pairwise_frameWork (hhoused.nodup f contents hcontents)
      fun ho => (hunused o ho).1 rfl, horder.2, fun before hbefore after hafter => ?_⟩
    rcases mem_frameWork.mp hbefore with ⟨x, hx, rfl | rfl⟩ | rfl | rfl
    · have hnot := (hunused x hx).2 after hafter
      constructor <;>
        · rintro rfl
          exact hnot (List.mem_singleton_self x)
    · exact (hunused x hx).2 after hafter
    · trivial
    · exact horder.1 after hafter
  · rcases hused later hlater x hx with hnew | ⟨before, hbefore, hx⟩
    · exact hfree y x hnew howns
    · have hbefore' := (shrinks_endFrame w f).transGen howns
      rcases List.mem_append.mp hy with hnew | hold
      · have hz := destroy_mem_frameWork.mp hnew
        exact h.apart o List.mem_cons_self before hbefore x hx
          (TransGen.head (owns_iff.mpr ⟨f, contents, hf, hcontents, hz⟩) hbefore')
      · exact h.apart y (List.mem_cons_of_mem _ hold) before hbefore x hx hbefore'
  · rw [alive_endFrame]
    rintro ⟨halive, hne⟩
    rcases List.mem_append.mp hy with hnew | hold
    · rw [clear_mem_frameWork.mp hnew] at hg
      exact hne (Option.some.inj (hg.symm.trans hf))
    · exact h.cleared y g (List.mem_cons_of_mem _ hold) hg halive
  · rcases List.mem_append.mp hy with hnew | hold
    · have hz := gone_mem_frameWork.mp hnew
      exact .inr (List.mem_append_left _ (destroy_mem_frameWork.mpr hz))
    · exact hempty y (h.emptied y (List.mem_cons_of_mem _ hold))
  · rcases List.mem_append.mp hy with hnew | hold
    · exact absurd hnew exchange_not_mem_frameWork
    · obtain ⟨hbefore, hne, hkind⟩ := h.exchanged y other (List.mem_cons_of_mem _ hold)
      exact ⟨hempty y hbefore, hne, hkind⟩

theorem Pending.not_cleared (h : Pending ⟨w, .destroy o :: rest, false⟩) :
    Work.clear o ∉ Work.destroy o :: rest := by
  intro hx
  have hmem : Work.clear o ∈ rest := by simpa using hx
  exact ((List.pairwise_cons.mp h.order).1 _ hmem).2 rfl

theorem Sound.frame (h : Sound start ⟨w, .destroy o :: rest, false⟩) (hf : w.handle o = some f)
    (hcontents : w.frames f = some contents) :
    Sound start ⟨w.endFrame f, frameWork o contents.objects ++ rest, false⟩ := by
  have hheld : held ⟨w, .destroy o :: rest, false⟩ o = some f :=
    (held_eq h.pending.not_cleared).trans hf
  have hframe := h.pending.held_frame f contents
  refine ⟨rfl, ?_, ?_, ?_, fun y g contents' hg hcontents' => ?_, ?_,
    h.pending.frame h.housed hf hcontents⟩
  · rw [hframe, alive_endFrame]
    exact h.exclusive.release hheld
  · rw [alive_endFrame]
    exact h.lifetimes.release (mem_alive hcontents)
  · have hbefore := h.live
    have hcount : (Work.destroy o :: rest).count .operatorDelete = rest.count .operatorDelete := by
      simp
    simp only [hcount] at hbefore
    change w.stats.liveFrames = start + UInt64.ofNat w.nextFrame -
      UInt64.ofNat (w.destroyed ++ [f]).length + _
    rw [List.count_append, count_frameWork, List.length_append, List.length_singleton,
      UInt64.ofNat_add, UInt64.ofNat_add, hbefore]
    grind
  · rw [hframe] at hg
    by_cases heq : y = o
    · rw [heq, Function.update_self] at hg
      cases hg
    · rw [Function.update_of_ne heq] at hg
      exact h.kinds y g contents' hg (frames_endFrame hcontents').2
  · exact (shrinks_endFrame w f).housed h.housed fun _ _ _ _ _ hpresent => hpresent

end Frame

theorem Pending.nil (w : Nest τ ν) : Pending ⟨w, [], false⟩ where
  present _ h := absurd h List.not_mem_nil
  order := .nil
  apart _ h := absurd h List.not_mem_nil
  cleared _ _ h := absurd h List.not_mem_nil
  emptied _ h := absurd h List.not_mem_nil
  exchanged _ _ h := absurd h List.not_mem_nil

/-- Between two operations. -/
theorem Sound.owned (h : Sound start ⟨w, [], false⟩) : w.Owned start where
  exclusive := by
    have hheld : held ⟨w, [], false⟩ = w.handle := funext fun _ => held_eq List.not_mem_nil
    rw [← hheld]
    exact h.exclusive
  lifetimes := h.lifetimes
  live := by simpa using h.live

theorem Sound.of_owned (h : w.Owned start) (hkinds : w.Kinds) (hhoused : w.Housed) :
    Sound start ⟨w, [], false⟩ where
  defined := rfl
  exclusive := by
    have hheld : held ⟨w, [], false⟩ = w.handle := funext fun _ => held_eq List.not_mem_nil
    rw [hheld]
    exact h.exclusive
  lifetimes := h.lifetimes
  live := by simpa using h.live
  kinds o f contents hf := hkinds o f contents (handle_of_held hf)
  housed := hhoused
  pending := .nil w

theorem Sound.exchange (h : Sound start ⟨w, .exchange o other :: rest, false⟩) :
    rest = [] ∧ Sound start ⟨w.exchange o other, [], false⟩ := by
  have hrest : rest = [] := by
    refine List.eq_nil_iff_forall_not_mem.mpr fun later hlater => ?_
    exact (List.pairwise_cons.mp h.pending.order).1 later hlater
  subst hrest
  have hheld : held ⟨w, [.exchange o other], false⟩ = w.handle :=
    funext fun _ => held_eq (by simp)
  obtain ⟨hempty, hne, hkind⟩ := h.pending.exchanged o other List.mem_cons_self
  have hnone : w.handle o = none := by
    rw [hheld] at hempty
    simpa using hempty
  have howned : w.Owned start :=
    ⟨hheld ▸ h.exclusive, h.lifetimes, by simpa using h.live⟩
  have hkinds : w.Kinds := by
    rw [Kinds, ← hheld]
    exact h.kinds
  exact ⟨rfl, .of_owned (howned.exchange hnone hne) (hkinds.exchange hne hkind)
    ⟨fun f contents x hcontents hx => hasObject_setHandle _ _
      (hasObject_setHandle w none (h.housed.present f contents x hcontents hx)),
      h.housed.nodup, h.housed.home⟩⟩

/-- Every part of an operation can be done and keeps the frames in order. -/
theorem Sound.perform (h : Sound start ⟨w, part :: rest, false⟩) :
    ∃ w' more, w.perform part = some (w', more) ∧ Sound start ⟨w', more ++ rest, false⟩ := by
  have hpresent := h.pending.present part List.mem_cons_self
  cases part with
  | destroy o =>
      have ho := hpresent o (List.mem_singleton_self o)
      cases hf : w.handle o with
      | none =>
          refine ⟨w, [], ?_, h.destroy_none hf⟩
          rw [Wrappers.perform, if_pos ho, hf]
      | some f =>
          have halive : f ∈ w.alive :=
            h.exclusive.mem_alive o f ((held_eq h.pending.not_cleared).trans hf)
          obtain ⟨contents, hcontents⟩ := Option.isSome_iff_exists.mp halive
          refine ⟨w.endFrame f, frameWork o contents.objects, ?_, h.frame hf hcontents⟩
          rw [Wrappers.perform, if_pos ho, hf]
          simp only [hcontents, Option.map_some]
  | clear o =>
      exact ⟨w.setHandle o none, [], if_pos (hpresent o (List.mem_singleton_self o)), h.clear⟩
  | operatorDelete => exact ⟨_, [], rfl, h.operatorDelete⟩
  | gone o => exact ⟨w.forget o, [], if_pos (hpresent o (List.mem_singleton_self o)), h.gone⟩
  | exchange o other =>
      obtain ⟨rfl, hsound⟩ := h.exchange
      refine ⟨w.exchange o other, [], if_pos ⟨?_, ?_⟩, hsound⟩
      · exact hpresent o List.mem_cons_self
      · exact hpresent other (List.mem_cons_of_mem _ (List.mem_singleton_self other))

end Parts

section Begin

variable {w w' : Nest τ ν} {o other : WrapperObject τ ν} {start : UInt64}

theorem Sound.kinds_idle (h : Sound start ⟨w, [], false⟩) : w.Kinds := by
  intro o f contents hf
  exact h.kinds o f contents ((held_eq List.not_mem_nil).trans hf)

/-- The work of an operation begins. -/
theorem Sound.work {todo : List (Work τ ν)} (h : Sound start ⟨w, [], false⟩)
    (hclear : ∀ o, Work.clear o ∉ todo) (hdelete : Work.operatorDelete ∉ todo)
    (hpending : Pending ⟨w, todo, false⟩) : Sound start ⟨w, todo, false⟩ where
  defined := rfl
  exclusive := by
    have hheld : held ⟨w, todo, false⟩ = w.handle := funext fun o => held_eq (hclear o)
    rw [hheld]
    exact h.owned.exclusive
  lifetimes := h.lifetimes
  live := by
    have hlive := h.live
    have hnone : todo.count .operatorDelete = 0 := List.count_eq_zero.mpr hdelete
    simpa [hnone] using hlive
  kinds o f contents hf := h.kinds_idle o f contents (handle_of_held hf)
  housed := h.housed
  pending := hpending

theorem Pending.moveAssign (ho : w.hasObject o = true) (hother : w.hasObject other = true)
    (hne : o ≠ other) (hkind : o.1 = other.1) (hself : ¬ TransGen w.Owns o o)
    (hsource : ¬ TransGen w.Owns o other) :
    Pending ⟨w, [.destroy o, .exchange o other], false⟩ where
  present := by simp [Work.objects, ho, hother, -Prod.forall]
  order := by simp [Work.Before]
  apart := by simp [Work.objects, hself, hsource, -Prod.forall]
  cleared := by simp
  emptied := by simp
  exchanged := by simp [hne, hkind]

theorem Pending.destruct (ho : w.hasObject o = true) (hself : ¬ TransGen w.Owns o o) :
    Pending ⟨w, [.destroy o, .gone o], false⟩ where
  present := by simp [Work.objects, ho, -Prod.forall]
  order := by simp [Work.Before]
  apart := by simp [Work.objects, hself, -Prod.forall]
  cleared := by simp
  emptied := by simp
  exchanged := by simp

/-- An object is made, and then given a handle. -/
theorem Sound.made {w₁ : Nest τ ν} {home : Option ℕ} (h : Sound start ⟨w, [], false⟩)
    (hplace : w.place o home = some w₁) (ho : w.hasObject o = false) (howned : w'.Owned start)
    (hkinds : w'.Kinds) (hmade : w'.hasObject o = true)
    (hkept : ∀ x, w₁.hasObject x = true → w'.hasObject x = true)
    (hframes : ∀ f contents, w'.frames f = some contents →
      contents.objects = [] ∨ w₁.frames f = some contents) :
    Sound start ⟨w', [], false⟩ := by
  refine .of_owned howned hkinds (h.housed.made home ho hmade (fun x hx => ?_)
    fun f contents hcontents => (hframes f contents hcontents).imp_right fun hbefore => ?_)
  · exact hkept x ((hasObject_place hplace x).trans hx)
  · obtain ⟨before, hmem, -, hobjects⟩ := place_frames hplace hbefore
    exact ⟨before, hmem, hobjects⟩

theorem Sound.begin {op : NestedOp τ ν} {more : List (Work τ ν)}
    (h : Sound start ⟨w, [], false⟩) (hbegin : w.begin op = some (w', more))
    (hspares : w.Spares (some op)) : Sound start ⟨w', more, false⟩ := by
  cases op with
  | construct o home =>
      simp only [Wrappers.begin, Option.ite_none_left_eq_some] at hbegin
      obtain ⟨ho, hplaced⟩ := hbegin
      obtain ⟨w₁, hplace, heq⟩ := Option.map_eq_some_iff.mp hplaced
      cases heq
      have ho₁ := (hasObject_place hplace o).trans (by simpa using ho)
      refine h.made hplace (by simpa using ho) ((place_owned h.owned hplace).construct ho₁)
        (fun x f contents hf hcontents => ?_) (hasObject_setHandle_self w₁ o none)
        (fun x hx => hasObject_setHandle w₁ none hx) fun f contents hcontents => .inr hcontents
      rw [Wrappers.construct, handle_setHandle, ← handle_of_not_hasObject ho₁,
        Function.update_eq_self] at hf
      exact h.kinds_idle.place hplace x f contents hf hcontents
  | create o size home =>
      simp only [Wrappers.begin, Option.ite_none_left_eq_some] at hbegin
      obtain ⟨ho, hplaced⟩ := hbegin
      obtain ⟨w₁, hplace, heq⟩ := Option.map_eq_some_iff.mp hplaced
      cases heq
      have ho₁ := (hasObject_place hplace o).trans (by simpa using ho)
      have howned₁ := place_owned h.owned hplace
      refine h.made hplace (by simpa using ho) (howned₁.create ho₁ size _)
        (h.kinds_idle.place hplace |>.create howned₁ size) ?_ ?_ fun f contents hcontents => ?_
      · exact hasObject_setHandle_self w₁ o _
      · exact fun x hx => hasObject_setHandle w₁ _ hx
      · by_cases heq : f = w₁.nextFrame
        · subst heq
          rw [frames_create_self] at hcontents
          cases hcontents
          exact .inl rfl
        · rw [frames_create_of_ne heq] at hcontents
          exact .inr hcontents
  | moveConstruct o other home =>
      simp only [Wrappers.begin, Option.ite_none_right_eq_some] at hbegin
      obtain ⟨⟨ho, hother, hkind⟩, hplaced⟩ := hbegin
      obtain ⟨w₁, hplace, heq⟩ := Option.map_eq_some_iff.mp hplaced
      cases heq
      have ho₁ := (hasObject_place hplace o).trans ho
      have hother₁ := (hasObject_place hplace other).trans hother
      refine h.made hplace ho ((place_owned h.owned hplace).moveConstruct ho₁ hother₁)
        ((h.kinds_idle.place hplace).exchange (ne_of_hasObject ho hother) hkind)
        (hasObject_setHandle_self _ o _) (fun x hx => hasObject_setHandle _ _
          (hasObject_setHandle w₁ none hx)) fun f contents hcontents => .inr hcontents
  | moveAssign o other =>
      simp only [Wrappers.begin, Option.ite_none_right_eq_some] at hbegin
      obtain ⟨⟨ho, hother, hkind⟩, heq⟩ := hbegin
      cases heq
      split
      · exact h
      · next hne =>
        obtain ⟨hself, hsource⟩ := hspares hne
        exact h.work (by simp) (by simp) (.moveAssign ho hother hne hkind hself hsource)
  | destruct o =>
      simp only [Wrappers.begin, Option.ite_none_right_eq_some] at hbegin
      obtain ⟨ho, heq⟩ := hbegin
      cases heq
      exact h.work (by simp) (by simp) (.destruct ho hspares)

end Begin

end NestedWrappers

end CppWorkspace.Coro
