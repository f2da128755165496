import CppWorkspace.Coro.NestedOwnership

/-!
What an operation does that ends an object: the frames that can be reached from it are
destroyed, the objects in them are gone, and everything else stays.
-/

namespace CppWorkspace.Coro

open Lib System Relation Wrappers

variable {τ ν : Type}

namespace NestedWrappers

section Ending

variable {w w' w'' : Nest τ ν} {o x y : WrapperObject τ ν} {f : ℕ} {part last : Work τ ν}
  {todo more rest : List (Work τ ν)} {start : UInt64} {contents : Contents τ ν}

/-- An operation that has begun with `w` is about to end `o`, and has come to `w'`. -/
structure Ending (w : Nest τ ν) (o : WrapperObject τ ν) (w' : Nest τ ν) (todo : List (Work τ ν)) :
    Prop where
  shrinks : w.Shrinks w'
  nextFrame : w'.nextFrame = w.nextFrame
  uses : ∀ part ∈ todo, ∀ x ∈ part.objects, ReflTransGen w.Owns o x
  goes : ∀ x, .gone x ∈ todo → TransGen w.Owns o x
  destroyed : ∃ frames, w'.destroyed = w.destroyed ++ frames ∧
    ∀ f ∈ frames, ∃ x, ReflTransGen w.Owns o x ∧ w.handle x = some f
  reached : ∀ x f, ReflTransGen w.Owns o x → w.handle x = some f → f ∈ w'.destroyed ∨
    w'.handle x = some f ∧ ∃ y, .destroy y ∈ todo ∧ ReflTransGen w'.Owns y x
  below : ∀ x, TransGen w.Owns o x → w'.hasObject x = false ∨ .gone x ∈ todo ∨
    ∃ y, .destroy y ∈ todo ∧ TransGen w'.Owns y x
  kept : ∀ x, ¬ ReflTransGen w.Owns o x → w'.handles x = w.handles x

theorem Ending.init (w : Nest τ ν) (o : WrapperObject τ ν) : Ending w o w [.destroy o] where
  shrinks := .refl w
  nextFrame := rfl
  uses part hpart x hx := by
    rw [List.mem_singleton.mp hpart] at hx
    rw [List.mem_singleton.mp hx]
  goes x hx := by simp at hx
  destroyed := ⟨[], (List.append_nil _).symm, fun _ h => absurd h List.not_mem_nil⟩
  reached x f hx hf := .inr ⟨hf, o, List.mem_singleton_self _, hx⟩
  below x hx := .inr (.inr ⟨o, List.mem_singleton_self _, hx⟩)
  kept _ _ := rfl

theorem mem_of_owns (hnull : ∀ y, part = .destroy y → w'.handle y = none)
    (hy : .destroy y ∈ part :: todo) (howns : TransGen w'.Owns y x) : .destroy y ∈ todo := by
  refine (List.mem_cons.mp hy).resolve_left fun heq => ?_
  obtain ⟨z, hz, -⟩ := TransGen.head'_iff.mp howns
  obtain ⟨g, -, hg, -, -⟩ := owns_iff.mp hz
  rw [hnull y heq.symm] at hg
  cases hg

/-- A part that destroys no frame. -/
theorem Ending.tail (h : Ending w o w' (part :: todo)) (hshrinks : w'.Shrinks w'')
    (hnext : w''.nextFrame = w'.nextFrame) (hdestroyed : w''.destroyed = w'.destroyed)
    (hnull : ∀ y, part = .destroy y → w'.handle y = none)
    (hpath : ∀ y x, .destroy y ∈ todo → TransGen w'.Owns y x → TransGen w''.Owns y x)
    (hhandle : ∀ x f, w.handle x = some f → w'.handle x = some f →
      f ∈ w'.destroyed ∨ w''.handle x = some f)
    (hgone : ∀ x, part = .gone x → w''.hasObject x = false)
    (hhas : ∀ x, w'.hasObject x = false → w''.hasObject x = false)
    (hkept : ∀ x, x ∉ part.objects → w''.handles x = w'.handles x) :
    Ending w o w'' todo where
  shrinks := h.shrinks.trans hshrinks
  nextFrame := hnext.trans h.nextFrame
  uses later hlater := h.uses later (List.mem_cons_of_mem _ hlater)
  goes x hx := h.goes x (List.mem_cons_of_mem _ hx)
  destroyed := by
    rw [hdestroyed]
    exact h.destroyed
  reached x f hx hf := by
    rw [hdestroyed]
    rcases h.reached x f hx hf with hmem | ⟨hf', y, hy, hyx⟩
    · exact .inl hmem
    · refine (hhandle x f hf hf').imp_right fun hf'' => ⟨hf'', y, ?_⟩
      rcases reflTransGen_iff_eq_or_transGen.mp hyx with rfl | htrans
      · refine ⟨(List.mem_cons.mp hy).resolve_left fun heq => ?_, .refl⟩
        rw [hnull x heq.symm] at hf'
        cases hf'
      · have hy' := mem_of_owns hnull hy htrans
        exact ⟨hy', (hpath y x hy' htrans).to_reflTransGen⟩
  below x hx := by
    rcases h.below x hx with hnone | hgo | ⟨y, hy, hyx⟩
    · exact .inl (hhas x hnone)
    · rcases List.mem_cons.mp hgo with heq | hgo
      · exact .inl (hgone x heq.symm)
      · exact .inr (.inl hgo)
    · have hy' := mem_of_owns hnull hy hyx
      exact .inr (.inr ⟨y, hy', hpath y x hy' hyx⟩)
  kept x hx := by
    have hmem : x ∉ part.objects := fun hmem =>
      hx (h.uses part List.mem_cons_self x hmem)
    exact (hkept x hmem).trans (h.kept x hx)

variable [DecidableEq τ] [DecidableEq ν]

/-- Two objects have the handle of a frame only if it has been destroyed. -/
theorem Sound.unique {s : NestedWrappers τ ν} (h : Sound start s)
    (hx : s.wrappers.handle x = some f) (hy : s.wrappers.handle y = some f)
    (hf : f ∈ s.wrappers.alive) : x = y := by
  have hheld : ∀ z, s.wrappers.handle z = some f → s.held z = some f := fun z hz =>
    (held_eq fun hclear => h.pending.cleared z f hclear hz hf).trans hz
  exact h.exclusive.unique x y f (hheld x hx) (hheld y hy)

/-- What is reached on ways that avoid `y` is still reached when the frame of `y` has come to
its end. -/
theorem Sound.transGen_endFrame {s : NestedWrappers τ ν} {a b : WrapperObject τ ν}
    (h : Sound start s) (hf : s.wrappers.handle y = some f)
    (hcontents : s.wrappers.frames f = some contents)
    (havoids : ¬ ReflTransGen s.wrappers.Owns a y) (hab : TransGen s.wrappers.Owns a b) :
    TransGen (s.wrappers.endFrame f).Owns a b := by
  refine transGen_of_steps hab fun c d hac hcd => hcd.endFrame fun hc => havoids ?_
  obtain rfl : c = y := h.unique hc hf (mem_alive hcontents)
  exact hac

theorem Sound.reflTransGen_endFrame {s : NestedWrappers τ ν} {a b : WrapperObject τ ν}
    (h : Sound start s) (hf : s.wrappers.handle y = some f)
    (hcontents : s.wrappers.frames f = some contents)
    (havoids : ¬ ReflTransGen s.wrappers.Owns a y) (hab : ReflTransGen s.wrappers.Owns a b) :
    ReflTransGen (s.wrappers.endFrame f).Owns a b := by
  rcases reflTransGen_iff_eq_or_transGen.mp hab with rfl | htrans
  · exact .refl
  · exact (h.transGen_endFrame hf hcontents havoids htrans).to_reflTransGen

theorem Ending.frame (h : Ending w o w' (.destroy y :: todo))
    (hsound : Sound start ⟨w', .destroy y :: rest, false⟩) (hsub : todo ⊆ rest)
    (hf : w'.handle y = some f) (hcontents : w'.frames f = some contents) :
    Ending w o (w'.endFrame f) (frameWork y contents.objects ++ todo) := by
  have hy : ReflTransGen w.Owns o y :=
    h.uses _ List.mem_cons_self y (List.mem_singleton_self y)
  have howns : ∀ z ∈ contents.objects, w'.Owns y z := fun z hz =>
    owns_iff.mpr ⟨f, contents, hf, hcontents, hz⟩
  have hbelow : ∀ z ∈ contents.objects, TransGen w.Owns o z := fun z hz =>
    .tail' hy (h.shrinks.owns (howns z hz))
  have hapart : ∀ z, .destroy z ∈ Work.destroy y :: todo → ¬ TransGen w'.Owns z y :=
    fun z hz => hsound.pending.apart z (List.cons_subset_cons _ hsub hz) _ List.mem_cons_self y
      (List.mem_singleton_self y)
  -- neither the objects of the frame nor the others that are to be destroyed lead to `y`
  have hother : ∀ z, z ≠ y → .destroy z ∈ todo → ¬ ReflTransGen w'.Owns z y := by
    intro z hne hz hzy
    rcases reflTransGen_iff_eq_or_transGen.mp hzy with heq | htrans
    · exact hne heq.symm
    · exact hapart z (List.mem_cons_of_mem _ hz) htrans
  have hinner : ∀ z ∈ contents.objects, ¬ ReflTransGen w'.Owns z y := fun z hz hzy =>
    hapart y List.mem_cons_self (.head' (howns z hz) hzy)
  have hobjects : ∀ z, w'.Owns y z → z ∈ contents.objects := by
    intro z hz
    obtain ⟨g, contents', hg, hcontents', hz⟩ := owns_iff.mp hz
    cases hf.symm.trans hg
    cases hcontents.symm.trans hcontents'
    exact hz
  have hdestroy : ∀ z ∈ contents.objects, .destroy z ∈ frameWork y contents.objects ++ todo :=
    fun z hz => List.mem_append_left _ (destroy_mem_frameWork.mpr hz)
  refine ⟨h.shrinks.trans (shrinks_endFrame w' f), h.nextFrame, fun part hpart x hx => ?_,
    fun x hx => ?_, ?_, fun x g hx hg => ?_, fun x hx => ?_, h.kept⟩
  · rcases List.mem_append.mp hpart with hnew | hold
    · rcases mem_frameWork.mp hnew with ⟨z, hz, rfl | rfl⟩ | rfl | rfl
      · rw [List.mem_singleton.mp hx]
        exact (hbelow z hz).to_reflTransGen
      · rw [List.mem_singleton.mp hx]
        exact (hbelow z hz).to_reflTransGen
      · exact absurd hx List.not_mem_nil
      · rwa [List.mem_singleton.mp hx]
    · exact h.uses part (List.mem_cons_of_mem _ hold) x hx
  · rcases List.mem_append.mp hx with hnew | hold
    · exact hbelow x (gone_mem_frameWork.mp hnew)
    · exact h.goes x (List.mem_cons_of_mem _ hold)
  · obtain ⟨frames, hframes, hall⟩ := h.destroyed
    refine ⟨frames ++ [f], ?_, fun g hg => ?_⟩
    · rw [← List.append_assoc, ← hframes]
      rfl
    · rcases List.mem_append.mp hg with hg | hg
      · exact hall g hg
      · rw [List.mem_singleton.mp hg]
        exact ⟨y, hy, h.shrinks.handle y f hf⟩
  · rcases h.reached x g hx hg with hmem | ⟨hg', z, hz, hzx⟩
    · exact .inl (List.mem_append_left _ hmem)
    · by_cases heq : z = y
      · subst heq
        rcases hzx.cases_head with rfl | ⟨c, hzc, hcx⟩
        · cases hf.symm.trans hg'
          exact .inl (List.mem_append_right _ (List.mem_singleton_self f))
        · have hc := hobjects c hzc
          exact .inr ⟨hg', c, hdestroy c hc,
            hsound.reflTransGen_endFrame hf hcontents (hinner c hc) hcx⟩
      · have hz' : Work.destroy z ∈ todo := by simpa [heq] using hz
        exact .inr ⟨hg', z, List.mem_append_right _ hz',
          hsound.reflTransGen_endFrame hf hcontents (hother z heq hz') hzx⟩
  · rcases h.below x hx with hnone | hgo | ⟨z, hz, hzx⟩
    · exact .inl hnone
    · have hgo' : Work.gone x ∈ todo := by simpa using hgo
      exact .inr (.inl (List.mem_append_right _ hgo'))
    · by_cases heq : z = y
      · subst heq
        obtain ⟨c, hzc, hcx⟩ := TransGen.head'_iff.mp hzx
        have hc := hobjects c hzc
        rcases reflTransGen_iff_eq_or_transGen.mp hcx with rfl | htrans
        · exact .inr (.inl (List.mem_append_left _ (gone_mem_frameWork.mpr hc)))
        · exact .inr (.inr ⟨c, hdestroy c hc,
            hsound.transGen_endFrame hf hcontents (hinner c hc) htrans⟩)
      · have hz' : Work.destroy z ∈ todo := by simpa [heq] using hz
        exact .inr (.inr ⟨z, List.mem_append_right _ hz',
          hsound.transGen_endFrame hf hcontents (hother z heq hz') hzx⟩)

/-- `handle_ = {}`, when the frame has come to its end. -/
theorem Ending.clear (h : Ending w o w' (.clear y :: todo)) (hstart : w.Owned start)
    (hsound : Sound start ⟨w', .clear y :: rest, false⟩) (hy : w'.hasObject y = true) :
    Ending w o (w'.setHandle y none) todo := by
  have hdead : ∀ f, w'.handle y = some f → f ∉ w'.alive := fun f hf =>
    hsound.pending.cleared y f List.mem_cons_self hf
  refine h.tail (shrinks_setHandle w' y) rfl rfl (fun _ hz => by cases hz)
    (fun z x _ htrans => transGen_of_steps htrans fun a b _ hab => ?_)
    (fun x f hf hf' => ?_) (fun _ hz => by cases hz) (fun x hx => ?_) fun x hx => ?_
  · obtain ⟨f, contents, hf, hcontents, hb⟩ := owns_iff.mp hab
    have hne : a ≠ y := by
      rintro rfl
      exact hdead f hf (mem_alive hcontents)
    refine owns_iff.mpr ⟨f, contents, ?_, hcontents, hb⟩
    rw [handle_setHandle, Function.update_of_ne hne, hf]
  · by_cases heq : x = y
    · subst heq
      have hlt : f < w'.nextFrame := by
        rw [h.nextFrame]
        exact ((hstart.lifetimes.alive_iff f).mp (hstart.exclusive.mem_alive x f hf)).1
      refine .inl (by_contra fun hmem => hdead f hf' ?_)
      exact (hsound.lifetimes.alive_iff f).mpr ⟨hlt, hmem⟩
    · rw [handle_setHandle, Function.update_of_ne heq]
      exact .inr hf'
  · have hne : x ≠ y := by
      rintro rfl
      rw [hy] at hx
      cases hx
    rw [← hx]
    exact congrArg Option.isSome (Function.update_of_ne hne ..)
  · exact Function.update_of_ne (fun heq : x = y => hx (List.mem_singleton.mpr heq)) ..

/-- The destructor returns. -/
theorem Ending.forget (h : Ending w o w' (.gone y :: todo))
    (hsound : Sound start ⟨w', .gone y :: rest, false⟩) (hsub : todo ⊆ rest) :
    Ending w o (w'.forget y) todo := by
  have hnone : w'.handle y = none := hsound.pending.gone_handle
  refine h.tail (shrinks_forget w' y) rfl rfl (fun _ hz => by cases hz)
    (fun z x hz htrans => transGen_of_steps htrans fun a b hza hab => ?_)
    (fun x f hf hf' => .inr ?_) (fun x hx => ?_) (fun x hx => ?_) fun x hx => ?_
  · have ha : a ≠ y := by
      rintro rfl
      obtain ⟨f, -, hf, -, -⟩ := owns_iff.mp hab
      rw [hnone] at hf
      cases hf
    have hb : b ≠ y := by
      rintro rfl
      exact hsound.pending.apart z (List.mem_cons_of_mem _ (hsub hz)) _ List.mem_cons_self b
        (List.mem_singleton_self b) (.tail' hza hab)
    exact hab.forget ha hb
  · have hne : x ≠ y := by
      rintro rfl
      rw [hnone] at hf'
      cases hf'
    rw [handle_forget, Function.update_of_ne hne, hf']
  · cases hx
    exact hasObject_forget_self w' y
  · by_cases heq : x = y
    · rw [heq]
      exact hasObject_forget_self w' y
    · rwa [hasObject_forget heq]
  · exact Function.update_of_ne (fun heq : x = y => hx (List.mem_singleton.mpr heq)) ..

theorem Ending.perform (h : Ending w o w' (part :: todo)) (hstart : w.Owned start)
    (hsound : Sound start ⟨w', part :: (todo ++ [last]), false⟩)
    (hperform : w'.perform part = some (w'', more)) : Ending w o w'' (more ++ todo) := by
  have hpresent := hsound.pending.present part List.mem_cons_self
  have horder := (List.pairwise_cons.mp hsound.pending.order).1
  cases part with
  | destroy y =>
      rw [Wrappers.perform, if_pos (hpresent y (List.mem_singleton_self y))] at hperform
      split at hperform
      · next hnone =>
        cases hperform
        exact h.tail (.refl w') rfl rfl
          (fun z hz => by
            cases hz
            exact hnone)
          (fun _ _ _ htrans => htrans) (fun _ _ _ hf => .inr hf) (fun _ hz => by cases hz)
          (fun _ hx => hx) fun _ _ => rfl
      · next f hf =>
        obtain ⟨contents, hcontents, heq⟩ := Option.map_eq_some_iff.mp hperform
        cases heq
        exact h.frame hsound (List.subset_append_left _ _) hf hcontents
  | clear y =>
      have hy := hpresent y (List.mem_singleton_self y)
      rw [Wrappers.perform, if_pos hy] at hperform
      cases hperform
      exact h.clear hstart hsound hy
  | operatorDelete =>
      cases hperform
      exact h.tail (shrinks_stats w' _) rfl rfl (fun _ hz => by cases hz)
        (fun _ _ _ htrans => htrans) (fun _ _ _ hf => .inr hf) (fun _ hz => by cases hz)
        (fun _ hx => hx) fun _ _ => rfl
  | gone y =>
      rw [Wrappers.perform, if_pos (hpresent y (List.mem_singleton_self y))] at hperform
      cases hperform
      exact h.forget hsound (List.subset_append_left _ _)
  | exchange y other => exact (horder last (List.mem_append_right _ (List.mem_singleton_self _))).elim

end Ending

/-! What an operation has done when it is over. -/

section Effects

variable {w w' : Nest τ ν} {o other : WrapperObject τ ν} {start : UInt64}

/-- Only the end of the object is left: what could be reached from it is destroyed. -/
theorem Ending.frames (h : Ending w o w' []) (hstart : w.Owned start) :
    ∃ frames, w'.destroyed = w.destroyed ++ frames ∧
      ∀ f, f ∈ frames ↔ ∃ x, ReflTransGen w.Owns o x ∧ w.handle x = some f := by
  obtain ⟨frames, hframes, hall⟩ := h.destroyed
  refine ⟨frames, hframes, fun f => ⟨hall f, ?_⟩⟩
  rintro ⟨x, hx, hf⟩
  have hfresh : f ∉ w.destroyed :=
    ((hstart.lifetimes.alive_iff f).mp (hstart.exclusive.mem_alive x f hf)).2
  rcases h.reached x f hx hf with hmem | ⟨-, y, hy, -⟩
  · rw [hframes] at hmem
    exact (List.mem_append.mp hmem).resolve_left hfresh
  · exact absurd hy List.not_mem_nil

theorem Ending.gone (h : Ending w o w' []) {x : WrapperObject τ ν} (hx : TransGen w.Owns o x) :
    w'.hasObject x = false := by
  rcases h.below x hx with hnone | hgo | ⟨y, hy, -⟩
  · exact hnone
  · exact absurd hgo List.not_mem_nil
  · exact absurd hy List.not_mem_nil

theorem Ending.others (h : Ending w o w' []) {x : WrapperObject τ ν} (hne : x ≠ o)
    (hx : ¬ TransGen w.Owns o x) : w'.handles x = w.handles x := by
  refine h.kept x fun hreach => ?_
  rcases reflTransGen_iff_eq_or_transGen.mp hreach with heq | htrans
  · exact hne heq
  · exact hx htrans

variable [DecidableEq τ] [DecidableEq ν]

theorem Ending.effect_destruct (h : Ending w o w' []) (hstart : w.Owned start) :
    (NestedOp.destruct o).Effect w (w'.forget o) where
  nextFrame := h.nextFrame
  created _ hcreates := by cases hcreates
  destroyed := by
    obtain ⟨frames, hframes, hall⟩ := h.frames hstart
    refine ⟨frames, hframes, fun f => (hall f).trans ?_⟩
    simp [NestedOp.ends]
  gone x hx := by
    by_cases heq : x = o
    · rw [heq]
      exact hasObject_forget_self w' o
    · rw [hasObject_forget heq]
      rcases hx with hdestruct | ⟨y, hends, hyx⟩
      · cases hdestruct
        exact absurd rfl heq
      · cases hends
        exact h.gone hyx
  moved _ _ hmoves := by cases hmoves
  kept x hx hkept := by
    have hne : x ≠ o := by simpa [NestedOp.objects] using hx
    exact (Function.update_of_ne hne ..).trans (h.others hne (hkept o rfl))

theorem Ending.effect_moveAssign (h : Ending w o w' []) (hstart : w.Owned start) (hne : o ≠ other)
    (hself : ¬ TransGen w.Owns o o) (hsource : ¬ TransGen w.Owns o other) :
    (NestedOp.moveAssign o other).Effect w (w'.exchange o other) := by
  have hends : (NestedOp.moveAssign o other).ends = some o := if_neg hne
  refine ⟨h.nextFrame, fun _ hcreates => (by cases hcreates), ?_, fun x hx => ?_,
    fun o₁ other₁ hmoves => ?_, fun x hx hkept => ?_⟩
  · obtain ⟨frames, hframes, hall⟩ := h.frames hstart
    refine ⟨frames, hframes, fun f => (hall f).trans ?_⟩
    simp [hends]
  · rcases hx with hdestruct | ⟨y, hy, hyx⟩
    · cases hdestruct
    · cases hends.symm.trans hy
      have ho : x ≠ o := by
        rintro rfl
        exact hself hyx
      have hother : x ≠ other := by
        rintro rfl
        exact hsource hyx
      rw [hasObject, handles_exchange_of_ne ho hother]
      exact h.gone hyx
  · rw [NestedOp.moves, if_neg hne] at hmoves
    cases hmoves
    have hkept : w'.handle other = w.handle other :=
      congrArg Option.join (h.others (Ne.symm hne) hsource)
    rw [handle_exchange w' hne, Function.update_self, Function.update_of_ne hne,
      Function.update_self, hkept]
    exact ⟨rfl, rfl⟩
  · rw [NestedOp.objects, if_neg hne, List.mem_pair, not_or] at hx
    exact (handles_exchange_of_ne hx.1 hx.2).trans (h.others hx.1 (hkept o hends))

/-- An operation that ends no object is over when it has begun. -/
theorem effect_of_begin {op : NestedOp τ ν} (hbegin : w.begin op = some (w', [])) :
    op.Effect w w' := by
  cases op with
  | construct o home =>
      simp only [Wrappers.begin, Option.ite_none_left_eq_some] at hbegin
      obtain ⟨w₁, hplace, heq⟩ := Option.map_eq_some_iff.mp hbegin.2
      cases heq
      obtain ⟨hhandles, hnext, hdestroyed⟩ := place_rest hplace
      refine ⟨hnext, fun _ h => (by cases h), ⟨[], hdestroyed.trans (List.append_nil _).symm,
        by simp [NestedOp.ends]⟩, by simp [NestedOp.ends], fun _ _ h => (by cases h),
        fun x hx _ => ?_⟩
      have hne : x ≠ o := by simpa [NestedOp.objects] using hx
      exact (Function.update_of_ne hne ..).trans (congrFun hhandles x)
  | create o size home =>
      simp only [Wrappers.begin, Option.ite_none_left_eq_some] at hbegin
      obtain ⟨w₁, hplace, heq⟩ := Option.map_eq_some_iff.mp hbegin.2
      cases heq
      obtain ⟨hhandles, hnext, hdestroyed⟩ := place_rest hplace
      refine ⟨congrArg (· + 1) hnext, fun o' h => ?_, ⟨[], hdestroyed.trans (List.append_nil _).symm,
        by simp [NestedOp.ends]⟩, by simp [NestedOp.ends], fun _ _ h => (by cases h),
        fun x hx _ => ?_⟩
      · cases h
        rw [handle_create, Function.update_self, hnext]
      · have hne : x ≠ o := by simpa [NestedOp.objects] using hx
        exact (Function.update_of_ne hne ..).trans (congrFun hhandles x)
  | moveConstruct o other home =>
      simp only [Wrappers.begin, Option.ite_none_right_eq_some] at hbegin
      obtain ⟨⟨ho, hother, -⟩, hplaced⟩ := hbegin
      obtain ⟨w₁, hplace, heq⟩ := Option.map_eq_some_iff.mp hplaced
      cases heq
      obtain ⟨hhandles, hnext, hdestroyed⟩ := place_rest hplace
      have hne := ne_of_hasObject ho hother
      refine ⟨hnext, fun _ h => (by cases h), ⟨[], hdestroyed.trans (List.append_nil _).symm,
        by simp [NestedOp.ends]⟩, by simp [NestedOp.ends], fun o₁ other₁ h => ?_,
        fun x hx _ => ?_⟩
      · cases h
        rw [moveConstruct, handle_exchange w₁ hne, Function.update_self, Function.update_of_ne hne,
          Function.update_self, handle, handle, hhandles]
        exact ⟨rfl, rfl⟩
      · rw [NestedOp.objects, List.mem_pair, not_or] at hx
        exact (handles_exchange_of_ne hx.1 hx.2).trans (congrFun hhandles x)
  | moveAssign o other =>
      simp only [Wrappers.begin, Option.ite_none_right_eq_some, Option.some.injEq,
        Prod.mk.injEq] at hbegin
      obtain ⟨-, rfl, hwork⟩ := hbegin
      have heq : o = other := by
        by_contra hne
        rw [if_neg hne] at hwork
        cases hwork
      subst heq
      refine ⟨rfl, fun _ h => (by cases h), ⟨[], (List.append_nil _).symm,
        by simp [NestedOp.ends]⟩, by simp [NestedOp.ends], ?_, fun _ _ _ => rfl⟩
      simp [NestedOp.moves]
  | destruct o =>
      simp only [Wrappers.begin, Option.ite_none_right_eq_some, Option.some.injEq,
        Prod.mk.injEq] at hbegin
      cases hbegin.2.2

end Effects

end NestedWrappers

end CppWorkspace.Coro
