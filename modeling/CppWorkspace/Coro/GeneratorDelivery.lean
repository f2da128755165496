import CppWorkspace.Coro.Generator

/-!
What the consumers of generators get: every frame is pulled through its body once, by
whatever calls `next()` on it, and a range-for sees what its own calls have been given.
-/

namespace CppWorkspace.Coro

open Lib System

variable {κ β V E : Type} {code : β → Activation β V E}

namespace WrapperOp

variable {φ ψ : Type}

theorem length_creates_map (op : WrapperOp κ φ) (g : φ → ψ) :
    (op.map g).creates.toList.length = op.content.toList.length := by
  cases op <;> rfl

theorem content_map (op : WrapperOp κ φ) (g : φ → ψ) : (op.map g).content = op.content.map g := by
  cases op <;> rfl

theorem objects_map [DecidableEq κ] (op : WrapperOp κ φ) (g : φ → ψ) :
    (op.map g).objects = op.objects := by
  cases op <;> rfl

end WrapperOp

/-- The frames after an operation: those from before that it has not destroyed, and the one
it has made. -/
theorem Wrappers.frames_of_step {φ : Type} [DecidableEq κ] {w w' : Wrappers κ φ} {f : ℕ}
    {op : WrapperOp κ φ} {content : φ} (h : w.step op = some w') (hf : w'.frames f = some content) :
    w.frames f = some content ∨ (f = w.nextFrame ∧ op.content = some content) := by
  have hdestroy : ∀ o, (w.destroy o).frames f = some content → w.frames f = some content := by
    intro o hf
    rw [Wrappers.destroy] at hf
    split at hf
    next g _ =>
        change Function.update w.frames g none f = _ at hf
        have hne : f ≠ g := by
          rintro rfl
          simp at hf
        rwa [Function.update_of_ne hne] at hf
    next => exact hf
  rcases Wrappers.step_cases h with ⟨o, rfl, -, rfl⟩ | ⟨o, size, c, rfl, -, rfl⟩ |
    ⟨o, other, rfl, -, -, rfl⟩ | ⟨o, other, rfl, rfl⟩ | ⟨o, rfl, rfl⟩
  · exact .inl hf
  · change Function.update w.frames w.nextFrame (some c) f = _ at hf
    by_cases heq : f = w.nextFrame
    · rw [heq, Function.update_self] at hf
      exact .inr ⟨heq, hf⟩
    · rw [Function.update_of_ne heq] at hf
      exact .inl hf
  · exact .inl hf
  · rw [Wrappers.moveAssign] at hf
    split at hf
    · exact .inl hf
    · exact .inl (hdestroy o hf)
  · exact .inl (hdestroy o hf)

/-- A call that comes when the body has yielded `vs` and is at `p` is answered by a value,
by the end or by the exception of the body. -/
inductive Answered (vs : List V) (p : Progress β E) :
    Except E Bool → List V → Progress β E → Prop
  | value {v : V} {p' : Progress β E} (hp : p.point ≠ none) :
      Answered vs p (.ok true) (vs ++ [v]) p'
  | ended {p' : Progress β E} (hp' : p'.point = none) (hsame : p.point = none → p' = p) :
      Answered vs p (.ok false) vs p'
  | threw {e : E} (hp : p.point ≠ none) : Answered vs p (.error e) vs (.threw e)

namespace GeneratorFrame

/-- The promise says how far the body has come. -/
structure Matches (frame : GeneratorFrame β V E) (vs : List V) (p : Progress β E) : Prop where
  point : frame.point = p.point
  current : frame.current = vs.getLast?
  exception : frame.exception = p.exception

variable {frame : GeneratorFrame β V E} {b : β} {vs : List V} {p : Progress β E}
  {answers : List (Except E Bool)}

theorem initial_matches (b : β) :
    (initial b : GeneratorFrame β V E).Matches [] (.suspended b) := ⟨rfl, rfl, rfl⟩

theorem next_of_done (h : frame.point = none) : frame.next code = (frame, .ok false) := by
  rw [next, done, h]
  rfl

theorem next_of_suspended {b' : β} (hpoint : frame.point = some b')
    (hexception : frame.exception = none) :
    frame.next code = match code b' with
      | .yields v b'' => ({ frame with point := some b'', current := some v }, .ok true)
      | .returns => ({ frame with point := none }, .ok false)
      | .throws e => ({ frame with point := none, exception := some e }, .error e) := by
  cases hcode : code b' <;> simp [next, done, resume, hpoint, hexception, hcode]

/-- `next()` is the next pull. -/
theorem next_pulled (h : frame.Matches vs p) (hp : Pulled code b vs p answers) :
    ∃ vs' p', Pulled code b vs' p' (answers ++ [(frame.next code).2]) ∧
      (frame.next code).1.Matches vs' p' ∧ Answered vs p (frame.next code).2 vs' p' := by
  obtain ⟨hpoint, hcurrent, hexception⟩ := h
  cases p with
  | returned =>
      rw [next_of_done hpoint]
      exact ⟨vs, .returned, hp.ended rfl, ⟨hpoint, hcurrent, hexception⟩, .ended rfl fun _ => rfl⟩
  | threw e =>
      rw [next_of_done hpoint]
      exact ⟨vs, .threw e, hp.ended rfl, ⟨hpoint, hcurrent, hexception⟩, .ended rfl fun _ => rfl⟩
  | suspended b' =>
      have hlive : (Progress.suspended b' : Progress β E).point ≠ none := Option.some_ne_none b'
      rw [next_of_suspended hpoint hexception]
      cases hcode : code b' with
      | yields v b'' =>
          exact ⟨vs ++ [v], .suspended b'', hp.yields hcode, ⟨rfl, by simp, hexception⟩,
            .value hlive⟩
      | returns =>
          exact ⟨vs, .returned, hp.returns hcode, ⟨rfl, hcurrent, hexception⟩,
            .ended rfl fun h => absurd h hlive⟩
      | throws e =>
          exact ⟨vs, .threw e, hp.throws hcode, ⟨rfl, hcurrent, rfl⟩, .threw hlive⟩

end GeneratorFrame

namespace RangeFor

/-- What the loop with number `i` has seen of the calls on its frame, of which the last left
the body at `p`. -/
structure Visits (loop : RangeFor κ V E) (i : ℕ) (calls : List (GeneratorCall E)) (vs : List V)
    (p : Progress β E) : Prop where
  visited : loop.visited = deliveredTo (some i) (calls.map (·.loop)) vs
  finished : loop.status = .finished → p.point = none
  threw : ∀ e, loop.status = .threw e → p = .threw e
  before_le : loop.before ≤ calls.length
  before : some i ∉ (calls.take loop.before).map (·.loop)

namespace Visits

variable {loop loop' : RangeFor κ V E} {i : ℕ} {calls : List (GeneratorCall E)} {vs vs' : List V}
  {p p' : Progress β E} {call : GeneratorCall E} {w : Generators κ β V E}

theorem take_append (h : loop.Visits i calls vs p) (call : GeneratorCall E) :
    (calls ++ [call]).take loop.before = calls.take loop.before :=
  List.take_append_of_le_length h.before_le

/-- Calls of other code do not change what the loop has seen. -/
theorem other (h : loop.Visits i calls vs p) (hlength : vs.length ≤ calls.length)
    (hall : p.point ≠ none → calls.length = vs.length) (hloop : call.loop ≠ some i)
    (hanswer : Answered vs p call.result vs' p') : loop.Visits i (calls ++ [call]) vs' p' where
  visited := by
    have hlength' : vs.length ≤ (calls.map (·.loop)).length := by rwa [List.length_map]
    rw [List.map_append, List.map_singleton, h.visited]
    generalize call.result = result at hanswer
    cases hanswer with
    | value hp =>
        rw [deliveredTo_value (by rw [List.length_map, hall hp]), if_neg hloop, List.append_nil]
    | ended => rw [deliveredTo_nothing hlength']
    | threw => rw [deliveredTo_nothing hlength']
  finished hstatus := by
    have hp := h.finished hstatus
    generalize call.result = result at hanswer
    cases hanswer with
    | value hlive => exact absurd hp hlive
    | ended hp' => exact hp'
    | threw hlive => exact absurd hp hlive
  threw e hstatus := by
    have hp := h.threw e hstatus
    generalize call.result = result at hanswer
    cases hanswer with
    | value hlive => exact absurd (by rw [hp]; rfl) hlive
    | ended hp' hsame => rw [hsame (by rw [hp]; rfl), hp]
    | threw hlive => exact absurd (by rw [hp]; rfl) hlive
  before_le := by
    rw [List.length_append]
    exact Nat.le_add_right_of_le h.before_le
  before := by
    rw [h.take_append]
    exact h.before

/-- A call of the loop itself: a value of the body is the next value that the loop sees. -/
theorem own (h : loop.Visits i calls vs p) (hlength : vs.length ≤ calls.length)
    (hall : p.point ≠ none → calls.length = vs.length) (hloop : call.loop = some i)
    (hanswer : Answered vs p call.result vs' p') (hrunning : loop.status.isRunning = true)
    (hvalue : w.value loop.iter.gen = vs'.getLast?)
    (hproceed : loop.proceed w call.result = some loop') :
    loop'.Visits i (calls ++ [call]) vs' p' := by
  have hlength' : vs.length ≤ (calls.map (·.loop)).length := by rwa [List.length_map]
  have hbefore : loop.before ≤ (calls ++ [call]).length := by
    rw [List.length_append]
    exact Nat.le_add_right_of_le h.before_le
  have htake : some i ∉ ((calls ++ [call]).take loop.before).map (·.loop) := by
    rw [h.take_append]
    exact h.before
  generalize call.result = result at hanswer hproceed
  cases hanswer with
  | value hp =>
      rename_i v
      rw [proceed, hvalue, List.getLast?_concat] at hproceed
      cases hproceed
      refine ⟨?_, ?_, ?_, hbefore, htake⟩
      · rw [List.map_append, List.map_singleton,
          deliveredTo_value (by rw [List.length_map, hall hp]), if_pos hloop, h.visited]
      · intro hstatus
        rw [hstatus] at hrunning
        cases hrunning
      · intro e hstatus
        rw [hstatus] at hrunning
        cases hrunning
  | ended hp' hsame =>
      cases hproceed
      refine ⟨?_, fun _ => hp', fun e hstatus => (by cases hstatus), hbefore, htake⟩
      rw [List.map_append, List.map_singleton, deliveredTo_nothing hlength']
      exact h.visited
  | threw hp =>
      cases hproceed
      refine ⟨?_, fun hstatus => (by cases hstatus), fun e hstatus => ?_, hbefore, htake⟩
      · rw [List.map_append, List.map_singleton, deliveredTo_nothing hlength']
        exact h.visited
      · cases hstatus
        rfl

end Visits

theorem proceed_kept {loop loop' : RangeFor κ V E} {w : Generators κ β V E}
    {result : Except E Bool} (h : loop.proceed w result = some loop') :
    loop'.frame = loop.frame ∧ loop'.iter.gen = loop.iter.gen := by
  cases result with
  | error e =>
      cases h
      exact ⟨rfl, rfl⟩
  | ok more =>
      cases more with
      | true =>
          obtain ⟨v, -, rfl⟩ := Option.map_eq_some_iff.mp h
          exact ⟨rfl, rfl⟩
      | false =>
          cases h
          exact ⟨rfl, rfl⟩

end RangeFor

namespace GeneratorState

variable {s s' : GeneratorState κ β V E} {o : κ} {f : ℕ} {label : Option ℕ}
  {result : Except E Bool} {b : β} {vs : List V} {p : Progress β E} {start : UInt64}

theorem call_of_null (ho : s.wrappers.handle o = none)
    (h : s.call code o label = some (s', result)) : s' = s ∧ result = .ok false := by
  rw [call, Option.ite_none_right_eq_some, Generators.next, ho] at h
  obtain ⟨-, h⟩ := h
  cases h
  exact ⟨congrArg (fun calls => { s with calls := calls }) (List.append_nil s.calls), rfl⟩

theorem call_of_handle (ho : s.wrappers.handle o = some f)
    (h : s.call code o label = some (s', result)) :
    ∃ frame, s.wrappers.frames f = some frame ∧ result = (frame.next code).2 ∧
      s' = { s with
        wrappers := s.wrappers.setFrame f (frame.next code).1
        calls := s.calls ++ [⟨f, label, result⟩] } := by
  rw [call, Option.ite_none_right_eq_some, Generators.next, ho] at h
  obtain ⟨-, h⟩ := h
  obtain ⟨⟨w, result'⟩, hnext, h⟩ := Option.map_eq_some_iff.mp h
  obtain ⟨frame, hframe, hnext⟩ := Option.map_eq_some_iff.mp hnext
  cases hnext
  cases h
  exact ⟨frame, hframe, rfl, rfl⟩

/-- A frame with the body `b` has yielded `vs` and come to `p` by the calls on it, and the
loops over it have seen what they were given. -/
structure Delivers (code : β → Activation β V E) (s : GeneratorState κ β V E) (f : ℕ) (b : β)
    (vs : List V) (p : Progress β E) : Prop where
  pulled : Pulled code b vs p ((s.callsOn f).map (·.result))
  matching : ∀ frame, s.wrappers.frames f = some frame → frame.Matches vs p
  loops : ∀ (i : ℕ) (loop : RangeFor κ V E), s.loops[i]? = some loop →
    loop.frame = some f → loop.Visits i (s.callsOn f) vs p

theorem Delivers.length_le (h : s.Delivers code f b vs p) : vs.length ≤ (s.callsOn f).length := by
  simpa using h.pulled.length_le

theorem Delivers.length_eq (h : s.Delivers code f b vs p) (hp : p.point ≠ none) :
    (s.callsOn f).length = vs.length := by
  obtain ⟨hpulled, -, -⟩ := h
  cases p with
  | suspended b' => simpa using hpulled.length_of_suspended
  | returned => exact absurd rfl hp
  | threw e => exact absurd rfl hp

/-- What a frame is between steps of the program, and which frames, calls and loops belong
together. -/
structure Consistent (code : β → Activation β V E) (start : UInt64)
    (s : GeneratorState κ β V E) : Prop where
  owned : s.wrappers.Owned start
  bodies : s.bodies.length = s.wrappers.nextFrame
  delivers : ∀ f b, s.bodies[f]? = some b → ∃ vs p, s.Delivers code f b vs p
  callFrames : ∀ c ∈ s.calls, c.frame < s.bodies.length
  callLoops : ∀ c ∈ s.calls, ∀ i, c.loop = some i → i < s.loops.length
  loopFrames : ∀ (i : ℕ) (loop : RangeFor κ V E), s.loops[i]? = some loop →
    ∀ f, loop.frame = some f → f < s.bodies.length
  running : ∀ (i : ℕ) (loop : RangeFor κ V E), s.loops[i]? = some loop →
    loop.status.isRunning = true → s.wrappers.handle loop.iter.gen = loop.frame ∧ loop.frame ≠ none
  null : ∀ (i : ℕ) (loop : RangeFor κ V E), s.loops[i]? = some loop →
    loop.frame = none → loop.visited = []

/-- What a call does to one frame: it is a call on another frame, or it is answered from
what the frame had come to. -/
structure Called (code : β → Activation β V E) (s s' : GeneratorState κ β V E) (o : κ)
    (label : Option ℕ) (result : Except E Bool) (f : ℕ) (b : β) (vs : List V)
    (p : Progress β E) (vs' : List V) (p' : Progress β E) : Prop where
  pulled : Pulled code b vs' p' ((s'.callsOn f).map (·.result))
  matching : ∀ frame, s'.wrappers.frames f = some frame → frame.Matches vs' p'
  cases : (s.wrappers.handle o = some f ∧ Answered vs p result vs' p' ∧
      s'.callsOn f = s.callsOn f ++ [⟨f, label, result⟩]) ∨
    (s.wrappers.handle o ≠ some f ∧ vs' = vs ∧ p' = p ∧ s'.callsOn f = s.callsOn f)

theorem callsOn_append (s : GeneratorState κ β V E) (w : Generators κ β V E)
    (call : GeneratorCall E) (f : ℕ) :
    callsOn { s with wrappers := w, calls := s.calls ++ [call] } f =
      if call.frame = f then s.callsOn f ++ [call] else s.callsOn f := by
  rw [callsOn, List.filter_append, callsOn]
  by_cases h : call.frame = f
  · simp [h]
  · simp [h]

theorem Delivers.call (h : s.Delivers code f b vs p)
    (hcall : s.call code o label = some (s', result)) :
    ∃ vs' p', Called code s s' o label result f b vs p vs' p' := by
  cases ho : s.wrappers.handle o with
  | none =>
      obtain ⟨rfl, -⟩ := call_of_null ho hcall
      exact ⟨vs, p, h.pulled, h.matching, .inr ⟨by simp [ho], rfl, rfl, rfl⟩⟩
  | some g =>
      obtain ⟨frame, hframe, rfl, rfl⟩ := call_of_handle ho hcall
      by_cases hfg : g = f
      · subst hfg
        obtain ⟨vs', p', hpulled, hmatches, hanswer⟩ :=
          GeneratorFrame.next_pulled (h.matching frame hframe) h.pulled
        have hcalls := callsOn_append s (s.wrappers.setFrame g (frame.next code).1)
          ⟨g, label, (frame.next code).2⟩ g
        rw [if_pos rfl] at hcalls
        refine ⟨vs', p', ?_, ?_, .inl ⟨ho, hanswer, hcalls⟩⟩
        · rw [hcalls, List.map_append]
          exact hpulled
        · intro frame' hframe'
          rw [Wrappers.frames_setFrame_self] at hframe'
          cases hframe'
          exact hmatches
      · have hcalls := callsOn_append s (s.wrappers.setFrame g (frame.next code).1)
          ⟨g, label, (frame.next code).2⟩ f
        rw [if_neg hfg] at hcalls
        refine ⟨vs, p, ?_, ?_, .inr ⟨?_, rfl, rfl, hcalls⟩⟩
        · rw [hcalls]
          exact h.pulled
        · intro frame' hframe'
          rw [Wrappers.frames_setFrame_of_ne (Ne.symm hfg)] at hframe'
          exact h.matching frame' hframe'
        · rw [ho]
          exact fun h => hfg (Option.some.inj h)

/-- What a call leaves alone. -/
theorem call_kept (howned : s.wrappers.Owned start)
    (hcall : s.call code o label = some (s', result)) :
    s'.bodies = s.bodies ∧ s'.loops = s.loops ∧ s'.wrappers.handle = s.wrappers.handle ∧
      s'.wrappers.nextFrame = s.wrappers.nextFrame ∧ s'.wrappers.Owned start ∧
      ∀ c ∈ s'.calls, c ∈ s.calls ∨ (c.loop = label ∧ s.wrappers.handle o = some c.frame) := by
  cases ho : s.wrappers.handle o with
  | none =>
      obtain ⟨rfl, -⟩ := call_of_null ho hcall
      exact ⟨rfl, rfl, rfl, rfl, howned, fun c hc => .inl hc⟩
  | some f =>
      obtain ⟨frame, hframe, rfl, rfl⟩ := call_of_handle ho hcall
      refine ⟨rfl, rfl, rfl, rfl, howned.setFrame (howned.exclusive.mem_alive o f ho) _, ?_⟩
      intro c hc
      rcases List.mem_append.mp hc with hc | hc
      · exact .inl hc
      · rw [List.mem_singleton] at hc
        subst hc
        exact .inr ⟨rfl, rfl⟩

/-- `value()` of the owner is the last value that the body has yielded. -/
theorem value_eq (howned : s.wrappers.Owned start) (ho : s.wrappers.handle o = some f)
    (hmatching : ∀ frame, s.wrappers.frames f = some frame → frame.Matches vs p) :
    s.wrappers.value o = vs.getLast? := by
  obtain ⟨frame, hframe⟩ := Option.isSome_iff_exists.mp (howned.exclusive.mem_alive o f ho)
  rw [Generators.value, ho, Option.bind_some, hframe, Option.bind_some]
  exact (hmatching frame hframe).current

/-- A range-for after its call: it is about the frame of the call, and when it goes on it
has seen the answer. -/
structure Continued (code : β → Activation β V E) (s s' : GeneratorState κ β V E) (o : κ)
    (label : Option ℕ) (result : Except E Bool) (j : ℕ) (loop : RangeFor κ V E) : Prop where
  frame : loop.frame = s.wrappers.handle o
  running : loop.status.isRunning = true →
    s.wrappers.handle loop.iter.gen = loop.frame ∧ loop.frame ≠ none
  null : loop.frame = none → loop.visited = []
  visits : ∀ f b vs p vs' p', loop.frame = some f → s.Delivers code f b vs p →
    Called code s s' o label result f b vs p vs' p' → loop.Visits j (s'.callsOn f) vs' p'

/-- A call keeps the state consistent, whatever becomes of the loop that makes it. -/
theorem Consistent.called (h : s.Consistent code start)
    (hcall : s.call code o label = some (s', result)) {loops : List (RangeFor κ V E)}
    (hlength : s.loops.length ≤ loops.length) (hlabel : ∀ j, label = some j → j < loops.length)
    (hold : ∀ j loop, loops[j]? = some loop → label ≠ some j → s.loops[j]? = some loop)
    (hnew : ∀ j loop, loops[j]? = some loop → label = some j →
      Continued code s s' o label result j loop) :
    Consistent code start { s' with loops := loops } := by
  obtain ⟨hbodies, hloops, hhandle, hnext, howned, hcalls⟩ := call_kept h.owned hcall
  have hlt : ∀ f, s.wrappers.handle o = some f → f < s.bodies.length := by
    intro f ho
    rw [h.bodies]
    exact ((h.owned.lifetimes.alive_iff f).mp (h.owned.exclusive.mem_alive o f ho)).1
  constructor
  · exact howned
  · change s'.bodies.length = s'.wrappers.nextFrame
    rw [hbodies, hnext]
    exact h.bodies
  · intro f b hf
    change s'.bodies[f]? = some b at hf
    rw [hbodies] at hf
    obtain ⟨vs, p, hdelivers⟩ := h.delivers f b hf
    obtain ⟨vs', p', hcalled⟩ := hdelivers.call hcall
    refine ⟨vs', p', hcalled.pulled, hcalled.matching, fun j loop hj hframe => ?_⟩
    by_cases hlab : label = some j
    · exact (hnew j loop hj hlab).visits f b vs p vs' p' hframe hdelivers hcalled
    · have hvisits := hdelivers.loops j loop (hold j loop hj hlab) hframe
      change loop.Visits j (s'.callsOn f) vs' p'
      rcases hcalled.cases with ⟨-, hanswer, hcallsOn⟩ | ⟨-, rfl, rfl, hcallsOn⟩
      · rw [hcallsOn]
        exact hvisits.other hdelivers.length_le hdelivers.length_eq hlab hanswer
      · rw [hcallsOn]
        exact hvisits
  · intro c hc
    change c.frame < s'.bodies.length
    rw [hbodies]
    rcases hcalls c hc with hc | ⟨-, ho⟩
    · exact h.callFrames c hc
    · exact hlt _ ho
  · intro c hc j hj
    rcases hcalls c hc with hc | ⟨hlab, -⟩
    · exact lt_of_lt_of_le (h.callLoops c hc j hj) hlength
    · exact hlabel j (hlab ▸ hj)
  · intro j loop hj f hframe
    change f < s'.bodies.length
    rw [hbodies]
    by_cases hlab : label = some j
    · exact hlt f ((hnew j loop hj hlab).frame ▸ hframe)
    · exact h.loopFrames j loop (hold j loop hj hlab) f hframe
  · intro j loop hj hrunning
    change s'.wrappers.handle loop.iter.gen = loop.frame ∧ _
    rw [hhandle]
    by_cases hlab : label = some j
    · exact (hnew j loop hj hlab).running hrunning
    · exact h.running j loop (hold j loop hj hlab) hrunning
  · intro j loop hj hnull
    by_cases hlab : label = some j
    · exact (hnew j loop hj hlab).null hnull
    · exact h.null j loop (hold j loop hj hlab) hnull

theorem advance_cases {i : ℕ} {loop loop' : RangeFor κ V E}
    (h : s.advance code i loop = some (s', loop')) :
    ∃ result, s.call code loop.iter.gen (some i) = some (s', result) ∧
      loop.proceed s'.wrappers result = some loop' := by
  obtain ⟨⟨s₁, result⟩, hcall, h⟩ := Option.bind_eq_some_iff.mp h
  obtain ⟨loop₁, hproceed, h⟩ := Option.bind_eq_some_iff.mp h
  cases h
  exact ⟨result, hcall, hproceed⟩

/-- The loop after `++`. -/
theorem Consistent.continued (h : s.Consistent code start) {i : ℕ} {loop loop' : RangeFor κ V E}
    (hcall : s.call code loop.iter.gen (some i) = some (s', result))
    (hproceed : loop.proceed s'.wrappers result = some loop')
    (hframe : loop.frame = s.wrappers.handle loop.iter.gen)
    (hrunning : loop.status.isRunning = true) (hnull : loop.frame = none → loop.visited = [])
    (hvisits : ∀ f b vs p, loop.frame = some f → s.Delivers code f b vs p →
      loop.Visits i (s.callsOn f) vs p) :
    Continued code s s' loop.iter.gen (some i) result i loop' := by
  obtain ⟨hframe', hgen'⟩ := RangeFor.proceed_kept hproceed
  -- the loop over a null handle is over
  have hend : loop.frame = none → loop'.status.isRunning = false ∧ loop'.visited = [] := by
    intro hnone
    obtain ⟨-, rfl⟩ := call_of_null (hframe ▸ hnone) hcall
    cases hproceed
    exact ⟨rfl, hnull hnone⟩
  constructor
  · rw [hframe', hframe]
  · intro hrunning'
    rw [hgen', hframe', ← hframe]
    refine ⟨rfl, fun hnone => ?_⟩
    rw [(hend hnone).1] at hrunning'
    cases hrunning'
  · intro hnone
    exact (hend (hframe' ▸ hnone)).2
  · intro f b vs p vs' p' hf hdelivers hcalled
    have hf' : loop.frame = some f := hframe' ▸ hf
    have ho : s.wrappers.handle loop.iter.gen = some f := hframe ▸ hf'
    rcases hcalled.cases with ⟨-, hanswer, hcallsOn⟩ | ⟨hne, -⟩
    · obtain ⟨-, -, hhandle, -, howned, -⟩ := call_kept h.owned hcall
      have hvalue := value_eq howned (hhandle ▸ ho) hcalled.matching
      rw [hcallsOn]
      exact (hvisits f b vs p hf' hdelivers).own hdelivers.length_le hdelivers.length_eq rfl hanswer
        hrunning hvalue hproceed
    · exact absurd ho hne

theorem Consistent.next (h : s.Consistent code start)
    (hcall : s.call code o none = some (s', result)) : s'.Consistent code start := by
  obtain ⟨-, hloops, -⟩ := call_kept h.owned hcall
  have hsame : s' = { s' with loops := s.loops } := by rw [← hloops]
  rw [hsame]
  exact h.called hcall le_rfl (fun j hj => by cases hj) (fun j loop hj _ => hj)
    (fun j loop _ hj => by cases hj)

theorem getElem?_snoc_cases {loops : List (RangeFor κ V E)} {j : ℕ} {loop loop' : RangeFor κ V E}
    (h : (loops ++ [loop])[j]? = some loop') :
    (j = loops.length ∧ loop' = loop) ∨ (j ≠ loops.length ∧ loops[j]? = some loop') := by
  rcases Nat.lt_trichotomy j loops.length with hlt | rfl | hgt
  · rw [List.getElem?_append_left hlt] at h
    exact .inr ⟨hlt.ne, h⟩
  · rw [List.getElem?_concat_length] at h
    exact .inl ⟨rfl, (Option.some.inj h).symm⟩
  · rw [List.getElem?_eq_none (by rw [List.length_append]; exact hgt)] at h
    cases h

theorem getElem?_set_cases {loops : List (RangeFor κ V E)} {i j : ℕ} {loop loop' : RangeFor κ V E}
    (h : (loops.set i loop)[j]? = some loop') :
    (j = i ∧ loop' = loop) ∨ (j ≠ i ∧ loops[j]? = some loop') := by
  by_cases heq : j = i
  · subst heq
    have hlt : j < (loops.set j loop).length := (List.getElem?_eq_some_iff.mp h).1
    rw [List.length_set] at hlt
    rw [List.getElem?_set_self hlt] at h
    exact .inl ⟨rfl, (Option.some.inj h).symm⟩
  · rw [List.getElem?_set_ne (Ne.symm heq)] at h
    exact .inr ⟨heq, h⟩

theorem Consistent.beginLoop (h : s.Consistent code start)
    (hbegin : s.beginLoop code o = some s') : s'.Consistent code start := by
  obtain ⟨⟨s₁, loop⟩, hadvance, hs'⟩ := Option.bind_eq_some_iff.mp hbegin
  cases hs'
  obtain ⟨result, hcall, hproceed⟩ := advance_cases hadvance
  obtain ⟨-, hloops, -⟩ := call_kept h.owned hcall
  rw [hloops]
  have hfresh : ∀ f, some s.loops.length ∉ (s.callsOn f).map (·.loop) := by
    intro f hmem
    obtain ⟨c, hc, hloop⟩ := List.mem_map.mp hmem
    exact absurd (h.callLoops c (List.mem_filter.mp hc).1 _ hloop) (lt_irrefl _)
  have hcontinued := h.continued hcall hproceed rfl rfl (fun _ => rfl) fun f b vs p hf _ => by
    have hbefore : ((s.wrappers.handle o).map fun f => (s.callsOn f).length).getD 0 =
        (s.callsOn f).length := by
      change s.wrappers.handle o = some f at hf
      rw [hf]
      rfl
    refine ⟨?_, fun hstatus => ?_, fun e hstatus => ?_, hbefore.le, ?_⟩
    · exact (deliveredTo_eq_nil (hfresh f)).symm
    · cases hstatus
    · cases hstatus
    · intro hmem
      obtain ⟨c, hc, hloop⟩ := List.mem_map.mp hmem
      exact hfresh f (List.mem_map.mpr ⟨c, List.mem_of_mem_take hc, hloop⟩)
  refine h.called hcall (by simp) (fun j hj => ?_) (fun j loop' hj hlab => ?_)
    fun j loop' hj hlab => ?_
  · cases hj
    simp
  · rcases getElem?_snoc_cases hj with ⟨rfl, -⟩ | ⟨-, hj⟩
    · exact absurd rfl hlab
    · exact hj
  · cases hlab
    rcases getElem?_snoc_cases hj with ⟨-, rfl⟩ | ⟨hne, -⟩
    · exact hcontinued
    · exact absurd rfl hne

theorem Consistent.iterate (h : s.Consistent code start) {i : ℕ}
    (hiterate : s.iterate code i = some s') : s'.Consistent code start := by
  obtain ⟨loop, hloop, hiterate⟩ := Option.bind_eq_some_iff.mp hiterate
  rw [Option.ite_none_right_eq_some] at hiterate
  obtain ⟨hrunning, hiterate⟩ := hiterate
  obtain ⟨⟨s₁, loop'⟩, hadvance, hs'⟩ := Option.bind_eq_some_iff.mp hiterate
  cases hs'
  obtain ⟨result, hcall, hproceed⟩ := advance_cases hadvance
  obtain ⟨-, hloops, -⟩ := call_kept h.owned hcall
  rw [hloops]
  obtain ⟨hgen, -⟩ := h.running i loop hloop hrunning
  have hcontinued := h.continued hcall hproceed hgen.symm hrunning (h.null i loop hloop)
    fun f b vs p hf hdelivers => hdelivers.loops i loop hloop hf
  have hlt : i < s.loops.length := (List.getElem?_eq_some_iff.mp hloop).1
  refine h.called hcall (by simp) (fun j hj => ?_) (fun j l hj hlab => ?_) fun j l hj hlab => ?_
  · cases hj
    rwa [List.length_set]
  · rcases getElem?_set_cases hj with ⟨rfl, -⟩ | ⟨-, hj⟩
    · exact absurd rfl hlab
    · exact hj
  · cases hlab
    rcases getElem?_set_cases hj with ⟨-, rfl⟩ | ⟨hne, -⟩
    · exact hcontinued
    · exact absurd rfl hne

/-- A loop that is left has seen what it has seen. -/
theorem Consistent.leave (h : s.Consistent code start) {i : ℕ} (hleave : s.leave i = some s') :
    s'.Consistent code start := by
  obtain ⟨loop, hloop, hleave⟩ := Option.bind_eq_some_iff.mp hleave
  rw [Option.ite_none_right_eq_some] at hleave
  obtain ⟨-, hs'⟩ := hleave
  cases hs'
  constructor
  · exact h.owned
  · exact h.bodies
  · intro f b hf
    obtain ⟨vs, p, hpulled, hmatching, hloops⟩ := h.delivers f b hf
    refine ⟨vs, p, hpulled, hmatching, fun j l hj hframe => ?_⟩
    rcases getElem?_set_cases hj with ⟨rfl, rfl⟩ | ⟨-, hj⟩
    · obtain ⟨hvisited, -, -, hle, hbefore⟩ := hloops j loop hloop hframe
      exact ⟨hvisited, fun hstatus => (by cases hstatus), fun e hstatus => (by cases hstatus),
        hle, hbefore⟩
    · exact hloops j l hj hframe
  · exact h.callFrames
  · intro c hc j hj
    change j < (s.loops.set i _).length
    rw [List.length_set]
    exact h.callLoops c hc j hj
  · intro j l hj
    rcases getElem?_set_cases hj with ⟨rfl, rfl⟩ | ⟨-, hj⟩
    · exact h.loopFrames j loop hloop
    · exact h.loopFrames j l hj
  · intro j l hj hrunning
    rcases getElem?_set_cases hj with ⟨rfl, rfl⟩ | ⟨-, hj⟩
    · cases hrunning
    · exact h.running j l hj hrunning
  · intro j l hj
    rcases getElem?_set_cases hj with ⟨rfl, rfl⟩ | ⟨-, hj⟩
    · exact h.null j loop hloop
    · exact h.null j l hj

/-- Moving and destroying objects is nothing to the frames that stay. -/
theorem Consistent.execute [DecidableEq κ] (h : s.Consistent code start) {op : WrapperOp κ β}
    (hexecute : s.execute op = some s') : s'.Consistent code start := by
  rw [GeneratorState.execute, Option.ite_none_right_eq_some] at hexecute
  obtain ⟨hspared, hexecute⟩ := hexecute
  obtain ⟨w, hstep, hs'⟩ := Option.map_eq_some_iff.mp hexecute
  cases hs'
  have heffect := Wrappers.effect_of_step hstep
  have hlt : ∀ f content, s.wrappers.frames f = some content → f < s.bodies.length := by
    intro f content hf
    rw [h.bodies]
    refine ((h.owned.lifetimes.alive_iff f).mp ?_).1
    change (s.wrappers.frames f).isSome = true
    rw [hf]
    rfl
  have hgrow : s.bodies.length ≤ (s.bodies ++ op.content.toList).length := by
    rw [List.length_append]
    exact Nat.le_add_right ..
  constructor
  · exact h.owned.step hstep
  · change (s.bodies ++ op.content.toList).length = w.nextFrame
    rw [heffect.nextFrame, List.length_append, h.bodies, WrapperOp.length_creates_map]
  · intro f b hf
    change (s.bodies ++ op.content.toList)[f]? = some b at hf
    by_cases hold : f < s.bodies.length
    · rw [List.getElem?_append_left hold] at hf
      obtain ⟨vs, p, hpulled, hmatching, hloops⟩ := h.delivers f b hf
      refine ⟨vs, p, hpulled, fun frame hframe => ?_, hloops⟩
      rcases Wrappers.frames_of_step hstep hframe with hframe | ⟨rfl, -⟩
      · exact hmatching frame hframe
      · exact absurd hold (by rw [h.bodies]; exact lt_irrefl _)
    · rw [List.getElem?_append_right (Nat.le_of_not_lt hold)] at hf
      have hcalls : s.callsOn f = [] := by
        rw [callsOn, List.filter_eq_nil_iff]
        intro c hc hframe
        exact hold (of_decide_eq_true hframe ▸ h.callFrames c hc)
      refine ⟨[], .suspended b, ?_, fun frame hframe => ?_, fun j loop hj hframe => ?_⟩
      · change Pulled code b [] _ ((s.callsOn f).map (·.result))
        rw [hcalls]
        exact .start code b
      · rcases Wrappers.frames_of_step hstep hframe with hframe | ⟨-, hcontent⟩
        · exact absurd (hlt f frame hframe) hold
        · rw [WrapperOp.content_map] at hcontent
          obtain ⟨b', hb', rfl⟩ := Option.map_eq_some_iff.mp hcontent
          rw [hb'] at hf
          have hsame : b' = b := by
            have hmem := List.mem_of_getElem? hf
            exact (List.mem_singleton.mp hmem).symm
          rw [hsame]
          exact GeneratorFrame.initial_matches b
      · exact absurd (h.loopFrames j loop hj f hframe) hold
  · intro c hc
    exact lt_of_lt_of_le (h.callFrames c hc) hgrow
  · exact h.callLoops
  · intro j loop hj f hframe
    exact lt_of_lt_of_le (h.loopFrames j loop hj f hframe) hgrow
  · intro j loop hj hrunning
    have hkept := heffect.kept loop.iter.gen (by
      rw [WrapperOp.objects_map]
      exact hspared loop (List.mem_of_getElem? hj) hrunning)
    obtain ⟨hgen, hne⟩ := h.running j loop hj hrunning
    refine ⟨?_, hne⟩
    rw [← hgen]
    exact congrArg Option.join hkept
  · exact h.null

theorem consistent_init (code : β → Activation β V E) (stats : FrameStats) :
    (init stats : GeneratorState κ β V E).Consistent code stats.liveFrames where
  owned := .init stats
  bodies := rfl
  delivers := by simp [init]
  callFrames := by simp [init]
  callLoops := by simp [init]
  loopFrames := by simp [init]
  running := by simp [init]
  null := by simp [init]

theorem Consistent.step [DecidableEq κ] (h : s.Consistent code start) {action : GeneratorAction κ β}
    (hstep : s.step code action = some s') : s'.Consistent code start := by
  cases action with
  | object op => exact h.execute hstep
  | next o =>
      obtain ⟨⟨s₁, result⟩, hcall, rfl⟩ := Option.map_eq_some_iff.mp hstep
      exact h.next hcall
  | begin o => exact h.beginLoop hstep
  | iterate i => exact h.iterate hstep
  | leave i => exact h.leave hstep

/-- `next()` is defined on every object: a handle that is not null is that of a frame. -/
theorem Consistent.exists_call (h : s.Consistent code start) (ho : s.wrappers.hasObject o = true)
    (label : Option ℕ) : ∃ s' result, s.call code o label = some (s', result) := by
  rw [call, if_pos ho, Generators.next]
  cases hf : s.wrappers.handle o with
  | none => exact ⟨_, _, rfl⟩
  | some f =>
      obtain ⟨frame, hframe⟩ :=
        Option.isSome_iff_exists.mp (h.owned.exclusive.mem_alive o f hf)
      simp only [hframe, Option.map_some]
      exact ⟨_, _, rfl⟩

theorem Consistent.exists_body (h : s.Consistent code start) (ho : s.wrappers.handle o = some f) :
    ∃ b, s.bodies[f]? = some b := by
  have hlt := ((h.owned.lifetimes.alive_iff f).mp (h.owned.exclusive.mem_alive o f ho)).1
  rw [← h.bodies] at hlt
  exact ⟨_, List.getElem?_eq_getElem hlt⟩

/-- There is a value to read when a loop goes on. -/
theorem Consistent.exists_advance (h : s.Consistent code start) (i : ℕ) {loop : RangeFor κ V E}
    (hobject : s.wrappers.hasObject loop.iter.gen = true) :
    ∃ s' loop', s.advance code i loop = some (s', loop') := by
  obtain ⟨s', result, hcall⟩ := h.exists_call hobject (some i)
  have hproceed : ∃ loop', loop.proceed s'.wrappers result = some loop' := by
    cases ho : s.wrappers.handle loop.iter.gen with
    | none =>
        obtain ⟨-, rfl⟩ := call_of_null ho hcall
        exact ⟨_, rfl⟩
    | some f =>
        obtain ⟨b, hb⟩ := h.exists_body ho
        obtain ⟨vs, p, hdelivers⟩ := h.delivers f b hb
        obtain ⟨vs', p', hcalled⟩ := hdelivers.call hcall
        obtain ⟨-, -, hhandle, -, howned, -⟩ := call_kept h.owned hcall
        have hvalue := value_eq howned (hhandle ▸ ho) hcalled.matching
        rcases hcalled.cases with ⟨-, hanswer, -⟩ | ⟨hne, -⟩
        · cases hanswer with
          | value hp =>
              rw [List.getLast?_concat] at hvalue
              rw [RangeFor.proceed, hvalue]
              exact ⟨_, rfl⟩
          | ended => exact ⟨_, rfl⟩
          | threw => exact ⟨_, rfl⟩
        · exact absurd ho hne
  obtain ⟨loop', hproceed⟩ := hproceed
  have hresult : loop.proceed s'.wrappers result >>= (fun loop' => pure (s', loop')) =
      some (s', loop') := Option.bind_eq_some_iff.mpr ⟨loop', hproceed, rfl⟩
  exact ⟨s', loop', Option.bind_eq_some_iff.mpr ⟨(s', result), hcall, hresult⟩⟩

/-- `next()` on a frame whose body is at its end does not resume it. -/
theorem wrappers_of_done (hcall : s.call code o label = some (s', result))
    (hdone : ∀ f frame, s.wrappers.handle o = some f → s.wrappers.frames f = some frame →
      frame.point = none) : s'.wrappers = s.wrappers := by
  cases ho : s.wrappers.handle o with
  | none =>
      obtain ⟨rfl, -⟩ := call_of_null ho hcall
      rfl
  | some f =>
      obtain ⟨frame, hframe, -, rfl⟩ := call_of_handle ho hcall
      change s.wrappers.setFrame f (frame.next code).1 = s.wrappers
      rw [GeneratorFrame.next_of_done (hdone f frame ho hframe), Wrappers.setFrame, ← hframe,
        Function.update_eq_self]

end GeneratorState

section Runs

variable [DecidableEq κ]

theorem generatorSystem_consistent {stats : FrameStats} {actions : List (GeneratorAction κ β)}
    {s : GeneratorState κ β V E} (hrun : (generatorSystem code stats).Run (.init stats) actions s) :
    s.Consistent code stats.liveFrames :=
  hrun.preserves (fun _ _ _ h hstep => h.step hstep) (GeneratorState.consistent_init code stats)

/-- Every generator delivers the sequence of its body, in every run. Of the body `b` of a
frame the consumers have had the values `vs`, one for each of the first calls; the later
calls have had the end or, once, the exception of the body, and then the end. The body has
come no further, `value()` is the last value, and a range-for has seen the values of its own
calls, which is all the values from its beginning on when no other call came in between. -/
theorem generator_delivers {stats : FrameStats} {actions : List (GeneratorAction κ β)}
    {s : GeneratorState κ β V E} (hrun : (generatorSystem code stats).Run (.init stats) actions s) :
    (∀ f b, s.bodies[f]? = some b → ∃ vs p more, Emits code b vs p ∧
      (s.callsOn f).map (·.result) = p.answers vs.length more ∧
      (∀ frame, s.wrappers.frames f = some frame → frame.point = p.point) ∧
      (∀ o, s.wrappers.handle o = some f → s.wrappers.value o = vs.getLast?) ∧
      ∀ (i : ℕ) (loop : RangeFor κ V E), s.loops[i]? = some loop → loop.frame = some f →
        loop.visited = deliveredTo (some i) ((s.callsOn f).map (·.loop)) vs ∧
        (loop.status = .finished → p.point = none) ∧
        (∀ e, loop.status = .threw e → p = .threw e) ∧
        ((∀ c ∈ (s.callsOn f).drop loop.before, c.loop = some i) →
          loop.visited = vs.drop loop.before)) ∧
    (∀ o f, s.wrappers.handle o = some f → ∃ b, s.bodies[f]? = some b) ∧
    (∀ (i : ℕ) (loop : RangeFor κ V E), s.loops[i]? = some loop → loop.frame = none →
      loop.visited = [] ∧ loop.status.isRunning = false) ∧
    (∀ o s', s.step code (.next o) = some s' →
      (∀ f frame, s.wrappers.handle o = some f → s.wrappers.frames f = some frame →
        frame.point = none) → s'.wrappers = s.wrappers) ∧
    (∀ o, s.wrappers.hasObject o = true →
      (∃ s', s.step code (.next o) = some s') ∧ ∃ s', s.step code (.begin o) = some s') ∧
    ∀ (i : ℕ) (loop : RangeFor κ V E), s.loops[i]? = some loop → loop.status.isRunning = true →
      ∃ s', s.step code (.iterate i) = some s' := by
  have h := generatorSystem_consistent hrun
  refine ⟨fun f b hb => ?_, fun o f ho => h.exists_body ho, fun i loop hi hnull => ?_,
    fun o s' hstep hdone => ?_, fun o ho => ⟨?_, ?_⟩, fun i loop hi hrunning => ?_⟩
  · obtain ⟨vs, p, hdelivers⟩ := h.delivers f b hb
    obtain ⟨more, hanswers⟩ := hdelivers.pulled.answered
    refine ⟨vs, p, more, hdelivers.pulled.emits, hanswers,
      fun frame hframe => (hdelivers.matching frame hframe).point,
      fun o ho => GeneratorState.value_eq h.owned ho hdelivers.matching,
      fun i loop hi hframe => ?_⟩
    have hvisits := hdelivers.loops i loop hi hframe
    refine ⟨hvisits.visited, hvisits.finished, hvisits.threw, fun halone => ?_⟩
    rw [hvisits.visited]
    refine deliveredTo_eq_drop (n := loop.before) ?_ (fun c' hc' => ?_) ?_
    · rw [← List.map_take]
      exact hvisits.before
    · rw [← List.map_drop] at hc'
      obtain ⟨c, hc, rfl⟩ := List.mem_map.mp hc'
      exact halone c hc
    · rw [List.length_map]
      exact hdelivers.length_le
  · refine ⟨h.null i loop hi hnull, ?_⟩
    by_contra hrunning
    exact (h.running i loop hi (by simpa using hrunning)).2 hnull
  · obtain ⟨⟨s₁, result⟩, hcall, rfl⟩ := Option.map_eq_some_iff.mp hstep
    exact GeneratorState.wrappers_of_done hcall hdone
  · obtain ⟨s', result, hcall⟩ := h.exists_call ho none
    refine ⟨s', ?_⟩
    rw [GeneratorState.step, hcall]
    rfl
  · have hexists : ∃ s' loop, s.advance code s.loops.length ⟨⟨o, false⟩, [], .running,
        s.wrappers.handle o, ((s.wrappers.handle o).map fun f => (s.callsOn f).length).getD 0⟩ =
          some (s', loop) := h.exists_advance s.loops.length ho
    obtain ⟨s', loop, hadvance⟩ := hexists
    exact ⟨{ s' with loops := s'.loops ++ [loop] },
      Option.bind_eq_some_iff.mpr ⟨(s', loop), hadvance, rfl⟩⟩
  · have hobject : s.wrappers.hasObject loop.iter.gen = true := by
      obtain ⟨hgen, hne⟩ := h.running i loop hi hrunning
      by_contra hnone
      rw [Bool.not_eq_true] at hnone
      exact hne (hgen ▸ Wrappers.handle_of_not_hasObject hnone)
    obtain ⟨s', loop', hadvance⟩ := h.exists_advance i hobject
    refine ⟨{ s' with loops := s'.loops.set i loop' }, ?_⟩
    rw [GeneratorState.step, GeneratorState.iterate]
    refine Option.bind_eq_some_iff.mpr ⟨loop, hi, ?_⟩
    rw [if_pos hrunning]
    exact Option.bind_eq_some_iff.mpr ⟨(s', loop'), hadvance, rfl⟩

end Runs

/-- A body that yields the values of a list and then throws. -/
def yieldAll : List ℕ → Activation (List ℕ) ℕ Unit
  | [] => .throws ()
  | v :: rest => .yields v rest

/-- A generator is moved after its first value, a range-for over it is left early, and in the
body of a second one `next()` meets the exception. -/
def generatorTrace : List (GeneratorAction ℕ (List ℕ)) :=
  [.object (.create 0 64 [10, 20, 30, 40]), .next 0, .object (.moveConstruct 1 0), .next 0,
    .begin 1, .iterate 0, .leave 0, .begin 1, .next 1, .iterate 1, .next 1]

theorem generator_delivers_trace : ∃ s : GeneratorState ℕ (List ℕ) ℕ Unit,
    (generatorSystem yieldAll ⟨0, 0, 0⟩).Run (.init ⟨0, 0, 0⟩) generatorTrace s ∧
      s.loops.map (·.visited) = [[20, 30], [40]] ∧
      ∃ vs p more, Emits yieldAll [10, 20, 30, 40] vs p ∧
        (s.callsOn 0).map (·.result) = p.answers vs.length more ∧
        s.wrappers.value 1 = vs.getLast? := by
  have hend : (generatorTrace.foldlM (GeneratorState.step yieldAll) (.init ⟨0, 0, 0⟩)).map
      (fun s => (s.loops.map (·.visited), s.bodies[0]?, s.wrappers.handle 1)) =
        some ([[20, 30], [40]], some [10, 20, 30, 40], some 0) := by decide
  obtain ⟨s, hexec, hs⟩ := Option.map_eq_some_iff.mp hend
  rw [Prod.mk.injEq, Prod.mk.injEq] at hs
  obtain ⟨hvisited, hbody, howner⟩ := hs
  have hrun := Run.of_foldlM (S := generatorSystem yieldAll ⟨0, 0, 0⟩) (fun _ _ _ h => h) hexec
  obtain ⟨hdelivered, -⟩ := generator_delivers hrun
  obtain ⟨vs, p, more, hemits, hanswers, -, hvalue, -⟩ := hdelivered 0 _ hbody
  exact ⟨s, hrun, hvisited, vs, p, more, hemits, hanswers, hvalue 1 howner⟩

end CppWorkspace.Coro
