import CppWorkspace.Coro.DirectCalls

/-!
`sync_wait` agrees with direct style. While a body runs, the machine has its
frame on the stack and nothing else; a child is entered through its awaiter and
comes back through the continuation, so a call in direct style is matched by a
run from one state of this kind to the next.
-/

namespace CppWorkspace.Coro

open Lib System

variable {κ V E μ : Type}

/-- The runs of `resume()`. -/
def advanceSystem {κ ρ μ : Type} (code : κ → Instr κ ρ μ) : System (State κ ρ μ) (List Event) where
  init _ := True
  step s events s' := s.advance code = some (s', events)

/-- The machine holds the calls that are still to be made as tasks that have run
nothing. -/
structure Agrees (heap : Heap κ μ) (s : State (Locals κ E) (TaskResult V E) μ) : Prop where
  defined : s.undefined = false
  next : s.nextFrame = heap.next
  memory : s.memory = heap.memory
  fresh : ∀ t, heap.next ≤ t → heap.thunks t = none
  thunks : ∀ t body, heap.thunks t = some body →
    s.point t = some (.initial (.body body)) ∧ s.continuation t = none

/-- The coroutine `t` runs, entered from plain code. -/
structure State.At {κ ρ μ : Type} (s : State κ ρ μ) (t : ℕ) (locals : κ) : Prop where
  pending : s.pending = none
  stack : s.stack = [t]
  point : s.point t = some (.running locals)

/-- What a task stores of its outcome. -/
def TaskResult.of : Except E V → TaskResult V E
  | .ok v => .value v
  | .error e => .exception e

/-- A body has run to its end: the machine did what direct style did, and the
frames that were neither waiting to be called nor created since are as they
were. -/
structure Completes (code : κ → Stmt κ V E μ) (heap heap' : Heap κ μ) (t : ℕ)
    (outcome : Except E V) (calls : List Call) (s s' : State (Locals κ E) (TaskResult V E) μ) :
    Prop where
  run : ∃ trace, (advanceSystem (compile code)).Run s trace s' ∧
    trace.flatten = calls.flatMap Call.events
  agrees : Agrees heap' s'
  stack : s'.stack = []
  pending : s'.pending = (s.continuation t).map fun c => (c, .finalAwaiter t)
  point : s'.point t = some (.finished (.of outcome))
  frame : ∀ u, u < heap.next → u ≠ t → heap.thunks u = none →
    s'.point u = s.point u ∧ s'.continuation u = s.continuation u
  finished : ∀ u ∈ called calls, ∃ result, s'.point u = some (.finished result)

section Advance

variable {code : κ → Stmt κ V E μ} {heap heap' : Heap κ μ} {t : ℕ} {outcome : Except E V}
  {calls : List Call} {s s' : State (Locals κ E) (TaskResult V E) μ} {locals : Locals κ E}

theorem advance_running (code : κ → Stmt κ V E μ) (hdefined : s.undefined = false)
    (hat : s.At t locals) :
    s.advance (compile code) = s.execute t [] s.now s.now (compile code locals) := by
  simp [State.advance, State.step, hat.pending, hat.stack, hat.point, hdefined]

theorem advance_pending (code : κ → Stmt κ V E μ) {resumer : Resumer}
    (hdefined : s.undefined = false) (hpending : s.pending = some (t, resumer)) :
    s.advance (compile code) = s.resumePending t resumer := by
  simp [State.advance, State.step, hpending, hdefined]

/-- A step of the body that neither calls nor ends. -/
theorem Completes.silent {middle : State (Locals κ E) (TaskResult V E) μ} {heap₁ : Heap κ μ}
    (h : Completes code heap₁ heap' t outcome calls middle s')
    (hstep : s.advance (compile code) = some (middle, []))
    (hcontinuation : middle.continuation t = s.continuation t)
    (hframe : ∀ u, u < heap.next → u ≠ t → heap.thunks u = none →
      (u < heap₁.next ∧ heap₁.thunks u = none) ∧
        middle.point u = s.point u ∧ middle.continuation u = s.continuation u) :
    Completes code heap heap' t outcome calls s s' where
  run := by
    obtain ⟨trace, hrun, hevents⟩ := h.run
    exact ⟨[] :: trace, Run.cons [] hstep hrun, hevents⟩
  agrees := h.agrees
  stack := h.stack
  pending := by rw [h.pending, hcontinuation]
  point := h.point
  frame u hlt hne hnone := by
    obtain ⟨⟨hlt', hnone'⟩, hpoint, hcont⟩ := hframe u hlt hne hnone
    obtain ⟨hpoint', hcont'⟩ := h.frame u hlt' hne hnone'
    exact ⟨hpoint'.trans hpoint, hcont'.trans hcont⟩
  finished := h.finished

/-- The end of a body. -/
theorem completes_ret (hagrees : Agrees heap s) (hat : s.At t locals)
    (hnone : heap.thunks t = none)
    (hcode : compile code locals = .ret (.of outcome)) :
    ∃ s', Completes code heap heap t outcome [] s s' := by
  have hstep := advance_running code hagrees.defined hat
  rw [hcode] at hstep
  have hother : ∀ u, u ≠ t → (s.setPoint t (.finished (.of outcome))).point u = s.point u := by
    intro u hu
    rw [State.point_setPoint, if_neg hu]
  refine ⟨_, ⟨[[]], Run.single hstep, rfl⟩, ⟨hagrees.defined, hagrees.next, hagrees.memory,
    hagrees.fresh, ?_⟩, rfl, rfl, ?_, ?_, ?_⟩
  · intro u body hthunk
    have hne : u ≠ t := by
      rintro rfl
      cases hnone.symm.trans hthunk
    obtain ⟨hpoint, hcont⟩ := hagrees.thunks u body hthunk
    refine ⟨(hother u hne).trans hpoint, ?_⟩
    exact (congrFun (s.continuation_setPoint t (.finished (.of outcome))) u).trans hcont
  · show (s.setPoint t (.finished (.of outcome))).point t = _
    rw [State.point_setPoint, if_pos rfl, hat.point]
    rfl
  · intro u _ hne _
    exact ⟨hother u hne, congrFun (s.continuation_setPoint t (.finished (.of outcome))) u⟩
  · intro u hu
    cases hu

theorem Agrees.thunk_lt (h : Agrees heap s) {u : ℕ} {body : κ}
    (hthunk : heap.thunks u = some body) : u < heap.next := by
  by_contra hge
  cases hthunk.symm.trans (h.fresh u (Nat.le_of_not_lt hge))

/-- `t` goes on with other locals, and maybe other memory. -/
theorem Agrees.goOn (h : Agrees heap s) (hat : s.At t locals) (hnone : heap.thunks t = none)
    (locals' : Locals κ E) (memory : μ) :
    Agrees { heap with memory := memory }
        { s.setPoint t (.running locals') with memory := memory } ∧
      ({ s.setPoint t (.running locals') with memory := memory } :
        State (Locals κ E) (TaskResult V E) μ).At t locals' ∧
      ∀ u, u ≠ t → (s.setPoint t (.running locals')).point u = s.point u := by
  have hother : ∀ u, u ≠ t → (s.setPoint t (.running locals')).point u = s.point u := by
    intro u hu
    rw [State.point_setPoint, if_neg hu]
  refine ⟨⟨h.defined, h.next, rfl, h.fresh, ?_⟩, ⟨hat.pending, hat.stack, ?_⟩, hother⟩
  · intro u body hthunk
    have hne : u ≠ t := by
      rintro rfl
      cases hnone.symm.trans hthunk
    obtain ⟨hpoint, hcont⟩ := h.thunks u body hthunk
    exact ⟨(hother u hne).trans hpoint,
      (congrFun (s.continuation_setPoint t (.running locals')) u).trans hcont⟩
  · show (s.setPoint t (.running locals')).point t = _
    rw [State.point_setPoint, if_pos rfl, hat.point]
    rfl

/-- A new task has run nothing. -/
theorem Agrees.allocate (h : Agrees heap s) (body : κ) :
    Agrees (heap.create body) (s.allocate (.body body)) := by
  refine ⟨h.defined, congrArg (· + 1) h.next, h.memory, ?_, ?_⟩
  · intro u hu
    rw [heap.create_thunks_of_ne body (Nat.ne_of_gt hu)]
    exact h.fresh u (Nat.le_of_succ_le hu)
  · intro u b hthunk
    rw [State.point_allocate, State.continuation_allocate, h.next]
    by_cases hu : u = heap.next
    · subst hu
      rw [heap.create_thunks_next] at hthunk
      cases hthunk
      simp
    · rw [heap.create_thunks_of_ne body hu] at hthunk
      rw [if_neg hu, if_neg hu]
      exact h.thunks u b hthunk

theorem Completes.create {body : κ} {next : ℕ → κ} {k : κ} (hagrees : Agrees heap s)
    (hat : s.At t (.body k)) (hnone : heap.thunks t = none) (hlt : t < heap.next)
    (hcode : code k = .create body next)
    (hrest : ∀ middle : State (Locals κ E) (TaskResult V E) μ, Agrees (heap.create body) middle →
      middle.At t (.body (next heap.next)) →
      ∃ s', Completes code (heap.create body) heap' t outcome calls middle s') :
    ∃ s', Completes code heap heap' t outcome calls s s' := by
  have hstep := advance_running code hagrees.defined hat
  simp only [compile, hcode, State.execute] at hstep
  obtain ⟨hgoOn, hat', hother⟩ := hagrees.goOn hat hnone (.body (next s.nextFrame)) heap.memory
  have hmemory : ({ s.setPoint t (.running (.body (next s.nextFrame))) with
      memory := heap.memory } : State (Locals κ E) (TaskResult V E) μ) =
        s.setPoint t (.running (.body (next s.nextFrame))) := by
    rw [← hagrees.memory]
    rfl
  rw [hmemory] at hgoOn hat'
  have hallocated := hgoOn.allocate body
  have hne : ∀ u, u < heap.next →
      u ≠ (s.setPoint t (.running (.body (next s.nextFrame)))).nextFrame := by
    intro u hu
    show u ≠ s.nextFrame
    rw [hagrees.next]
    exact hu.ne
  obtain ⟨s', hs'⟩ := hrest _ hallocated ⟨hat'.pending, hat'.stack, by
    rw [State.point_allocate, if_neg (hne t hlt), hat'.point, hagrees.next]⟩
  refine ⟨s', hs'.silent hstep ?_ ?_⟩
  · rw [State.continuation_allocate, if_neg (hne t hlt), State.continuation_setPoint]
  · intro u hu hut hunone
    refine ⟨⟨Nat.lt_succ_of_lt hu, ?_⟩, ?_, ?_⟩
    · rw [heap.create_thunks_of_ne body hu.ne]
      exact hunone
    · rw [State.point_allocate, if_neg (hne u hu)]
      exact hother u hut
    · rw [State.continuation_allocate, if_neg (hne u hu), State.continuation_setPoint]

theorem Completes.access {k : κ} (locals' : κ) (memory : μ) (hagrees : Agrees heap s)
    (hat : s.At t (.body k)) (hnone : heap.thunks t = none)
    (hcode : s.execute t [] s.now s.now (compile code (.body k)) =
      some ({ s.setPoint t (.running (.body locals')) with memory := memory }, []))
    (hrest : ∀ middle : State (Locals κ E) (TaskResult V E) μ,
      Agrees { heap with memory := memory } middle → middle.At t (.body locals') →
      ∃ s', Completes code { heap with memory := memory } heap' t outcome calls middle s') :
    ∃ s', Completes code heap heap' t outcome calls s s' := by
  have hstep := advance_running code hagrees.defined hat
  rw [hcode] at hstep
  obtain ⟨hgoOn, hat', hother⟩ := hagrees.goOn hat hnone (.body locals') memory
  obtain ⟨s', hs'⟩ := hrest _ hgoOn hat'
  refine ⟨s', hs'.silent hstep ?_ ?_⟩
  · exact congrFun (s.continuation_setPoint t (.running (.body locals'))) t
  · intro u hu hut hunone
    exact ⟨⟨hu, hunone⟩, hother u hut,
      congrFun (s.continuation_setPoint t (.running (.body locals'))) u⟩

/-- The state after `co_await` has entered the child. -/
structure Entered (heap : Heap κ μ) (t c : ℕ) (body : κ)
    (next : Option (TaskResult V E) → Locals κ E) (s s' : State (Locals κ E) (TaskResult V E) μ) :
    Prop where
  agrees : Agrees (heap.take c) s'
  at_child : s'.At c (.body body)
  continuation : s'.continuation c = some t
  waiting : s'.point t = some (.awaiting c next)
  frame : ∀ u, u ≠ c → (u ≠ t → s'.point u = s.point u) ∧ s'.continuation u = s.continuation u

/-- `await_suspend` records the awaiting coroutine and transfers to the child. -/
theorem enter_child {k body : κ} {c : ℕ} {next : V → κ} {handler : Option (E → κ)}
    (hagrees : Agrees heap s) (hat : s.At t (.body k)) (hnone : heap.thunks t = none)
    (hcode : code k = .await c next handler) (hthunk : heap.thunks c = some body) :
    ∃ s', (advanceSystem (compile code)).Run s
        [[.awaitCall t c], [.resumed c (.awaiter t)]] s' ∧
      Entered heap t c body (awaitResume next handler) s s' := by
  obtain ⟨hinitial, hcont⟩ := hagrees.thunks c body hthunk
  have hct : c ≠ t := by
    rintro rfl
    cases hnone.symm.trans hthunk
  have hstep := advance_running code hagrees.defined hat
  simp only [compile, hcode, State.execute, hinitial] at hstep
  let waiting := (s.setPoint t (.awaiting c (awaitResume next handler))).setContinuation c t
  let transferring : State (Locals κ E) (TaskResult V E) μ :=
    { waiting with stack := [], pending := some (c, .awaiter t) }
  have hwaiting : ∀ u, waiting.point u =
      if u = t then some (.awaiting c (awaitResume next handler)) else s.point u := by
    intro u
    simp only [waiting]
    rw [State.point_setContinuation, State.point_setPoint, hat.point]
    rfl
  have hwaitingCont : ∀ u, waiting.continuation u = if u = c then some t else s.continuation u := by
    intro u
    simp only [waiting]
    rw [State.continuation_setContinuation, State.continuation_setPoint]
    rw [State.point_setPoint, if_neg hct, hinitial]
    simp
  have hchild : transferring.point c = some (.initial (.body body)) := by
    show waiting.point c = _
    rw [hwaiting, if_neg hct, hinitial]
  have hresume : transferring.advance (compile code) = transferring.resumePending c (.awaiter t) :=
    advance_pending code hagrees.defined rfl
  simp only [State.resumePending, hchild] at hresume
  refine ⟨_, Run.cons _ hstep (Run.single hresume), ?_⟩
  have hpoint : ∀ u, (transferring.setPoint c (.running (.body body))).point u =
      if u = c then some (.running (.body body)) else waiting.point u := by
    intro u
    rw [State.point_setPoint, hchild]
    rfl
  have hcontinuation : ∀ u, (transferring.setPoint c (.running (.body body))).continuation u =
      waiting.continuation u := by
    intro u
    rw [State.continuation_setPoint]
    rfl
  constructor
  · refine ⟨hagrees.defined, hagrees.next, hagrees.memory,
      fun u hu => heap_take_fresh hagrees.fresh u hu, ?_⟩
    intro u b hb
    have huc : u ≠ c := by
      rintro rfl
      cases (heap.take_thunks_self u).symm.trans hb
    rw [heap.take_thunks_of_ne huc] at hb
    have hut : u ≠ t := by
      rintro rfl
      cases hnone.symm.trans hb
    obtain ⟨hpointu, hcontu⟩ := hagrees.thunks u b hb
    refine ⟨(hpoint u).trans ?_, (hcontinuation u).trans ?_⟩
    · rw [if_neg huc, hwaiting, if_neg hut, hpointu]
    · rw [hwaitingCont, if_neg huc, hcontu]
  · exact ⟨rfl, rfl, (hpoint c).trans (if_pos rfl)⟩
  · exact (hcontinuation c).trans ((hwaitingCont c).trans (if_pos rfl))
  · refine (hpoint t).trans ?_
    rw [if_neg (Ne.symm hct), hwaiting, if_pos rfl]
  · intro u huc
    refine ⟨fun hut => (hpoint u).trans ?_, (hcontinuation u).trans ?_⟩
    · rw [if_neg huc, hwaiting, if_neg hut]
    · rw [hwaitingCont, if_neg huc]

/-- `final_awaiter` transfers back, and `await_resume` takes the result. -/
theorem return_to_caller (code : κ → Stmt κ V E μ) {c : ℕ} {next : Option (TaskResult V E) → Locals κ E}
    {result : TaskResult V E} (hagrees : Agrees heap s) (hstack : s.stack = [])
    (hpending : s.pending = some (t, .finalAwaiter c))
    (hwaiting : s.point t = some (.awaiting c next))
    (hfinished : s.point c = some (.finished result)) (hnone : heap.thunks t = none) :
    ∃ s', s.advance (compile code) = some (s', [.resumed t (.finalAwaiter c)]) ∧
      Agrees heap s' ∧ s'.At t (next (some result)) ∧
      ∀ u, (u ≠ t → s'.point u = s.point u) ∧ s'.continuation u = s.continuation u := by
  have hresume := advance_pending code hagrees.defined hpending
  have hresult : s.result c = some result := by
    rw [State.result, hfinished]
  simp only [State.resumePending, hwaiting, hresult] at hresume
  have hpoint : ∀ u, (s.setPoint t (.running (next (some result)))).point u =
      if u = t then some (.running (next (some result))) else s.point u := by
    intro u
    rw [State.point_setPoint, hwaiting]
    rfl
  have hcontinuation : ∀ u, (s.setPoint t (.running (next (some result)))).continuation u =
      s.continuation u := by
    intro u
    rw [State.continuation_setPoint]
  refine ⟨_, hresume, ⟨hagrees.defined, hagrees.next, hagrees.memory, hagrees.fresh, ?_⟩,
    ⟨rfl, ?_, (hpoint t).trans (if_pos rfl)⟩, ?_⟩
  · intro u b hb
    have hut : u ≠ t := by
      rintro rfl
      cases hnone.symm.trans hb
    obtain ⟨hpointu, hcontu⟩ := hagrees.thunks u b hb
    exact ⟨((hpoint u).trans (if_neg hut)).trans hpointu, (hcontinuation u).trans hcontu⟩
  · show t :: s.stack = [t]
    rw [hstack]
  · exact fun u => ⟨fun hut => (hpoint u).trans (if_neg hut), hcontinuation u⟩

/-- The caller goes on: the child and all that it called are done. -/
structure Returned (code : κ → Stmt κ V E μ) (heap heap' : Heap κ μ) (t c : ℕ)
    (calls : List Call) (locals : Locals κ E) (s s' : State (Locals κ E) (TaskResult V E) μ) :
    Prop where
  run : ∃ trace, (advanceSystem (compile code)).Run s trace s' ∧
    trace.flatten = (Call.call t c :: calls ++ [Call.ret c t]).flatMap Call.events
  agrees : Agrees heap' s'
  at_caller : s'.At t locals
  continuation : s'.continuation t = s.continuation t
  frame : ∀ u, u < heap.next → u ≠ t → heap.thunks u = none →
    s'.point u = s.point u ∧ s'.continuation u = s.continuation u
  finished : ∀ u ∈ c :: called calls, u ≠ t ∧ u < heap'.next ∧ heap'.thunks u = none ∧
    ∃ result, s'.point u = some (.finished result)

theorem call_child {k body : κ} {c : ℕ} {next : V → κ} {handler : Option (E → κ)}
    (hagrees : Agrees heap s) (hat : s.At t (.body k)) (hnone : heap.thunks t = none)
    (hlt : t < heap.next) (hcode : code k = .await c next handler)
    (hthunk : heap.thunks c = some body) (hbook : Bookkeeping (heap.take c) heap' calls)
    (hchild : ∀ entered : State (Locals κ E) (TaskResult V E) μ, Agrees (heap.take c) entered →
      entered.At c (.body body) →
      ∃ ended, Completes code (heap.take c) heap' c outcome calls entered ended) :
    ∃ s', Returned code heap heap' t c calls (awaitResume next handler (some (.of outcome))) s s' := by
  have hct : c ≠ t := by
    rintro rfl
    cases hnone.symm.trans hthunk
  have htaken : (heap.take c).thunks t = none := by
    rw [heap.take_thunks_of_ne (Ne.symm hct)]
    exact hnone
  have hclt := hagrees.thunk_lt hthunk
  obtain ⟨entered, hrun, hentered⟩ := enter_child hagrees hat hnone hcode hthunk
  obtain ⟨ended, hended⟩ := hchild entered hentered.agrees hentered.at_child
  obtain ⟨trace, hchildRun, hevents⟩ := hended.run
  obtain ⟨hwaiting, hcont⟩ := hended.frame t hlt (Ne.symm hct) htaken
  have hpending : ended.pending = some (t, .finalAwaiter c) := by
    rw [hended.pending, hentered.continuation]
    rfl
  obtain ⟨s', hreturn, hagrees', hat', hkept⟩ := return_to_caller code hended.agrees
    hended.stack hpending (hwaiting.trans hentered.waiting) hended.point (hbook.gone t hlt htaken)
  refine ⟨s', ⟨⟨_, (hrun.append hchildRun).snoc _ hreturn, ?_⟩, hagrees', hat', ?_, ?_, ?_⟩⟩
  · simp [hevents, Call.events]
  · rw [(hkept t).2, hcont, (hentered.frame t (Ne.symm hct)).2]
  · intro u hu hut hunone
    have huc : u ≠ c := by
      rintro rfl
      cases hthunk.symm.trans hunone
    obtain ⟨hpoint, hcontinuation⟩ := hended.frame u hu huc (by
      rw [heap.take_thunks_of_ne huc]
      exact hunone)
    exact ⟨((hkept u).1 hut).trans (hpoint.trans ((hentered.frame u huc).1 hut)),
      (hkept u).2.trans (hcontinuation.trans (hentered.frame u huc).2)⟩
  · intro u hu
    rcases List.mem_cons.mp hu with rfl | hu
    · exact ⟨hct, lt_of_lt_of_le hclt hbook.next_le, hbook.gone u hclt (heap.take_thunks_self u),
        _, ((hkept u).1 hct).trans hended.point⟩
    · obtain ⟨hgone, hult, hold⟩ := hbook.made u hu
      have hut : u ≠ t := by
        rintro rfl
        exact hold hlt htaken
      obtain ⟨result, hresult⟩ := hended.finished u hu
      exact ⟨hut, hult, hgone, result, ((hkept u).1 hut).trans hresult⟩

/-- A call, and then the rest of the body. -/
theorem Returned.completes {middle : State (Locals κ E) (TaskResult V E) μ} {heap'' : Heap κ μ}
    {c : ℕ} {more : List Call} {last : Except E V}
    (h : Returned code heap heap' t c calls locals s middle) (hle : heap.next ≤ heap'.next)
    (hgone : ∀ u, u < heap.next → u ≠ t → heap.thunks u = none → heap'.thunks u = none)
    (hrest : Completes code heap' heap'' t last more middle s') :
    Completes code heap heap'' t last (.call t c :: calls ++ .ret c t :: more) s s' where
  run := by
    obtain ⟨first, hfirst, hevents⟩ := h.run
    obtain ⟨second, hsecond, hmore⟩ := hrest.run
    refine ⟨first ++ second, hfirst.append hsecond, ?_⟩
    rw [List.flatten_append, hevents, hmore, ← List.flatMap_append]
    simp
  agrees := hrest.agrees
  stack := hrest.stack
  pending := by rw [hrest.pending, h.continuation]
  point := hrest.point
  frame u hu hut hunone := by
    obtain ⟨hpoint, hcont⟩ := h.frame u hu hut hunone
    obtain ⟨hpoint', hcont'⟩ := hrest.frame u (lt_of_lt_of_le hu hle) hut (hgone u hu hut hunone)
    exact ⟨hpoint'.trans hpoint, hcont'.trans hcont⟩
  finished u hu := by
    rw [called_call, ← List.cons_append] at hu
    rcases List.mem_append.mp hu with hu | hu
    · obtain ⟨hut, hult, hnone, result, hresult⟩ := h.finished u hu
      exact ⟨result, (hrest.frame u hult hut hnone).1.trans hresult⟩
    · exact hrest.finished u hu

/-- The caller and the tasks that are no thunks stay so while a child runs. -/
theorem heap_taken {c : ℕ} {body : κ} (hthunk : heap.thunks c = some body)
    (hnone : heap.thunks t = none) (hbook : Bookkeeping (heap.take c) heap' calls) :
    (heap.take c).thunks t = none ∧
      ∀ u, u < heap.next → u ≠ t → heap.thunks u = none → heap'.thunks u = none := by
  have hother : ∀ u, heap.thunks u = none → (heap.take c).thunks u = none := by
    intro u hu
    have huc : u ≠ c := by
      rintro rfl
      cases hthunk.symm.trans hu
    rw [heap.take_thunks_of_ne huc]
    exact hu
  exact ⟨hother t hnone, fun u hlt _ hu => hbook.gone u hlt (hother u hu)⟩

theorem awaitResume_of (next : V → κ) (handler : Option (E → κ)) (outcome : Except E V) :
    awaitResume next handler (some (.of outcome)) =
      match afterAwait next handler outcome with
      | .inl k => .body k
      | .inr e => .escaping e := by
  cases outcome <;> rfl

end Advance

/-- The simulation: a body that evaluates in direct style runs to its end on the
machine, by the same calls and to the same outcome. -/
theorem Evaluates.completes {code : κ → Stmt κ V E μ} {t : ℕ} {k : κ} {heap heap' : Heap κ μ}
    {outcome : Except E V} {calls : List Call}
    (h : Evaluates code t k heap outcome heap' calls)
    (s : State (Locals κ E) (TaskResult V E) μ) (hagrees : Agrees heap s) (hat : s.At t (.body k))
    (hnone : heap.thunks t = none) (hlt : t < heap.next) :
    ∃ s', Completes code heap heap' t outcome calls s s' := by
  induction h generalizing s with
  | create hcode hrest ih =>
      refine Completes.create hagrees hat hnone hlt hcode (fun middle hmiddle hat' => ?_)
      refine ih middle hmiddle hat' ?_ (Nat.lt_succ_of_lt hlt)
      rw [Heap.create_thunks_of_ne _ _ hlt.ne]
      exact hnone
  | @get t k heap heap' outcome calls next hcode hrest ih =>
      refine Completes.access (next heap.memory) heap.memory hagrees hat
        hnone ?_ (fun middle hmiddle hat' => ih middle hmiddle hat' hnone hlt)
      simp only [compile, hcode, State.execute]
      rw [← hagrees.memory]
      rfl
  | @set t k heap heap' outcome calls memory next hcode hrest ih =>
      refine Completes.access next memory hagrees hat hnone ?_
        (fun middle hmiddle hat' => ih middle hmiddle hat' hnone hlt)
      simp only [compile, hcode, State.execute]
  | coReturn hcode =>
      exact completes_ret hagrees hat hnone (by simp [compile, hcode, TaskResult.of])
  | throw hcode =>
      exact completes_ret hagrees hat hnone (by simp [compile, hcode, TaskResult.of])
  | @escapes t k heap heap' c next handler body outcome calls e hcode hthunk hchild hafter ih =>
      have hbook := hchild.bookkeeping (heap_take_fresh hagrees.fresh)
      obtain ⟨htaken, hgone⟩ := heap_taken hthunk hnone hbook
      obtain ⟨middle, hreturned⟩ := call_child hagrees hat hnone hlt hcode hthunk hbook
        (fun entered h hat' => ih entered h hat' (heap.take_thunks_self c)
          (hagrees.thunk_lt hthunk))
      rw [awaitResume_of, hafter] at hreturned
      obtain ⟨s', hlast⟩ := completes_ret hreturned.agrees hreturned.at_caller
        (hbook.gone t hlt htaken)
        (show compile code (.escaping e) = .ret (.of (.error e : Except E V)) from rfl)
      exact ⟨s', hreturned.completes hbook.next_le hgone hlast⟩
  | @goesOn t k locals' heap heap' heap'' c next handler body outcome last calls more hcode hthunk
      hchild hafter hrest ihchild ihrest =>
      have hbook := hchild.bookkeeping (heap_take_fresh hagrees.fresh)
      obtain ⟨htaken, hgone⟩ := heap_taken hthunk hnone hbook
      obtain ⟨middle, hreturned⟩ := call_child hagrees hat hnone hlt hcode hthunk hbook
        (fun entered h hat' => ihchild entered h hat' (heap.take_thunks_self c)
          (hagrees.thunk_lt hthunk))
      rw [awaitResume_of, hafter] at hreturned
      obtain ⟨s', hlast⟩ := ihrest middle hreturned.agrees hreturned.at_caller
        (hbook.gone t hlt htaken) (lt_of_lt_of_le hlt hbook.next_le)
      exact ⟨s', hreturned.completes hbook.next_le hgone hlast⟩

/-! From runs of the machine to `sync_wait`. -/

theorem not_idle_of_advance {κ ρ μ : Type} {code : κ → Instr κ ρ μ} {s s' : State κ ρ μ}
    {events : List Event} (h : s.advance code = some (s', events)) : s.idle = false := by
  cases hpending : s.pending with
  | some p => simp [State.idle, hpending]
  | none =>
      cases hstack : s.stack with
      | cons t rest => simp [State.idle, hstack]
      | nil =>
          rw [State.advance, hpending] at h
          simp only [State.step, hpending, hstack] at h
          split at h <;> cases h

/-- A run that ends idle is what `drive` does, given enough fuel. -/
theorem drive_of_run {κ ρ μ : Type} {code : κ → Instr κ ρ μ} {trace : List (List Event)} :
    ∀ {s s' : State κ ρ μ}, (advanceSystem code).Run s trace s' → s'.idle = true →
      ∀ fuel, trace.length ≤ fuel → s.drive code fuel = some (s', trace.flatten) := by
  induction trace with
  | nil =>
      intro s s' hrun hidle fuel _
      obtain rfl := hrun.eq_of_nil
      cases fuel <;> simp [State.drive, hidle]
  | cons events trace ih =>
      intro s s' hrun hidle fuel hfuel
      obtain ⟨middle, hstep, hrest⟩ := hrun.of_cons
      obtain ⟨n, rfl⟩ : ∃ n, fuel = n + 1 := ⟨fuel - 1, by simp at hfuel; omega⟩
      have hnot := not_idle_of_advance hstep
      have hdrive := ih hrest hidle n (Nat.le_of_succ_le_succ hfuel)
      rw [State.drive, hnot, if_neg Bool.false_ne_true]
      simp only [show s.advance code = some (middle, events) from hstep, hdrive,
        List.flatten_cons]

/-- The call of the root is being made, and nothing else has been created. -/
def Heap.initial (memory : μ) : Heap κ μ := ⟨fun _ => none, 1, memory⟩

theorem start_root (code : κ → Stmt κ V E μ) (root : κ) (memory : μ) :
    ∃ entered : State (Locals κ E) (TaskResult V E) μ,
      (∀ s events, (advanceSystem (compile code)).Run entered events s → s.idle = true →
        ∀ n, events.length + 1 ≤ n → ∀ outcome,
        ((s.result 0).getD .empty).take = some outcome →
        syncWait code n ((State.init memory).allocate (.body root)) 0 =
          some (outcome, s, [.startCall 0, .resumed 0 .start] ++ events.flatten)) ∧
      Agrees (.initial memory) entered ∧ entered.At 0 (.body root) ∧
      entered.continuation 0 = none := by
  let created : State (Locals κ E) (TaskResult V E) μ := (State.init memory).allocate (.body root)
  let starting : State (Locals κ E) (TaskResult V E) μ :=
    { created with pending := some (0, .start) }
  have hpoint : created.point 0 = some (.initial (.body root)) := by
    simp only [created]
    rw [State.point_allocate]
    rfl
  have hstart : created.step (compile code) (.start 0) = some (starting, [.startCall 0]) := by
    show created.callStart 0 = _
    simp only [State.callStart, hpoint]
    rfl
  have hresume : starting.advance (compile code) =
      some ({ starting.setPoint 0 (.running (.body root)) with pending := none, stack := [0] },
        [.resumed 0 .start]) := by
    have hpending : starting.advance (compile code) = starting.resumePending 0 .start :=
      advance_pending code rfl rfl
    rw [hpending]
    simp only [State.resumePending, show starting.point 0 = _ from hpoint]
    rfl
  refine ⟨{ starting.setPoint 0 (.running (.body root)) with pending := none, stack := [0] },
    ?_, ⟨rfl, rfl, rfl, fun _ _ => rfl, ?_⟩, ⟨rfl, rfl, ?_⟩, ?_⟩
  · intro s events hrun hidle n hn outcome houtcome
    have hdrive := drive_of_run (Run.cons _ hresume hrun) hidle n hn
    rw [syncWait, show ((State.init memory).allocate (.body root)).step (compile code)
      (.start 0) = _ from hstart]
    simp only [hdrive, houtcome]
    rfl
  · intro t body hthunk
    cases hthunk
  · show (starting.setPoint 0 (.running (.body root))).point 0 = _
    rw [State.point_setPoint, if_pos rfl, show starting.point 0 = _ from hpoint]
    rfl
  · rfl

/-- `sync_wait` agrees with direct style: it returns the value or rethrows the
exception of direct evaluation and leaves the same memory; the root and every
child that is called are entered once, in the order of the calls, a child at
its `co_await` and not before; they are done, and a task that is not awaited has
run nothing. -/
theorem sync_wait_agrees (code : κ → Stmt κ V E μ) (root : κ) (memory : μ) {fuel : ℕ}
    {outcome : Except E V} {heap : Heap κ μ} {calls : List Call}
    (h : direct code fuel 0 root (.initial memory) = some (outcome, heap, calls)) :
    ∃ steps s events, (∀ n, steps ≤ n →
        syncWait code n ((State.init memory).allocate (.body root)) 0 =
          some (outcome, s, events)) ∧
      s.memory = heap.memory ∧
      events = [.startCall 0, .resumed 0 .start] ++ calls.flatMap Call.events ∧
      (0 :: called calls).Nodup ∧ CalledFirst [0] calls ∧
      (∀ t ∈ 0 :: called calls, ∃ result, s.point t = some (.finished result)) ∧
      ∀ t, t < s.nextFrame → t ∉ 0 :: called calls → ∃ body, s.point t = some (.initial body) := by
  have hevaluates := direct_evaluates h
  have hbook := hevaluates.bookkeeping (fun _ _ => rfl)
  obtain ⟨entered, hsync, hagrees, hat, hcont⟩ := start_root code root memory
  obtain ⟨s, hs⟩ := hevaluates.completes entered hagrees hat rfl Nat.zero_lt_one
  obtain ⟨trace, hrun, hevents⟩ := hs.run
  have hidle : s.idle = true := by
    rw [State.idle, hs.pending, hcont, hs.stack]
    rfl
  have houtcome : ((s.result 0).getD .empty).take = some outcome := by
    rw [State.result, hs.point]
    cases outcome <;> rfl
  refine ⟨trace.length + 1, s, _, fun n hn => hsync s trace hrun hidle n hn outcome houtcome,
    hs.agrees.memory, by rw [hevents], ?_, hevaluates.calledFirst, ?_, ?_⟩
  · refine List.nodup_cons.mpr ⟨fun hin => ?_, hbook.nodup⟩
    exact (hbook.made 0 hin).2.2 Nat.zero_lt_one rfl
  · intro t ht
    rcases List.mem_cons.mp ht with rfl | ht
    · exact ⟨_, hs.point⟩
    · exact hs.finished t ht
  · intro t hlt hnot
    rw [hs.agrees.next] at hlt
    rw [List.mem_cons, not_or] at hnot
    cases hthunk : heap.thunks t with
    | some body => exact ⟨_, (hs.agrees.thunks t body hthunk).1⟩
    | none =>
        have hroot := (hbook.kept t hlt hnot.2 hthunk).1
        exact absurd (Nat.lt_one_iff.mp hroot) hnot.1

/-- The root awaits a child in `try`; the child awaits a task that throws, and
creates another one that it does not await. -/
def rescued : ℕ × ℕ → Stmt (ℕ × ℕ) ℕ ℕ (List ℕ)
  | (0, _) => .create (10, 0) (fun t => (1, t))
  | (1, t) => .await t (fun v => (2, v)) (some fun e => (2, e + 1))
  | (2, v) => .coReturn v
  | (10, _) => .create (20, 0) (fun t => (11, t))
  | (11, t) => .create (2, 5) (fun _ => (12, t))
  | (12, t) => .await t (fun v => (2, v)) none
  | (20, _) => .set [1] (21, 0)
  | (_, _) => .throw 7

theorem sync_wait_agrees_rescued : ∃ steps s events,
    (∀ n, steps ≤ n → syncWait rescued n ((State.init []).allocate (.body (0, 0))) 0 =
      some (.ok 8, s, events)) ∧ s.memory = [1] := by
  obtain ⟨heap, hdirect, hmemory⟩ : ∃ heap, direct rescued 20 0 (0, 0) (.initial []) =
      some (.ok 8, heap, [.call 0 1, .call 1 2, .ret 2 1, .ret 1 0]) ∧ heap.memory = [1] :=
    ⟨_, rfl, rfl⟩
  obtain ⟨steps, s, events, hsync, hsame, -⟩ := sync_wait_agrees rescued (0, 0) [] hdirect
  exact ⟨steps, s, events, hsync, hsame.trans hmemory⟩

end CppWorkspace.Coro
