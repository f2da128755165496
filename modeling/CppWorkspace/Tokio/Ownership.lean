import CppWorkspace.Tokio.Bridge

/-!
Who owns a parked operation. Each await is in one place: parked on the heap
behind a context that one task or one tokio thread holds, posted to the
`io_context`, or resumed.
-/

namespace CppWorkspace.Tokio.Bridge

open Lib System

variable {E : Type*}

/-- The await whose handler is parked at an address. -/
def owner (heap : Nat → Option (PendingOp E)) (ctx : Nat) : Option Nat :=
  (heap ctx).bind (fun op => op.handler.map Handler.await)

theorem Thread.eq_loop {thread : Thread} (h : thread.inRun = true) : thread = .loop := by
  cases thread with
  | loop => rfl
  | tokio => cases h

def Ready.await : Ready E → Option Nat
  | .plain => none
  | .resume handler _ _ => some handler.await

namespace State

/-- The contexts that tasks and tokio threads hold. -/
def held (s : State E) : List Nat := s.tasks.map TokioTask.ctx ++ s.resuming.map Resuming.ctx

def parked (s : State E) : List Nat := s.held.filterMap (owner s.heap)

def posted (s : State E) : List Nat := s.queue.filterMap Ready.await

/-- How often the coroutine of an await has been resumed. -/
def resumptions (s : State E) (await : Nat) : Nat := (s.resumed.map Resumption.await).count await

/-- The steps that the unresumed awaits still have before them. -/
def remaining (s : State E) : Nat := 3 * s.tasks.length + 2 * s.resuming.length + s.posted.length

/-- Some step brings an await closer to its resumption. -/
def CanAdvance (s : State E) : Prop := ∃ act s', Step s act s' ∧ s'.remaining < s.remaining

end State

/-- Every await is in one place, every context stands for the operation it was
parked for, and the outstanding work counts guards, posted and running
handlers. -/
structure Accounted (s : State E) : Prop where
  place : ∀ i, s.parked.count i + s.posted.count i + s.resumptions i =
    if i < s.awaits.length then 1 else 0
  distinct : (s.held ++ s.releasing).Nodup
  task_op : ∀ t ∈ s.tasks, ∃ handler, s.heap t.ctx =
      some ⟨t.call.kind, some handler, handler.executor⟩ ∧
    s.awaits[handler.await]? = some (t.call, handler.executor)
  resuming_op : ∀ r ∈ s.resuming, ∃ handler call, s.heap r.ctx =
      some ⟨r.value.kind, some handler, handler.executor⟩ ∧
    s.awaits[handler.await]? = some (call, handler.executor) ∧ r.value = call.result
  releasing_op : ∀ ctx ∈ s.releasing, s.heap ctx ≠ none
  posted_ok : ∀ handler value executor, Ready.resume handler value executor ∈ s.queue →
    executor = handler.executor ∧
      ∃ call, s.awaits[handler.await]? = some (call, handler.executor) ∧ value = call.result
  resumed_ok : ∀ r ∈ s.resumed, r.thread = .loop ∧
    ∃ call, s.awaits[r.await]? = some (call, r.executor) ∧ r.value = call.result
  work : s.outstanding =
    s.held.length + s.releasing.length + s.queue.length + s.running
  stopped : s.stopped = true → s.outstanding = 0
  defined : s.undefined = false

theorem accounted_initial : Accounted ({} : State E) where
  place := by simp [State.parked, State.held, State.posted, State.resumptions]
  distinct := by simp [State.held]
  task_op := by simp
  resuming_op := by simp
  releasing_op := by simp
  posted_ok := by simp
  resumed_ok := by simp
  work := by simp [State.held]
  stopped := by simp
  defined := rfl

/-- The result of a call has the type its completion hands over. -/
theorem Call.result_kind (call : Call) : call.result.kind = call.kind := by
  cases call <;> rfl

theorem filterMap_owner_update (heap : Nat → Option (PendingOp E)) {ctx : Nat}
    (op : Option (PendingOp E)) {contexts : List Nat} (hctx : ctx ∉ contexts) :
    contexts.filterMap (owner (Function.update heap ctx op)) = contexts.filterMap (owner heap) := by
  apply List.filterMap_congr
  intro other hother
  have hne : other ≠ ctx := by
    rintro rfl
    exact hctx hother
  simp [owner, hne]

/-- Every held context is the address of a live operation. -/
theorem Accounted.held_live {s : State E} (h : Accounted s) :
    ∀ ctx ∈ s.held ++ s.releasing, s.heap ctx ≠ none := by
  intro ctx hctx
  simp only [State.held, List.mem_append, List.mem_map] at hctx
  rcases hctx with (⟨t, ht, rfl⟩ | ⟨r, hr, rfl⟩) | hrel
  · obtain ⟨handler, hop, -⟩ := h.task_op t ht
    simp [hop]
  · obtain ⟨handler, call, hop, -⟩ := h.resuming_op r hr
    simp [hop]
  · exact h.releasing_op ctx hrel

theorem awaits_getElem?_append {awaits : List (Call × E)} {i : Nat} {entry : Call × E}
    (more : List (Call × E)) (h : awaits[i]? = some entry) : (awaits ++ more)[i]? = some entry := by
  rw [List.getElem?_append_left (List.getElem?_eq_some_iff.mp h).1]
  exact h

theorem task_held {s : State E} {t : TokioTask} (ht : t ∈ s.tasks) :
    t.ctx ∈ s.held :=
  List.mem_append_left _ (List.mem_map_of_mem ht)

theorem resuming_held {s : State E} {r : Resuming} (hr : r ∈ s.resuming) :
    r.ctx ∈ s.held :=
  List.mem_append_right _ (List.mem_map_of_mem hr)

/-- A free address takes the new operation; every other await stays where it
is. -/
theorem Accounted.park {s : State E} (h : Accounted s) (call : Call) (executor : E) {ctx : Nat}
    (hrunning : 0 < s.running) (hfree : s.heap ctx = none) :
    Accounted (s.park call executor ctx) := by
  have hnot : ctx ∉ s.held ++ s.releasing := fun hctx => h.held_live ctx hctx hfree
  have hheap : ∀ other ∈ s.held ++ s.releasing,
      (s.park call executor ctx).heap other = s.heap other := by
    intro other hother
    have hne : other ≠ ctx := by
      rintro rfl
      exact hnot hother
    simp [State.park, hne]
  have hheld : (s.park call executor ctx).held.Perm (ctx :: s.held) := by
    simp only [State.held, State.park, List.map_append, List.map_cons, List.map_nil,
      List.append_assoc]
    exact List.perm_middle
  have hparked : ∀ i, (s.park call executor ctx).parked.count i =
      s.parked.count i + if s.awaits.length = i then 1 else 0 := by
    intro i
    rw [State.parked, (hheld.filterMap _).count_eq]
    simp only [State.park, State.parked]
    rw [List.filterMap_cons]
    rw [filterMap_owner_update s.heap _ (fun hmem => hnot (List.mem_append_left _ hmem))]
    simp [owner, List.count_cons]
  constructor
  · intro i
    have hplace := h.place i
    have hcount := hparked i
    simp only [State.posted, State.resumptions, State.park, List.length_append,
      List.length_singleton] at hplace hcount ⊢
    split at hplace <;> split <;> split at hcount <;> omega
  · rw [(hheld.append_right _).nodup_iff, List.cons_append, List.nodup_cons]
    exact ⟨hnot, h.distinct⟩
  · intro t ht
    rcases List.mem_append.mp ht with hold | hnew
    · obtain ⟨handler, hop, hawait⟩ := h.task_op t hold
      rw [hheap _ (List.mem_append_left _ (task_held hold))]
      exact ⟨handler, hop, awaits_getElem?_append _ hawait⟩
    · obtain rfl := List.mem_singleton.mp hnew
      exact ⟨⟨s.awaits.length, executor⟩, by simp [State.park], by simp [State.park]⟩
  · intro r hr
    obtain ⟨handler, call', hop, hawait, hvalue⟩ := h.resuming_op r hr
    rw [hheap _ (List.mem_append_left _ (resuming_held hr))]
    exact ⟨handler, call', hop, awaits_getElem?_append _ hawait, hvalue⟩
  · intro other hother
    rw [hheap _ (List.mem_append_right _ hother)]
    exact h.releasing_op other hother
  · intro handler value executor' hmem
    obtain ⟨hexecutor, call', hawait, hvalue⟩ := h.posted_ok handler value executor' hmem
    exact ⟨hexecutor, call', awaits_getElem?_append _ hawait, hvalue⟩
  · intro r hr
    obtain ⟨hthread, call', hawait, hvalue⟩ := h.resumed_ok r hr
    exact ⟨hthread, call', awaits_getElem?_append _ hawait, hvalue⟩
  · rw [hheld.length_eq]
    have hwork := h.work
    simp only [State.park, List.length_cons]
    omega
  · intro hstopped
    have hzero := h.stopped hstopped
    have hwork := h.work
    omega
  · exact h.defined

/-- The task is over; its context and its result are with the thread that calls
the completion. -/
theorem Accounted.complete {s : State E} (h : Accounted s) {before after : List TokioTask}
    {task : TokioTask} (htasks : s.tasks = before ++ task :: after) :
    Accounted { s with
      tasks := before ++ after
      resuming := s.resuming ++ [⟨task.ctx, task.call.result⟩] } := by
  have hheld : (State.held { s with
      tasks := before ++ after
      resuming := s.resuming ++ [⟨task.ctx, task.call.result⟩] }).Perm s.held := by
    simp only [State.held, htasks, List.map_append, List.map_cons, List.map_nil, List.append_assoc]
    apply List.Perm.append_left
    rw [← List.append_assoc, List.cons_append]
    exact List.perm_append_singleton _ _
  constructor
  · intro i
    rw [State.parked, (hheld.filterMap _).count_eq]
    exact h.place i
  · rw [(hheld.append_right _).nodup_iff]
    exact h.distinct
  · intro t ht
    apply h.task_op t
    rw [htasks]
    rcases List.mem_append.mp ht with hbefore | hafter
    · exact List.mem_append_left _ hbefore
    · exact List.mem_append_right _ (List.mem_cons_of_mem _ hafter)
  · intro r hr
    rcases List.mem_append.mp hr with hold | hnew
    · exact h.resuming_op r hold
    · obtain rfl := List.mem_singleton.mp hnew
      obtain ⟨handler, hop, hawait⟩ := h.task_op task (by rw [htasks]; simp)
      exact ⟨handler, task.call, by rw [Call.result_kind]; exact hop, hawait, rfl⟩
  · exact h.releasing_op
  · exact h.posted_ok
  · exact h.resumed_ok
  · rw [hheld.length_eq]
    exact h.work
  · exact h.stopped
  · exact h.defined

/-- The handler leaves the operation for the queue of the `io_context`; the
guard stays until the operation is destroyed. -/
theorem Accounted.post {s : State E} (h : Accounted s) {before after : List Resuming}
    {ctx : Nat} {value : Value} (hresuming : s.resuming = before ++ ⟨ctx, value⟩ :: after) :
    Accounted (State.post { s with resuming := before ++ after } ctx value) := by
  obtain ⟨handler, call, hop, hawait, hvalue⟩ := h.resuming_op ⟨ctx, value⟩ (by rw [hresuming]; simp)
  simp only at hop hvalue
  simp only [State.post, hop, if_true]
  generalize hnext : ({ s with
    resuming := before ++ after
    heap := Function.update s.heap ctx (some ⟨value.kind, none, handler.executor⟩)
    releasing := s.releasing ++ [ctx]
    queue := s.queue ++ [.resume handler value handler.executor]
    outstanding := s.outstanding + 1 } : State E) = next
  have hheld : s.held.Perm (ctx :: next.held) := by
    rw [← hnext]
    simp only [State.held, hresuming, List.map_append, List.map_cons, ← List.append_assoc]
    exact List.perm_middle
  have hall : (s.held ++ s.releasing).Perm (ctx :: (next.held ++ s.releasing)) :=
    hheld.append_right _
  have hnodup := hall.nodup_iff.mp h.distinct
  have hnot : ctx ∉ next.held ++ s.releasing := (List.nodup_cons.mp hnodup).1
  have hheap : ∀ other ∈ next.held ++ s.releasing, next.heap other = s.heap other := by
    intro other hother
    have hne : other ≠ ctx := by
      rintro rfl
      exact hnot hother
    rw [← hnext]
    simp [hne]
  have hparked : ∀ i, s.parked.count i =
      next.parked.count i + if handler.await = i then 1 else 0 := by
    intro i
    have hsame : next.held.filterMap (owner next.heap) = next.held.filterMap (owner s.heap) := by
      apply List.filterMap_congr
      intro other hother
      rw [owner, hheap other (List.mem_append_left _ hother), owner]
    rw [State.parked, (hheld.filterMap _).count_eq, List.filterMap_cons, State.parked, hsame]
    simp [owner, hop, List.count_cons]
  constructor
  · intro i
    have hplace := h.place i
    have hcount := hparked i
    rw [← hnext] at hcount ⊢
    simp only [State.posted, State.resumptions, List.filterMap_append, List.count_append,
      List.filterMap_cons, List.filterMap_nil, Ready.await, List.count_singleton] at hplace hcount ⊢
    split at hcount
    · next heq => simp only [heq, beq_self_eq_true, if_true] at hcount ⊢; omega
    · next hne => simp only [beq_iff_eq, hne, if_false] at hcount ⊢; omega
  · have hmoved : (next.held ++ next.releasing).Perm (ctx :: (next.held ++ s.releasing)) := by
      rw [← hnext, ← List.append_assoc]
      exact List.perm_append_singleton _ _
    rw [hmoved.nodup_iff]
    exact hnodup
  · intro t ht
    have htask : t ∈ s.tasks := by
      rw [← hnext] at ht
      exact ht
    obtain ⟨handler', hop', hawait'⟩ := h.task_op t htask
    rw [hheap _ (List.mem_append_left _ (task_held ht)), ← hnext]
    exact ⟨handler', hop', hawait'⟩
  · intro r hr
    have hold : r ∈ s.resuming := by
      rw [← hnext] at hr
      rw [hresuming]
      rcases List.mem_append.mp hr with hbefore | hafter
      · exact List.mem_append_left _ hbefore
      · exact List.mem_append_right _ (List.mem_cons_of_mem _ hafter)
    obtain ⟨handler', call', hop', hawait', hvalue'⟩ := h.resuming_op r hold
    rw [hheap _ (List.mem_append_left _ (resuming_held hr)), ← hnext]
    exact ⟨handler', call', hop', hawait', hvalue'⟩
  · intro other hother
    rw [← hnext] at hother
    rcases List.mem_append.mp hother with hold | hnew
    · rw [hheap _ (List.mem_append_right _ hold)]
      exact h.releasing_op other hold
    · rw [List.mem_singleton.mp hnew, ← hnext]
      simp
  · intro handler' value' executor hmem
    rw [← hnext] at hmem ⊢
    rcases List.mem_append.mp hmem with hold | hnew
    · exact h.posted_ok handler' value' executor hold
    · obtain ⟨rfl, rfl, rfl⟩ := Ready.resume.inj (List.mem_singleton.mp hnew)
      exact ⟨rfl, call, hawait, hvalue⟩
  · rw [← hnext]
    exact h.resumed_ok
  · have hwork := h.work
    rw [hheld.length_eq] at hwork
    rw [← hnext] at hwork ⊢
    simp only [List.length_append, List.length_cons, List.length_nil] at hwork ⊢
    omega
  · intro hstopped
    rw [← hnext] at hstopped
    have hzero := h.stopped hstopped
    have hwork := h.work
    rw [hheld.length_eq, List.length_cons] at hwork
    omega
  · rw [← hnext]
    exact h.defined

theorem workFinished_stopped {s : State E} (hstopped : s.stopped = true → s.outstanding = 0) :
    s.workFinished.stopped = true → s.workFinished.outstanding = 0 := by
  intro h
  simp only [State.workFinished, Bool.or_eq_true, decide_eq_true_eq] at h ⊢
  rcases h with hold | hnow
  · rw [hstopped hold]
  · exact hnow

/-- The emptied operation is destroyed with its guard. -/
theorem Accounted.release {s : State E} (h : Accounted s) {before after : List Nat} {ctx : Nat}
    (hreleasing : s.releasing = before ++ ctx :: after) :
    Accounted (State.release { s with releasing := before ++ after } ctx) := by
  have hlive : s.heap ctx ≠ none := h.releasing_op ctx (by rw [hreleasing]; simp)
  obtain ⟨op, hop⟩ := Option.ne_none_iff_exists'.mp hlive
  simp only [State.release, hop]
  have hall : (s.held ++ s.releasing).Perm (ctx :: (s.held ++ (before ++ after))) := by
    rw [hreleasing, ← List.append_assoc, ← List.append_assoc]
    exact List.perm_middle
  have hnodup := hall.nodup_iff.mp h.distinct
  have hnot : ctx ∉ s.held ++ (before ++ after) := (List.nodup_cons.mp hnodup).1
  have hheap : ∀ other ∈ s.held ++ (before ++ after),
      Function.update s.heap ctx none other = s.heap other := by
    intro other hother
    have hne : other ≠ ctx := by
      rintro rfl
      exact hnot hother
    simp [hne]
  constructor
  · intro i
    have hparked := filterMap_owner_update s.heap none
      (fun hmem => hnot (List.mem_append_left _ hmem))
    have hplace := h.place i
    simp only [State.parked] at hplace
    rw [← hparked] at hplace
    exact hplace
  · exact (List.nodup_cons.mp hnodup).2
  · intro t ht
    obtain ⟨handler, hopt, hawait⟩ := h.task_op t ht
    exact ⟨handler, (hheap _ (List.mem_append_left _ (task_held ht))).trans hopt, hawait⟩
  · intro r hr
    obtain ⟨handler, call, hopr, hawait, hvalue⟩ := h.resuming_op r hr
    exact ⟨handler, call, (hheap _ (List.mem_append_left _ (resuming_held hr))).trans hopr, hawait,
      hvalue⟩
  · intro other hother
    have hold : other ∈ s.releasing := by
      rw [hreleasing]
      rcases List.mem_append.mp hother with hbefore | hafter
      · exact List.mem_append_left _ hbefore
      · exact List.mem_append_right _ (List.mem_cons_of_mem _ hafter)
    intro hnone
    exact h.releasing_op other hold ((hheap _ (List.mem_append_right _ hother)).symm.trans hnone)
  · exact h.posted_ok
  · exact h.resumed_ok
  · have hwork := h.work
    rw [hreleasing, List.length_append, List.length_cons] at hwork
    simp only [State.workFinished, State.held, List.length_append] at hwork ⊢
    omega
  · exact workFinished_stopped h.stopped
  · exact h.defined

/-- A thread inside `run` takes a posted handler. -/
theorem Accounted.run {s : State E} (h : Accounted s) {before after : List (Ready E)}
    {item : Ready E} {thread : Thread} (hthread : thread.inRun = true)
    (hqueue : s.queue = before ++ item :: after) :
    Accounted (State.enter { s with queue := before ++ after } thread item) := by
  have hposted : ∀ i, s.posted.count i = ((before ++ after).filterMap Ready.await).count i +
      item.await.toList.count i := by
    intro i
    simp only [State.posted, hqueue, List.filterMap_append, List.filterMap_cons, List.count_append]
    cases item.await with
    | none => simp
    | some j =>
        simp only [Option.toList_some, List.count_cons, List.count_nil]
        omega
  have hsub : ∀ other ∈ before ++ after, other ∈ s.queue := by
    intro other hother
    rw [hqueue]
    rcases List.mem_append.mp hother with hbefore | hafter
    · exact List.mem_append_left _ hbefore
    · exact List.mem_append_right _ (List.mem_cons_of_mem _ hafter)
  have hlength : s.queue.length = (before ++ after).length + 1 := by
    rw [hqueue]
    simp only [List.length_append, List.length_cons]
    omega
  have hwork := h.work
  cases item with
  | plain =>
      constructor
      · intro i
        have hplace := h.place i
        rw [hposted i] at hplace
        exact hplace
      · exact h.distinct
      · exact h.task_op
      · exact h.resuming_op
      · exact h.releasing_op
      · exact fun handler value executor hmem => h.posted_ok handler value executor (hsub _ hmem)
      · exact h.resumed_ok
      · simp only [State.enter, State.held] at hwork ⊢
        omega
      · exact h.stopped
      · exact h.defined
  | resume handler value executor =>
      obtain ⟨rfl, call, hawait, hvalue⟩ := h.posted_ok handler value executor (by rw [hqueue]; simp)
      constructor
      · intro i
        have hplace := h.place i
        rw [hposted i] at hplace
        refine Eq.trans ?_ hplace
        simp only [State.resumptions, State.enter, List.map_append, List.count_append,
          List.map_cons, List.map_nil, Ready.await, Option.toList_some, State.parked, State.posted,
          State.held]
        omega
      · exact h.distinct
      · exact h.task_op
      · exact h.resuming_op
      · exact h.releasing_op
      · exact fun handler value executor hmem => h.posted_ok handler value executor (hsub _ hmem)
      · intro r hr
        rcases List.mem_append.mp hr with hold | hnew
        · exact h.resumed_ok r hold
        · obtain rfl := List.mem_singleton.mp hnew
          exact ⟨Thread.eq_loop hthread, call, hawait, hvalue⟩
      · simp only [State.enter, State.held] at hwork ⊢
        omega
      · exact h.stopped
      · exact h.defined

theorem step_accounted {s s' : State E} {act : Act E} (h : Accounted s) (hstep : Step s act s') :
    Accounted s' := by
  cases act with
  | spawn =>
      obtain ⟨hstopped, rfl⟩ := hstep
      refine { h with place := ?_, posted_ok := ?_, work := ?_, stopped := ?_ }
      · intro i
        have hposted : (s.queue ++ [Ready.plain]).filterMap Ready.await = s.posted := by
          simp [State.posted, Ready.await]
        change s.parked.count i + ((s.queue ++ [Ready.plain]).filterMap Ready.await).count i +
          s.resumptions i = _
        rw [hposted]
        exact h.place i
      · intro handler value executor hmem
        rcases List.mem_append.mp hmem with hold | hnew
        · exact h.posted_ok handler value executor hold
        · cases List.mem_singleton.mp hnew
      · have hwork := h.work
        simp only [State.held, List.length_append, List.length_singleton] at hwork ⊢
        omega
      · intro htrue
        rw [hstopped] at htrue
        cases htrue
  | start call executor ctx =>
      obtain ⟨hrunning, hfree, rfl⟩ := hstep
      exact h.park call executor hrunning hfree
  | complete task =>
      obtain ⟨before, after, htasks, rfl⟩ := hstep
      exact h.complete htasks
  | post ctx =>
      obtain ⟨before, value, after, hresuming, rfl⟩ := hstep
      exact h.post hresuming
  | release ctx =>
      obtain ⟨before, after, hreleasing, rfl⟩ := hstep
      exact h.release hreleasing
  | run thread item =>
      obtain ⟨hthread, -, before, after, hqueue, rfl⟩ := hstep
      exact h.run hthread hqueue
  | finish =>
      obtain ⟨hrunning, rfl⟩ := hstep
      refine { h with work := ?_, stopped := workFinished_stopped h.stopped }
      have hwork := h.work
      simp only [State.workFinished, State.held] at hwork ⊢
      omega

theorem accounted_invariant : (bridgeSystem (E := E)).Invariant Accounted where
  init := by
    rintro s rfl
    exact accounted_initial
  step _ _ _ h hstep := step_accounted h hstep

/-- While a guard, a posted handler or a running one is left, the `io_context`
goes on. -/
theorem Accounted.not_stopped {s : State E} (h : Accounted s) (hwork : 0 < s.outstanding) :
    s.stopped = false := by
  cases hstopped : s.stopped with
  | false => rfl
  | true =>
      have hzero := h.stopped hstopped
      omega

theorem Accounted.parked_advances {s : State E} (h : Accounted s) {ctx : Nat}
    (hctx : ctx ∈ s.held) : s.CanAdvance := by
  rcases List.mem_append.mp hctx with htask | hresuming
  · obtain ⟨task, hmem, rfl⟩ := List.mem_map.mp htask
    obtain ⟨before, after, htasks⟩ := List.append_of_mem hmem
    refine ⟨.complete task, _, ⟨before, after, htasks, rfl⟩, ?_⟩
    simp only [State.remaining, State.posted, htasks, List.length_append, List.length_cons,
      List.length_nil]
    omega
  · obtain ⟨⟨ctx, value⟩, hmem, rfl⟩ := List.mem_map.mp hresuming
    obtain ⟨before, after, hsplit⟩ := List.append_of_mem hmem
    obtain ⟨handler, call, hop, -⟩ := h.resuming_op _ hmem
    refine ⟨.post ctx, _, ⟨before, value, after, hsplit, rfl⟩, ?_⟩
    simp only at hop
    simp only [State.post, hop, if_true, State.remaining, State.posted, hsplit,
      List.filterMap_append, List.filterMap_cons, List.filterMap_nil, Ready.await,
      List.length_append, List.length_cons, List.length_nil]
    omega

theorem Accounted.posted_advances {s : State E} (h : Accounted s) {await : Nat}
    (hposted : await ∈ s.posted) : s.CanAdvance := by
  obtain ⟨item, hmem, hitem⟩ := List.mem_filterMap.mp hposted
  obtain ⟨before, after, hqueue⟩ := List.append_of_mem hmem
  have hwork := h.work
  rw [hqueue, List.length_append, List.length_cons] at hwork
  refine ⟨.run .loop item, _, ⟨rfl, h.not_stopped (by omega), before, after, hqueue, rfl⟩, ?_⟩
  cases item with
  | plain => cases hitem
  | resume handler value executor =>
      simp only [State.enter, State.remaining, State.posted, hqueue, List.filterMap_append,
        List.filterMap_cons, Ready.await, List.length_append, List.length_cons]
      omega

/-- An await that has not been resumed is parked or posted. -/
theorem Accounted.unresumed {s : State E} (h : Accounted s) {await : Nat}
    (hawait : await < s.awaits.length) (hnone : s.resumptions await = 0) :
    await ∈ s.parked ∨ await ∈ s.posted := by
  have hplace := h.place await
  rw [if_pos hawait, hnone] at hplace
  rcases Nat.eq_zero_or_pos (s.parked.count await) with hzero | hpos
  · exact Or.inr (List.count_pos_iff.mp (by omega))
  · exact Or.inl (List.count_pos_iff.mp hpos)

theorem Accounted.unresumed_working {s : State E} (h : Accounted s) {await : Nat}
    (hawait : await < s.awaits.length) (hnone : s.resumptions await = 0) :
    0 < s.outstanding ∧ s.CanAdvance := by
  have hwork := h.work
  rcases h.unresumed hawait hnone with hparked | hposted
  · obtain ⟨ctx, hctx, -⟩ := List.mem_filterMap.mp hparked
    have hpos := List.length_pos_of_mem hctx
    exact ⟨by omega, h.parked_advances hctx⟩
  · obtain ⟨item, hitem, -⟩ := List.mem_filterMap.mp hposted
    have hpos := List.length_pos_of_mem hitem
    exact ⟨by omega, h.posted_advances hposted⟩

/-- Only a new await adds to the steps that remain. -/
theorem remaining_le {s s' : State E} {act : Act E} (h : Accounted s) (hstep : Step s act s')
    (hact : ∀ call executor ctx, act ≠ .start call executor ctx) : s'.remaining ≤ s.remaining := by
  cases act with
  | spawn =>
      obtain ⟨-, rfl⟩ := hstep
      simp [State.remaining, State.posted, Ready.await]
  | start call executor ctx => exact absurd rfl (hact call executor ctx)
  | complete task =>
      obtain ⟨before, after, htasks, rfl⟩ := hstep
      simp only [State.remaining, State.posted, htasks, List.length_append, List.length_cons,
        List.length_nil]
      omega
  | post ctx =>
      obtain ⟨before, value, after, hresuming, rfl⟩ := hstep
      obtain ⟨handler, call, hop, -⟩ := h.resuming_op ⟨ctx, value⟩ (by rw [hresuming]; simp)
      simp only at hop
      simp only [State.post, hop, if_true, State.remaining, State.posted, hresuming,
        List.filterMap_append, List.filterMap_cons, List.filterMap_nil, Ready.await,
        List.length_append, List.length_cons, List.length_nil]
      omega
  | release ctx =>
      obtain ⟨before, after, -, rfl⟩ := hstep
      unfold State.release
      split <;> exact le_rfl
  | run thread item =>
      obtain ⟨-, -, before, after, hqueue, rfl⟩ := hstep
      cases item <;> simp only [State.enter, State.remaining, State.posted, hqueue,
        List.filterMap_append, List.filterMap_cons, Ready.await, List.length_append,
        List.length_cons] <;> omega
  | finish =>
      obtain ⟨-, rfl⟩ := hstep
      exact le_rfl

/-- The result that a call should have: the sum, clamped to the range of `int32_t`, or
the greeting of the name, where an empty name counts as anonymous. -/
def Call.HasResult : Call → Value → Prop
  | .add lhs rhs _, value => ∃ sum, value = .sum sum ∧
      sum.toInt = max (-2 ^ 31) (min (2 ^ 31 - 1) (lhs.toInt + rhs.toInt))
  | .greet name _, value => value = .text ("Hello, ".toList ++
      (if name = [] then "anonymous".toList else name) ++
      "! Composed by tokio on thread \"tokio-ffi\".".toList)

theorem composedBy_eq : "! Composed by tokio on thread \"tokio-ffi\".".toList =
    "! Composed by tokio on thread \"".toList ++ threadName.getD "?".toList ++ "\".".toList := by
  decide

theorem greeting_eq (name : List Char) : greeting name = "Hello, ".toList ++
    (if name = [] then "anonymous".toList else name) ++
    "! Composed by tokio on thread \"tokio-ffi\".".toList := by
  unfold greeting
  rw [composedBy_eq]
  simp only [List.append_assoc]

theorem Call.hasResult (call : Call) : call.HasResult call.result := by
  cases call with
  | add lhs rhs delayMs => exact ⟨_, rfl, saturatingAdd_toInt lhs rhs⟩
  | greet name delayMs => exact congrArg Value.text (greeting_eq name)

/-- Every await is resumed at most once, on its own executor and on a thread of
the `io_context`, with the result of its own arguments. Until then there is
outstanding work and a step that brings some await closer to its resumption;
once no such step is left, every await has been resumed. No context is used
that does not stand for a parked operation. -/
theorem await_resumed_once {s : State E} (hs : (bridgeSystem (E := E)).Reachable s) :
    s.undefined = false ∧ ∀ i call executor, s.awaits[i]? = some (call, executor) →
      s.resumptions i ≤ 1 ∧
      (∀ r ∈ s.resumed, r.await = i →
        call.HasResult r.value ∧ r.executor = executor ∧ r.thread = .loop) ∧
      (s.resumptions i = 0 → 0 < s.outstanding ∧ s.stopped = false ∧ s.CanAdvance) ∧
      (¬ s.CanAdvance → s.resumptions i = 1) := by
  have h : Accounted s := accounted_invariant.reachable hs
  refine ⟨h.defined, ?_⟩
  intro i call executor hawait
  have hi : i < s.awaits.length := (List.getElem?_eq_some_iff.mp hawait).1
  have hplace := h.place i
  rw [if_pos hi] at hplace
  refine ⟨by omega, ?_, ?_, ?_⟩
  · rintro r hr rfl
    obtain ⟨hthread, call', hawait', hvalue⟩ := h.resumed_ok r hr
    rw [hawait] at hawait'
    cases hawait'
    exact ⟨hvalue ▸ call.hasResult, rfl, hthread⟩
  · intro hnone
    obtain ⟨hwork, hadvance⟩ := h.unresumed_working hi hnone
    exact ⟨hwork, h.not_stopped hwork, hadvance⟩
  · intro hstuck
    rcases Nat.eq_zero_or_pos (s.resumptions i) with hnone | hpos
    · exact absurd (h.unresumed_working hi hnone).2 hstuck
    · omega

/-- A sum and a greeting whose operations share one address in turn; the
greeting's handler runs before its guard is dropped. -/
theorem await_resumed_once_address_reused : ∃ s : State Bool,
    (bridgeSystem (E := Bool)).Reachable s ∧ s.resumptions 0 = 1 ∧ s.resumptions 1 = 1 ∧
      s.undefined = false ∧
      (∀ r ∈ s.resumed, r.await = 0 → r.value = .sum 42 ∧ r.executor = true ∧ r.thread = .loop) ∧
      ∀ r ∈ s.resumed, r.await = 1 → r.value =
        .text "Hello, anonymous! Composed by tokio on thread \"tokio-ffi\".".toList ∧
        r.executor = false ∧ r.thread = .loop := by
  obtain ⟨labels, s, hrun, hfirst, hsecond, hone, htwo⟩ : ∃ labels s,
      (bridgeSystem (E := Bool)).Run {} labels s ∧ s.awaits[0]? = some (Call.add 40 2 200, true) ∧
        s.awaits[1]? = some (Call.greet [] 5, false) ∧ s.resumptions 0 = 1 ∧ s.resumptions 1 = 1 :=
    ⟨_, _,
    Run.cons Act.spawn ⟨rfl, rfl⟩ <|
    Run.cons (Act.run .loop .plain) ⟨rfl, rfl, [], [], rfl, rfl⟩ <|
    Run.cons (Act.start (.add 40 2 200) true 7) ⟨by decide, rfl, rfl⟩ <|
    Run.cons (Act.complete ⟨.add 40 2 200, 7⟩) ⟨[], [], rfl, rfl⟩ <|
    Run.cons (Act.post 7) ⟨[], _, [], rfl, rfl⟩ <|
    Run.cons (Act.release 7) ⟨[], [], rfl, rfl⟩ <|
    Run.cons (Act.start (.greet [] 5) false 7) ⟨by decide, rfl, rfl⟩ <|
    Run.cons Act.finish ⟨by decide, rfl⟩ <|
    Run.cons (Act.run .loop (.resume ⟨0, true⟩ (.sum 42) true)) ⟨rfl, rfl, [], [], rfl, rfl⟩ <|
    Run.cons (Act.complete ⟨.greet [] 5, 7⟩) ⟨[], [], rfl, rfl⟩ <|
    Run.cons (Act.post 7) ⟨[], _, [], rfl, rfl⟩ <|
    Run.cons (Act.run .loop (.resume ⟨1, false⟩ (Call.result (.greet [] 5)) false))
      ⟨rfl, rfl, [], [], rfl, rfl⟩ <|
    .nil, rfl, rfl, rfl, rfl⟩
  have hreach : (bridgeSystem (E := Bool)).Reachable s := ⟨{}, labels, rfl, hrun⟩
  obtain ⟨hdefined, hawaits⟩ := await_resumed_once hreach
  refine ⟨s, hreach, hone, htwo, hdefined, ?_, ?_⟩
  · intro r hr hawait
    obtain ⟨⟨sum, hvalue, hsum⟩, hrest⟩ := (hawaits 0 _ _ hfirst).2.1 r hr hawait
    have h42 : sum = 42 := Int32.toInt_inj.mp (hsum.trans (by decide))
    exact ⟨by rw [hvalue, h42], hrest⟩
  · intro r hr hawait
    obtain ⟨hvalue, hrest⟩ := (hawaits 1 _ _ hsecond).2.1 r hr hawait
    exact ⟨hvalue, hrest⟩

end CppWorkspace.Tokio.Bridge
