import CppWorkspace.Coro.TaskLinks

/-!
Who wakes a suspended task. `start()` and `co_await` resume every task that has
not finished, also one that is suspended in the scheduler; as long as they are
used on tasks that have not been started or have finished, only `run()` does.
-/

namespace CppWorkspace.Coro

open Lib System

variable {κ ρ μ : Type}

/-- The last registration of a task. -/
def lastRegistration (trace : List Event) (t : ℕ) : Option Registration :=
  ((registrations trace).filter (·.task = t)).getLast?

theorem lastRegistration_append (trace events : List Event) (t : ℕ) :
    lastRegistration (trace ++ events) t =
      (lastRegistration events t).or (lastRegistration trace t) := by
  simp [lastRegistration, registrations, List.filterMap_append, List.getLast?_append]

/-- What is in the queues is the last registration of its task. -/
def LastRegistered (trace : List Event) (s : State κ ρ μ) : Prop :=
  ∀ r ∈ s.inFlight ++ s.sched.waiting, lastRegistration trace r.task = some r

/-- A new registration is the last one of its task, and the only one that
waits. -/
theorem LastRegistered.register {trace : List Event} {s s' : State κ ρ μ} {r : Registration}
    (h : LastRegistered trace s) (hlinked : Linked s') (hflight : s'.inFlight = s.inFlight)
    (hsched : s'.sched.waiting.Perm (r :: s.sched.waiting)) :
    LastRegistered (trace ++ [.registered r]) s' := by
  have hperm : (s'.inFlight ++ s'.sched.waiting).Perm (r :: (s.inFlight ++ s.sched.waiting)) := by
    rw [hflight]
    exact (hsched.append_left _).trans List.perm_middle
  have hnodup : ((r :: (s.inFlight ++ s.sched.waiting)).map Registration.task).Nodup :=
    (hperm.map _).nodup_iff.mp hlinked.once
  intro r' hr'
  rw [lastRegistration_append]
  rcases List.mem_cons.mp (hperm.mem_iff.mp hr') with rfl | hold
  · simp [lastRegistration, registrations, Event.registration?]
  · have hne : r.task ≠ r'.task := by
      intro heq
      rw [List.map_cons, List.nodup_cons] at hnodup
      exact hnodup.1 (heq ▸ List.mem_map_of_mem hold)
    have hnew : lastRegistration [.registered r] r'.task = none := by
      simp [lastRegistration, registrations, Event.registration?, hne]
    rw [hnew]
    exact h r' hold

theorem LastRegistered.step {trace events : List Event} {s s' : State κ ρ μ}
    (h : LastRegistered trace s) (hlinked : Linked s') (hstep : QueueStep s s' events) :
    LastRegistered (trace ++ events) s' := by
  have hkeep (hnone : registrations events = [])
      (hsub : ∀ r ∈ s'.inFlight ++ s'.sched.waiting, r ∈ s.inFlight ++ s.sched.waiting) :
      LastRegistered (trace ++ events) s' := by
    intro r hr
    rw [lastRegistration_append]
    simpa [lastRegistration, hnone] using h r (hsub r hr)
  cases hstep with
  | quiet hsched hnow hflight hquiet =>
    exact hkeep (filterMap_quiet hquiet).1 (by rw [hsched, hflight]; exact fun _ => id)
  | sleep hsched hnow hflight hdue =>
    exact h.register hlinked hflight (hsched ▸ s.sched.waiting_addTimer _ _)
  | yield hsched hnow hflight =>
    exact h.register hlinked hflight (hsched ▸ s.sched.waiting_pushReady _)
  | move htimers hsched hnow hflight hdue =>
    exact hkeep rfl (by rw [hsched, hflight, s.sched.waiting_moveTop]; exact fun _ => id)
  | pop hready hsched hnow hbefore hflight =>
    exact hkeep rfl (by
      rw [hsched, hflight, hbefore, Scheduler.waiting_popReady hready]
      exact fun _ => id)
  | resume hsched hnow hbefore hflight =>
    exact hkeep rfl (by rw [hsched, hflight]; exact fun r hr => List.mem_append_right _ hr)

theorem run_lastRegistered {code : κ → Instr κ ρ μ} {memory : μ} {trace : List (List Event)}
    {s : State κ ρ μ} (h : (oneStartSystem code).Run (.init memory) trace s) :
    LastRegistered trace.flatten s := by
  induction h with
  | nil =>
    intro r hr
    simp [State.inFlight, State.init, Scheduler.waiting, Scheduler.empty] at hr
  | snoc events hrun hstep ih =>
    simpa using ih.step ((run_linked hrun).step hstep) (step_queue hstep.2)

/-- A timer that `run()` has popped is due. -/
theorem Queued.due_inFlight {trace : List Event} {s : State κ ρ μ} (h : Queued trace s)
    {e : TimerEntry} (he : .timer e ∈ s.inFlight) : e.due ≤ s.now := by
  refine h.due e (List.mem_filterMap.mpr ⟨.timer e, ?_, rfl⟩)
  rw [h.fifo]
  exact List.mem_append_left _ (List.mem_append_right _ he)

/-- What is asked of a state reached with the given events: the coroutine that
is resumed next is suspended, and when it is suspended in `sleep_for` or
`yield`, `run()` has popped the handle of that very `co_await`, when it was
due; and every registration is waiting or has been resumed, once. -/
def WokenByWait (trace : List Event) (s : State κ ρ μ) : Prop :=
  s.undefined = false ∧
  (∀ t resumer, s.pending = some (t, resumer) →
    s.Suspended t ∧
      (s.Scheduled t → ∃ r, resumer = .loop r ∧ lastRegistration trace t = some r ∧
        ∀ e, r = .timer e → e.due ≤ s.now)) ∧
  (registrations trace).Perm (resumptions trace ++ s.inFlight ++ s.sched.waiting)

/-- As long as `start()` and `co_await` are used on tasks that have not been
started or have finished, a suspended task is woken only by what it waits
for. -/
theorem woken_by_wait (code : κ → Instr κ ρ μ) {memory : μ} {trace : List (List Event)}
    {s : State κ ρ μ} (h : (oneStartSystem code).Run (.init memory) trace s) :
    WokenByWait trace.flatten s := by
  have hlinked := run_linked h
  have hqueued := run_queued h.of_restrict
  refine ⟨hlinked.defined, fun t resumer hpending => ⟨hlinked.suspended hpending, ?_⟩,
    hqueued.once⟩
  intro hscheduled
  obtain ⟨r, rfl⟩ := (hlinked.scheduled_iff_loop hpending).mp hscheduled
  have hflight : r ∈ s.inFlight := by simp [State.inFlight, hpending]
  have htask : r.task = t := hlinked.pending t _ hpending
  refine ⟨r, rfl, ?_, ?_⟩
  · rw [← htask]
    exact run_lastRegistered h r (List.mem_append_left _ hflight)
  · rintro e rfl
    exact hqueued.due_inFlight hflight

/-- The frame of `sleeper`, by what it does next. -/
inductive Sleeper where
  | sleeping
  | over

/-- `co_await sched.sleep_for(50)`. -/
def sleeper : Sleeper → Instr Sleeper Unit Unit
  | .sleeping => .sleepFor 50 .over
  | .over => .ret ()

/-- A task that is started once sleeps until `run()` pops its timer. -/
theorem woken_by_wait_sleeper : ∃ trace s,
    (oneStartSystem sleeper).Run (.init ()) trace s ∧
      s.pending = some (0, .loop (.timer ⟨50, 0, 0⟩)) ∧ WokenByWait trace.flatten s := by
  obtain ⟨trace, s, hrun, hpending⟩ : ∃ trace s,
      (oneStartSystem sleeper).Run (.init ()) trace s ∧
        s.pending = some (0, .loop (.timer ⟨50, 0, 0⟩)) := ⟨_, _,
    Run.cons [] ⟨by simp [StartsOnce], .create .sleeping, rfl⟩ <|
    Run.cons [.startCall 0] ⟨.start ⟨.sleeping, rfl⟩, .start 0, rfl⟩ <|
    Run.cons [.resumed 0 .start] ⟨by simp [StartsOnce], .resume, rfl⟩ <|
    Run.cons [.registered (.timer ⟨50, 0, 0⟩)] ⟨by simp [StartsOnce], .exec 0 0, rfl⟩ <|
    Run.cons [] ⟨by simp [StartsOnce], .run, rfl⟩ <|
    Run.cons [] ⟨by simp [StartsOnce], .loop 50, rfl⟩ <|
    Run.cons [.moved ⟨50, 0, 0⟩] ⟨by simp [StartsOnce], .loop 50, rfl⟩ <|
    Run.cons [] ⟨by simp [StartsOnce], .loop 50, rfl⟩ <|
    Run.cons [] ⟨by simp [StartsOnce], .loop 50, rfl⟩ <|
    .nil, rfl⟩
  exact ⟨trace, s, hrun, hpending, woken_by_wait sleeper hrun⟩

/-- A second `start()` wakes the task in its sleep; `run()` then resumes it
after its end. -/
theorem second_start_wakes_sleeper : ¬ ∀ (trace : List (List Event)) s,
    (coroSystem sleeper).Run (.init ()) trace s → WokenByWait trace.flatten s := by
  intro hclaim
  obtain ⟨trace, s, hrun, hundefined⟩ : ∃ trace s,
      (coroSystem sleeper).Run (.init ()) trace s ∧ s.undefined = true := ⟨_, _,
    Run.cons [] ⟨.create .sleeping, rfl⟩ <|
    Run.cons [.startCall 0] ⟨.start 0, rfl⟩ <|
    Run.cons [.resumed 0 .start] ⟨.resume, rfl⟩ <|
    Run.cons [.registered (.timer ⟨50, 0, 0⟩)] ⟨.exec 0 0, rfl⟩ <|
    Run.cons [.startCall 0] ⟨.start 0, rfl⟩ <|
    Run.cons [.resumed 0 .start] ⟨.resume, rfl⟩ <|
    Run.cons [] ⟨.exec 0 0, rfl⟩ <|
    Run.cons [] ⟨.run, rfl⟩ <|
    Run.cons [] ⟨.loop 50, rfl⟩ <|
    Run.cons [.moved ⟨50, 0, 0⟩] ⟨.loop 50, rfl⟩ <|
    Run.cons [] ⟨.loop 50, rfl⟩ <|
    Run.cons [] ⟨.loop 50, rfl⟩ <|
    Run.cons [.resumed 0 (.loop (.timer ⟨50, 0, 0⟩))] ⟨.resume, rfl⟩ <|
    .nil, rfl⟩
  have hdefined := (hclaim trace s hrun).1
  rw [hundefined] at hdefined
  cases hdefined

end CppWorkspace.Coro
