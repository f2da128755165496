import CppWorkspace.Coro.Machine

/-!
The order in which `run()` takes coroutines out of its queues, for every
program: no registration is lost or taken twice, `ready_` is first in first
out, and timers come out by the time they are due, then by registration.
-/

namespace CppWorkspace.Coro

open Lib System

variable {κ ρ μ : Type}

namespace Event

/-- What `add_timer` or `yield` has registered. -/
def registration? : Event → Option Registration
  | registered r => some r
  | _ => none

/-- What has entered `ready_`. -/
def entry? : Event → Option Registration
  | registered (.yielded t) => some (.yielded t)
  | moved e => some (.timer e)
  | _ => none

/-- What `run()` has resumed. -/
def resumption? : Event → Option Registration
  | resumed _ (.loop r) => some r
  | _ => none

/-- An event that does not concern the queues. -/
def Quiet (e : Event) : Prop :=
  e.registration? = none ∧ e.entry? = none ∧ e.resumption? = none

end Event

def registrations (trace : List Event) : List Registration := trace.filterMap Event.registration?

def entries (trace : List Event) : List Registration := trace.filterMap Event.entry?

def resumptions (trace : List Event) : List Registration := trace.filterMap Event.resumption?

theorem filterMap_quiet {events : List Event} (h : ∀ e ∈ events, e.Quiet) :
    registrations events = [] ∧ entries events = [] ∧ resumptions events = [] :=
  ⟨List.filterMap_eq_nil_iff.mpr fun e he => (h e he).1,
    List.filterMap_eq_nil_iff.mpr fun e he => (h e he).2.1,
    List.filterMap_eq_nil_iff.mpr fun e he => (h e he).2.2⟩

/-- What `run()` has popped and resumes next. -/
def State.inFlight (s : State κ ρ μ) : List Registration :=
  match s.pending with
  | some (_, .loop r) => [r]
  | _ => []

/-- What a step does to the queues. -/
inductive QueueStep (s s' : State κ ρ μ) : List Event → Prop
  | quiet {events : List Event} (hsched : s'.sched = s.sched) (hnow : s.now ≤ s'.now)
      (hflight : s'.inFlight = s.inFlight) (hquiet : ∀ e ∈ events, e.Quiet) :
      QueueStep s s' events
  | sleep {due : ℤ} {t : ℕ} (hsched : s'.sched = s.sched.addTimer due t) (hnow : s.now ≤ s'.now)
      (hflight : s'.inFlight = s.inFlight) (hdue : s'.now < due) :
      QueueStep s s' [.registered (.timer (s.sched.newTimer due t))]
  | yield {t : ℕ} (hsched : s'.sched = s.sched.pushReady t) (hnow : s.now ≤ s'.now)
      (hflight : s'.inFlight = s.inFlight) : QueueStep s s' [.registered (.yielded t)]
  | move {e : TimerEntry} {rest : List TimerEntry} (htimers : s.sched.timers = e :: rest)
      (hsched : s'.sched = s.sched.moveTop) (hnow : s.now ≤ s'.now)
      (hflight : s'.inFlight = s.inFlight) (hdue : e.due ≤ s'.now) : QueueStep s s' [.moved e]
  | pop {r : Registration} {rest : List Registration} (hready : s.sched.ready = r :: rest)
      (hsched : s'.sched = s.sched.popReady) (hnow : s.now ≤ s'.now)
      (hbefore : s.inFlight = []) (hflight : s'.inFlight = [r]) : QueueStep s s' []
  | resume {t : ℕ} {r : Registration} (hsched : s'.sched = s.sched) (hnow : s.now ≤ s'.now)
      (hbefore : s.inFlight = [r]) (hflight : s'.inFlight = []) :
      QueueStep s s' [.resumed t (.loop r)]

theorem State.inFlight_of_none {s : State κ ρ μ} (h : s.pending = none) : s.inFlight = [] := by
  simp [inFlight, h]

/-- A call of `start()` leaves the queues alone. -/
theorem callStart_queue (s₀ : State κ ρ μ) {s s' : State κ ρ μ} {t : ℕ} {events : List Event}
    (hpending : s₀.pending = none) (hsched : s₀.sched = s.sched) (hnow : s₀.now = s.now)
    (hflight : s.inFlight = []) (h : s₀.callStart t = some (s', events)) :
    QueueStep s s' events := by
  have hquiet : ∀ e ∈ [Event.startCall t], e.Quiet := by
    simp [Event.Quiet, Event.registration?, Event.entry?, Event.resumption?]
  unfold State.callStart at h
  split at h
  · cases h
  · cases h
    exact .quiet hsched hnow.ge (by rw [hflight, State.inFlight_of_none hpending]) hquiet
  · cases h
    exact .quiet hsched hnow.ge hflight.symm hquiet

theorem resumePending_queue {s s' : State κ ρ μ} {t : ℕ} {resumer : Resumer} {events : List Event}
    (hpending : s.pending = some (t, resumer))
    (h : s.resumePending t resumer = some (s', events)) : QueueStep s s' events := by
  have hcases : events = [.resumed t resumer] ∧ s'.sched = s.sched ∧ s'.now = s.now ∧
      s'.pending = none := by
    unfold State.resumePending at h
    split at h <;> cases h <;> exact ⟨rfl, rfl, rfl, rfl⟩
  obtain ⟨rfl, hsched, hnow, hnone⟩ := hcases
  have hflight := State.inFlight_of_none hnone
  cases resumer with
  | loop r => exact .resume hsched hnow.ge (by simp [State.inFlight, hpending]) hflight
  | start =>
    refine .quiet hsched hnow.ge (by rw [hflight]; simp [State.inFlight, hpending]) ?_
    simp [Event.Quiet, Event.registration?, Event.entry?, Event.resumption?]
  | awaiter parent =>
    refine .quiet hsched hnow.ge (by rw [hflight]; simp [State.inFlight, hpending]) ?_
    simp [Event.Quiet, Event.registration?, Event.entry?, Event.resumption?]
  | finalAwaiter child =>
    refine .quiet hsched hnow.ge (by rw [hflight]; simp [State.inFlight, hpending]) ?_
    simp [Event.Quiet, Event.registration?, Event.entry?, Event.resumption?]

theorem execute_queue {s s' : State κ ρ μ} {t : ℕ} {rest : List ℕ} {now now' : ℤ}
    {instr : Instr κ ρ μ} {events : List Event} (hpending : s.pending = none)
    (h : s.execute t rest now now' instr = some (s', events)) : QueueStep s s' events := by
  have hflight := State.inFlight_of_none hpending
  have hquiet : ∀ e ∈ ([] : List Event), e.Quiet := by simp
  cases instr with
  | create body next =>
    cases h
    exact .quiet rfl le_rfl rfl hquiet
  | start c next =>
    simp only [State.execute] at h
    exact callStart_queue (s.setPoint t (.running next)) hpending rfl rfl hflight h
  | done c next =>
    cases h
    exact .quiet rfl le_rfl rfl hquiet
  | await c next =>
    have hquiet' : ∀ e ∈ [Event.awaitCall t c], e.Quiet := by
      simp [Event.Quiet, Event.registration?, Event.entry?, Event.resumption?]
    simp only [State.execute] at h
    split at h
    · cases h
    · cases h
      exact .quiet rfl le_rfl rfl hquiet'
    · cases h
      exact .quiet rfl le_rfl hflight.symm hquiet'
  | sleepFor duration next =>
    simp only [State.execute] at h
    split at h
    · next hclock =>
      split at h
      · cases h
        exact .quiet rfl (hclock.1.trans hclock.2) rfl hquiet
      · next hdue =>
        cases h
        exact .sleep rfl (hclock.1.trans hclock.2) rfl (not_le.mp hdue)
    · cases h
  | yield next =>
    cases h
    exact .yield rfl le_rfl rfl
  | get next =>
    cases h
    exact .quiet rfl le_rfl rfl hquiet
  | set memory next =>
    cases h
    exact .quiet rfl le_rfl rfl hquiet
  | ret result =>
    cases h
    refine .quiet rfl le_rfl ?_ hquiet
    rw [hflight]
    cases hwaiting : s.continuation t <;> simp [State.inFlight]

theorem loopStep_queue {s s' : State κ ρ μ} {now : ℤ} {events : List Event}
    (hpending : s.pending = none) (h : s.loopStep now = some (s', events)) :
    QueueStep s s' events := by
  have hflight := State.inFlight_of_none hpending
  have hquiet : ∀ e ∈ ([] : List Event), e.Quiet := by simp
  unfold State.loopStep at h
  split at h
  · cases h
  · split at h
    · cases h
      refine .quiet rfl le_rfl rfl ?_
      simp [Event.Quiet, Event.registration?, Event.entry?, Event.resumption?]
    · split at h
      · next hclock =>
        cases h
        exact .quiet rfl hclock.1 rfl hquiet
      · cases h
    · cases h
      exact .quiet rfl le_rfl rfl hquiet
  · split at h
    · cases h
      exact .quiet rfl le_rfl rfl hquiet
    · next e rest htimers =>
      split at h
      · next hclock =>
        split at h
        · next hdue =>
          cases h
          exact .move htimers rfl hclock rfl hdue
        · cases h
          exact .quiet rfl hclock rfl hquiet
      · cases h
  · split at h
    · cases h
      exact .quiet rfl le_rfl rfl hquiet
    · next r rest hready =>
      cases h
      exact .pop hready rfl le_rfl hflight rfl
  · cases h
    exact .quiet rfl le_rfl rfl hquiet

theorem step_queue {code : κ → Instr κ ρ μ} {s s' : State κ ρ μ} {events : List Event}
    (h : (coroSystem code).step s events s') : QueueStep s s' events := by
  obtain ⟨a, hstep⟩ := h
  have hquiet : ∀ e ∈ ([] : List Event), e.Quiet := by simp
  cases (State.step_cases hstep).2 with
  | create hpending hstack => exact .quiet rfl le_rfl rfl hquiet
  | start hpending hstack hcall =>
    exact callStart_queue s hpending rfl rfl (State.inFlight_of_none hpending) hcall
  | set hpending hstack => exact .quiet rfl le_rfl rfl hquiet
  | run hpending hstack => exact .quiet rfl le_rfl rfl hquiet
  | resume hpending hresume => exact resumePending_queue hpending hresume
  | exec hpending hstack hpoint hexec => exact execute_queue hpending hexec
  | loop hpending hstack hloop => exact loopStep_queue hpending hloop

theorem TimerEntry.key_lt_of_due {e e' : TimerEntry} (h : e.due < e'.due) : e.key < e'.key :=
  Prod.Lex.toLex_lt_toLex.mpr (Or.inl h)

/-- The queues, with what was registered, what entered `ready_`, what `run()`
has resumed and what it is about to resume. -/
structure QueueOrder (registered entered resumed flight : List Registration) (sched : Scheduler)
    (now : ℤ) : Prop where
  once : registered.Perm (resumed ++ flight ++ sched.waiting)
  fifo : entered = resumed ++ flight ++ sched.ready
  yields : entered.filterMap Registration.yielded? = registered.filterMap Registration.yielded?
  sorted : (entered.filterMap Registration.timer?).Pairwise (·.key < ·.key)
  due : ∀ e ∈ entered.filterMap Registration.timer?, e.due ≤ now
  later : ∀ e ∈ entered.filterMap Registration.timer?, ∀ e' ∈ sched.timers, e.key < e'.key

namespace QueueOrder

variable {registered entered resumed flight : List Registration} {sched : Scheduler} {now now' : ℤ}

theorem wait (h : QueueOrder registered entered resumed flight sched now) (hnow : now ≤ now') :
    QueueOrder registered entered resumed flight sched now' :=
  { h with due := fun e he => (h.due e he).trans hnow }

/-- A new timer is due after all that have left `timers_`: `await_ready` has
just looked. -/
theorem sleep (h : QueueOrder registered entered resumed flight sched now) {due : ℤ} (t : ℕ)
    (hdue : now < due) :
    QueueOrder (registered ++ [.timer (sched.newTimer due t)]) entered resumed flight
      (sched.addTimer due t) now where
  once := by
    refine (List.perm_append_singleton _ _).trans ?_
    refine ((h.once.cons _).trans List.perm_middle.symm).trans ?_
    exact (sched.waiting_addTimer due t).symm.append_left _
  fifo := h.fifo
  yields := by simpa [List.filterMap_cons] using h.yields
  sorted := h.sorted
  due := h.due
  later e he e' he' := by
    rcases (List.mem_orderedInsert _).mp he' with rfl | hold
    · exact TimerEntry.key_lt_of_due ((h.due e he).trans_lt hdue)
    · exact h.later e he e' hold

theorem yield (h : QueueOrder registered entered resumed flight sched now) (t : ℕ) :
    QueueOrder (registered ++ [.yielded t]) (entered ++ [.yielded t]) resumed flight
      (sched.pushReady t) now where
  once := by
    refine (List.perm_append_singleton _ _).trans ?_
    refine ((h.once.cons _).trans List.perm_middle.symm).trans ?_
    exact (sched.waiting_pushReady t).symm.append_left _
  fifo := by rw [h.fifo]; simp [Scheduler.pushReady]
  yields := by simp [h.yields]
  sorted := by simpa [List.filterMap_cons] using h.sorted
  due := by simpa [List.filterMap_cons] using h.due
  later := by
    simp only [List.filterMap_append, List.filterMap_cons, List.filterMap_nil,
      Registration.timer?_yielded, List.append_nil]
    exact h.later

theorem move (h : QueueOrder registered entered resumed flight sched now) {e : TimerEntry}
    {rest : List TimerEntry} (htimers : sched.timers = e :: rest) (hdue : e.due ≤ now) :
    QueueOrder registered (entered ++ [.timer e]) resumed flight sched.moveTop now where
  once := by rw [sched.waiting_moveTop]; exact h.once
  fifo := by rw [h.fifo]; simp [Scheduler.moveTop, htimers]
  yields := by simpa [List.filterMap_cons] using h.yields
  sorted := by
    simp only [List.filterMap_append, List.pairwise_append]
    refine ⟨h.sorted, List.pairwise_singleton _ _, fun e' he' e'' he'' => ?_⟩
    rw [List.mem_singleton.mp he'']
    exact h.later e' he' e (htimers ▸ List.mem_cons_self)
  due e' he' := by
    rw [List.filterMap_append] at he'
    rcases List.mem_append.mp he' with hold | hnew
    · exact h.due e' hold
    · rw [List.mem_singleton.mp hnew]
      exact hdue
  later e' he' e'' he'' := by
    have hrest : e'' ∈ rest := by simpa [Scheduler.moveTop, htimers] using he''
    rw [List.filterMap_append] at he'
    rcases List.mem_append.mp he' with hold | hnew
    · exact h.later e' hold e'' (htimers ▸ List.mem_cons_of_mem _ hrest)
    · rw [List.mem_singleton.mp hnew]
      exact (List.pairwise_cons.mp (htimers ▸ sched.sorted)).1 e'' hrest

theorem pop (h : QueueOrder registered entered resumed [] sched now) {r : Registration}
    {rest : List Registration} (hready : sched.ready = r :: rest) :
    QueueOrder registered entered resumed [r] sched.popReady now where
  once := by
    have honce := h.once
    rw [Scheduler.waiting_popReady hready] at honce
    simpa using honce
  fifo := by rw [h.fifo]; simp [Scheduler.popReady, hready]
  yields := h.yields
  sorted := h.sorted
  due := h.due
  later := h.later

theorem resume {r : Registration} (h : QueueOrder registered entered resumed [r] sched now) :
    QueueOrder registered entered (resumed ++ [r]) [] sched now :=
  { h with
    once := by simpa using h.once
    fifo := by simpa using h.fifo }

end QueueOrder

/-- The queues after a run with the given events. -/
def Queued (trace : List Event) (s : State κ ρ μ) : Prop :=
  QueueOrder (registrations trace) (entries trace) (resumptions trace) s.inFlight s.sched s.now

theorem Queued.init (memory : μ) : Queued [] (State.init memory : State κ ρ μ) :=
  ⟨.refl _, rfl, rfl, .nil, by simp [entries], by simp [entries]⟩

/-- One step keeps the order of the queues. -/
theorem Queued.step {trace events : List Event} {s s' : State κ ρ μ} (h : Queued trace s)
    (hstep : QueueStep s s' events) : Queued (trace ++ events) s' := by
  unfold Queued registrations entries resumptions at *
  simp only [List.filterMap_append]
  cases hstep with
  | quiet hsched hnow hflight hquiet =>
    obtain ⟨hregistrations, hentries, hresumptions⟩ := filterMap_quiet hquiet
    unfold registrations at hregistrations
    unfold entries at hentries
    unfold resumptions at hresumptions
    rw [hregistrations, hentries, hresumptions, hsched, hflight]
    simpa using h.wait hnow
  | sleep hsched hnow hflight hdue =>
    rw [hsched, hflight]
    simpa [List.filterMap_cons, Event.registration?, Event.entry?, Event.resumption?]
      using (h.wait hnow).sleep _ hdue
  | yield hsched hnow hflight =>
    rw [hsched, hflight]
    simpa [List.filterMap_cons, Event.registration?, Event.entry?, Event.resumption?]
      using (h.wait hnow).yield _
  | move htimers hsched hnow hflight hdue =>
    rw [hsched, hflight]
    simpa [List.filterMap_cons, Event.registration?, Event.entry?, Event.resumption?] using
      (h.wait hnow).move htimers hdue
  | pop hready hsched hnow hbefore hflight =>
    rw [hbefore] at h
    rw [hsched, hflight]
    simpa using (h.wait hnow).pop hready
  | resume hsched hnow hbefore hflight =>
    rw [hbefore] at h
    rw [hsched, hflight]
    simpa [List.filterMap_cons, Event.registration?, Event.entry?, Event.resumption?]
      using (h.wait hnow).resume

/-- The order of the queues after every run. -/
theorem run_queued {code : κ → Instr κ ρ μ} {memory : μ} {trace : List (List Event)}
    {s : State κ ρ μ} (h : (coroSystem code).Run (.init memory) trace s) :
    Queued trace.flatten s := by
  induction h with
  | nil => exact .init memory
  | snoc events _ hstep ih => simpa using ih.step (step_queue hstep)

end CppWorkspace.Coro
