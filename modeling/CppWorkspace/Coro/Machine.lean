import CppWorkspace.Coro.Scheduler

/-!
Coroutines of `task.hpp` on the event loop of `scheduler.hpp`. A coroutine body
is the state machine a compiler makes of it: `code` says what a frame does next
at each of its points. Plain code creates and starts tasks and calls `run()`;
task objects live as long as the run. The clock may show any time not before
its last reading.
-/

namespace CppWorkspace.Coro

open Lib

/-- What a coroutine does next. `κ` is the content of a frame, `ρ` the results
of tasks, exceptions included, and `μ` the memory that all code shares. -/
inductive Instr (κ ρ μ : Type) where
  | create (body : κ) (next : ℕ → κ)
  | start (t : ℕ) (next : κ)
  | done (t : ℕ) (next : Bool → κ)
  | await (t : ℕ) (next : Option ρ → κ)
  | sleepFor (duration : ℤ) (next : κ)
  | yield (next : κ)
  | get (next : μ → κ)
  | set (memory : μ) (next : κ)
  | ret (result : ρ)

/-- Where the coroutine of a frame is: at its initial suspension, running, at
`co_await` of a scheduler awaiter or of a task, or at its final suspension. -/
inductive Point (κ ρ : Type) where
  | initial (body : κ)
  | running (locals : κ)
  | scheduled (next : κ)
  | awaiting (t : ℕ) (next : Option ρ → κ)
  | finished (result : ρ)

/-- A coroutine frame with the `continuation` of its promise. -/
structure Frame (κ ρ : Type) where
  point : Point κ ρ
  continuation : Option ℕ

/-- Who calls `resume()`, or transfers to the handle. -/
inductive Resumer where
  | start
  | awaiter (parent : ℕ)
  | finalAwaiter (child : ℕ)
  | loop (r : Registration)
deriving Repr, DecidableEq

/-- Where plain code is: outside `run()`, at its outer condition, at the inner
loop, at the last `if`, or in `handle.resume()`. -/
inductive Mode where
  | plain
  | test
  | moving
  | popping
  | resuming
deriving Repr, DecidableEq

inductive Event where
  | startCall (t : ℕ)
  | awaitCall (parent t : ℕ)
  | registered (r : Registration)
  | moved (e : TimerEntry)
  | resumed (t : ℕ) (resumer : Resumer)
  | returned
deriving Repr, DecidableEq

/-- A state of the program. `stack` holds the coroutines entered and not yet
suspended, innermost first; `pending` is the handle that is resumed next;
`undefined` says that a coroutine was resumed that was not suspended. -/
structure State (κ ρ μ : Type) where
  frames : ℕ → Option (Frame κ ρ)
  nextFrame : ℕ
  sched : Scheduler
  now : ℤ
  memory : μ
  stack : List ℕ
  pending : Option (ℕ × Resumer)
  mode : Mode
  undefined : Bool

/-- What happens next: plain code acts, the pending handle is resumed, the
running coroutine goes on, or the loop of `run()` goes on. The readings of the
clock come with the step that makes them. -/
inductive Action (κ μ : Type) where
  | create (body : κ)
  | start (t : ℕ)
  | set (memory : μ)
  | run
  | resume
  | exec (now now' : ℤ)
  | loop (now : ℤ)

namespace State

variable {κ ρ μ : Type}

def init (memory : μ) : State κ ρ μ where
  frames _ := none
  nextFrame := 0
  sched := .empty
  now := 0
  memory := memory
  stack := []
  pending := none
  mode := .plain
  undefined := false

/-- The point at which the coroutine of a frame is. -/
def point (s : State κ ρ μ) (t : ℕ) : Option (Point κ ρ) := (s.frames t).map (·.point)

/-- `promise().continuation`. -/
def continuation (s : State κ ρ μ) (t : ℕ) : Option ℕ := (s.frames t).bind (·.continuation)

def setPoint (s : State κ ρ μ) (t : ℕ) (p : Point κ ρ) : State κ ρ μ :=
  { s with frames := Function.update s.frames t ((s.frames t).map fun f => { f with point := p }) }

def setContinuation (s : State κ ρ μ) (t waiting : ℕ) : State κ ρ μ :=
  { s with
    frames := Function.update s.frames t
      ((s.frames t).map fun f => { f with continuation := some waiting }) }

/-- Calling a coroutine function: a frame that has run nothing yet. -/
def allocate (s : State κ ρ μ) (body : κ) : State κ ρ μ :=
  { s with
    frames := Function.update s.frames s.nextFrame (some ⟨.initial body, none⟩)
    nextFrame := s.nextFrame + 1 }

/-- The result of a task that is `done()`. -/
def result (s : State κ ρ μ) (t : ℕ) : Option ρ :=
  match s.point t with
  | some (.finished result) => some result
  | _ => none

/-- `start()`. -/
def callStart (s : State κ ρ μ) (t : ℕ) : Option (State κ ρ μ × List Event) :=
  match s.point t with
  | none => none
  | some (.finished _) => some (s, [.startCall t])
  | some _ => some ({ s with pending := some (t, .start) }, [.startCall t])

/-- `handle.resume()`. A resume of a coroutine that is not suspended is
undefined behaviour. -/
def resumePending (s : State κ ρ μ) (t : ℕ) (resumer : Resumer) :
    Option (State κ ρ μ × List Event) :=
  let enter (locals : κ) : State κ ρ μ :=
    { s.setPoint t (.running locals) with pending := none, stack := t :: s.stack }
  match s.point t with
  | none => none
  | some (.initial body) => some (enter body, [.resumed t resumer])
  | some (.scheduled next) => some (enter next, [.resumed t resumer])
  | some (.awaiting c next) => some (enter (next (s.result c)), [.resumed t resumer])
  | some (.running _) | some (.finished _) =>
      some ({ s with pending := none, undefined := true }, [.resumed t resumer])

/-- The coroutine `t`, on top of the stack, executes its next instruction.
`sleep_for` reads the clock for the due time and again in `await_ready`. -/
def execute (s : State κ ρ μ) (t : ℕ) (rest : List ℕ) (now now' : ℤ) :
    Instr κ ρ μ → Option (State κ ρ μ × List Event)
  | .create body next => some ((s.setPoint t (.running (next s.nextFrame))).allocate body, [])
  | .start c next => (s.setPoint t (.running next)).callStart c
  | .done c next => some (s.setPoint t (.running (next (s.result c).isSome)), [])
  | .await c next =>
      match s.point c with
      | none => none
      | some (.finished result) =>
          some (s.setPoint t (.running (next (some result))), [.awaitCall t c])
      | some _ =>
          some ({ (s.setPoint t (.awaiting c next)).setContinuation c t with
            stack := rest
            pending := some (c, .awaiter t) }, [.awaitCall t c])
  | .sleepFor duration next =>
      if s.now ≤ now ∧ now ≤ now' then
        if now + duration ≤ now' then
          some ({ s.setPoint t (.running next) with now := now' }, [])
        else
          some ({ s.setPoint t (.scheduled next) with
            now := now'
            stack := rest
            sched := s.sched.addTimer (now + duration) t },
            [.registered (.timer (s.sched.newTimer (now + duration) t))])
      else none
  | .yield next =>
      some ({ s.setPoint t (.scheduled next) with
        stack := rest
        sched := s.sched.pushReady t }, [.registered (.yielded t)])
  | .get next => some (s.setPoint t (.running (next s.memory)), [])
  | .set memory next => some ({ s.setPoint t (.running next) with memory := memory }, [])
  | .ret result =>
      some ({ s.setPoint t (.finished result) with
        stack := rest
        pending := (s.continuation t).map fun c => (c, .finalAwaiter t) }, [])

/-- One step of the loops of `run()`. -/
def loopStep (s : State κ ρ μ) (now : ℤ) : Option (State κ ρ μ × List Event) :=
  match s.mode with
  | .plain => none
  | .test =>
      match s.sched.ready, s.sched.timers with
      | [], [] => some ({ s with mode := .plain }, [.returned])
      | [], e :: _ =>
          if s.now ≤ now ∧ e.due ≤ now then some ({ s with now := now, mode := .moving }, [])
          else none
      | _ :: _, _ => some ({ s with mode := .moving }, [])
  | .moving =>
      match s.sched.timers with
      | [] => some ({ s with mode := .popping }, [])
      | e :: _ =>
          if s.now ≤ now then
            if e.due ≤ now then
              some ({ s with now := now, sched := s.sched.moveTop }, [.moved e])
            else some ({ s with now := now, mode := .popping }, [])
          else none
  | .popping =>
      match s.sched.ready with
      | [] => some ({ s with mode := .test }, [])
      | r :: _ =>
          some ({ s with
            sched := s.sched.popReady
            pending := some (r.task, .loop r)
            mode := .resuming }, [])
  | .resuming => some ({ s with mode := .test }, [])

/-- One step of the program. -/
def step (code : κ → Instr κ ρ μ) (s : State κ ρ μ) (a : Action κ μ) :
    Option (State κ ρ μ × List Event) :=
  if s.undefined then none
  else
    match a, s.pending, s.stack, s.mode with
    | .create body, none, [], .plain => some (s.allocate body, [])
    | .start t, none, [], .plain => s.callStart t
    | .set memory, none, [], .plain => some ({ s with memory := memory }, [])
    | .run, none, [], .plain => some ({ s with mode := .test }, [])
    | .resume, some (t, resumer), _, _ => s.resumePending t resumer
    | .exec now now', none, t :: rest, _ =>
        match s.point t with
        | some (.running locals) => s.execute t rest now now' (code locals)
        | _ => none
    | .loop now, none, [], _ => s.loopStep now
    | _, _, _, _ => none

theorem point_setPoint (s : State κ ρ μ) (t t' : ℕ) (p : Point κ ρ) :
    (s.setPoint t p).point t' = if t' = t then (s.point t).map fun _ => p else s.point t' := by
  by_cases h : t' = t
  · subst h
    simp [point, setPoint, Function.comp_def]
  · simp [point, setPoint, h]

@[simp] theorem continuation_setPoint (s : State κ ρ μ) (t : ℕ) (p : Point κ ρ) :
    (s.setPoint t p).continuation = s.continuation := by
  funext t'
  by_cases h : t' = t
  · subst h
    simp [continuation, setPoint, Option.bind_map]
  · simp [continuation, setPoint, h]

@[simp] theorem point_setContinuation (s : State κ ρ μ) (t waiting : ℕ) :
    (s.setContinuation t waiting).point = s.point := by
  funext t'
  by_cases h : t' = t
  · subst h
    simp [point, setContinuation, Function.comp_def]
  · simp [point, setContinuation, h]

theorem continuation_setContinuation {s : State κ ρ μ} {t : ℕ} (h : s.point t ≠ none)
    (waiting t' : ℕ) : (s.setContinuation t waiting).continuation t' =
      if t' = t then some waiting else s.continuation t' := by
  by_cases ht : t' = t
  · subst ht
    cases hf : s.frames t' with
    | none => simp [point, hf] at h
    | some f => simp [continuation, setContinuation, hf]
  · simp [continuation, setContinuation, ht]

theorem point_allocate (s : State κ ρ μ) (body : κ) (t : ℕ) :
    (s.allocate body).point t = if t = s.nextFrame then some (.initial body) else s.point t := by
  by_cases h : t = s.nextFrame
  · subst h
    simp [point, allocate]
  · simp [point, allocate, h]

theorem continuation_allocate (s : State κ ρ μ) (body : κ) (t : ℕ) :
    (s.allocate body).continuation t = if t = s.nextFrame then none else s.continuation t := by
  by_cases h : t = s.nextFrame
  · subst h
    simp [continuation, allocate]
  · simp [continuation, allocate, h]

theorem callStart_events {s s' : State κ ρ μ} {t : ℕ} {events : List Event}
    (h : s.callStart t = some (s', events)) : events = [.startCall t] := by
  unfold callStart at h
  split at h <;> cases h <;> rfl

/-- The cases of a step: who acts, and what must be at rest for it. -/
inductive StepCase (code : κ → Instr κ ρ μ) (s : State κ ρ μ) :
    Action κ μ → State κ ρ μ → List Event → Prop
  | create {body : κ} (hpending : s.pending = none) (hstack : s.stack = []) :
      StepCase code s (.create body) (s.allocate body) []
  | start {t : ℕ} {s' : State κ ρ μ} {events : List Event} (hpending : s.pending = none)
      (hstack : s.stack = []) (hcall : s.callStart t = some (s', events)) :
      StepCase code s (.start t) s' events
  | set {memory : μ} (hpending : s.pending = none) (hstack : s.stack = []) :
      StepCase code s (.set memory) { s with memory := memory } []
  | run (hpending : s.pending = none) (hstack : s.stack = []) :
      StepCase code s .run { s with mode := .test } []
  | resume {t : ℕ} {resumer : Resumer} {s' : State κ ρ μ} {events : List Event}
      (hpending : s.pending = some (t, resumer))
      (hresume : s.resumePending t resumer = some (s', events)) :
      StepCase code s .resume s' events
  | exec {t : ℕ} {rest : List ℕ} {locals : κ} {now now' : ℤ} {s' : State κ ρ μ}
      {events : List Event} (hpending : s.pending = none) (hstack : s.stack = t :: rest)
      (hpoint : s.point t = some (.running locals))
      (hexec : s.execute t rest now now' (code locals) = some (s', events)) :
      StepCase code s (.exec now now') s' events
  | loop {now : ℤ} {s' : State κ ρ μ} {events : List Event} (hpending : s.pending = none)
      (hstack : s.stack = []) (hloop : s.loopStep now = some (s', events)) :
      StepCase code s (.loop now) s' events

theorem step_cases {code : κ → Instr κ ρ μ} {s s' : State κ ρ μ} {a : Action κ μ}
    {events : List Event} (h : s.step code a = some (s', events)) :
    s.undefined = false ∧ StepCase code s a s' events := by
  unfold step at h
  split at h
  · cases h
  · next hdefined =>
    refine ⟨by simpa using hdefined, ?_⟩
    split at h
    · next hpending hstack hmode => cases h; exact .create hpending hstack
    · next hpending hstack hmode => exact .start hpending hstack h
    · next hpending hstack hmode => cases h; exact .set hpending hstack
    · next hpending hstack hmode => cases h; exact .run hpending hstack
    · next hpending => exact .resume hpending h
    · next hpending hstack =>
      split at h
      · next hpoint => exact .exec hpending hstack hpoint h
      · cases h
    · next hpending hstack => exact .loop hpending hstack h
    · cases h

end State

/-- The runs of a program; a step shows its events. -/
def coroSystem {κ ρ μ : Type} (code : κ → Instr κ ρ μ) : System (State κ ρ μ) (List Event) where
  init s := ∃ memory, s = .init memory
  step s events s' := ∃ a, s.step code a = some (s', events)

end CppWorkspace.Coro
