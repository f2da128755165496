import CppWorkspace.Coro.TaskLinks

/-!
Frames that are destroyed. A `task` owns its frame; destroying the frame
destroys the task objects it holds, and so on inwards. The scheduler keeps
handles and owns nothing.
-/

namespace CppWorkspace.Coro

open Lib System

variable {κ ρ μ : Type}

/-- A program with its task objects. `holder` is the frame that a task object
lives in, if it lives in one; `dying` are the frames whose destruction has begun
and is not over. -/
structure TaskState (κ ρ μ : Type) where
  base : State κ ρ μ
  holder : ℕ → Option ℕ
  dying : List ℕ

/-- What happens next: the program goes on, or the code that is running moves or
destroys a task object, or the next of the dying frames goes. -/
inductive TaskAction (κ μ : Type) where
  | program (a : Action κ μ)
  | move (t : ℕ) (holder : Option ℕ)
  | destroy (t : ℕ)
  | tearDown

namespace State

/-- Plain code or a coroutine is running, not `run()` itself. -/
def inUserCode (s : State κ ρ μ) : Bool :=
  !s.undefined && s.pending.isNone && (!s.stack.isEmpty || s.mode = .plain)

def hasFrame (s : State κ ρ μ) (t : ℕ) : Bool := (s.frames t).isSome

/-- The frame of `t` is destroyed, which is undefined for a coroutine that is
not suspended. -/
def removeFrame (s : State κ ρ μ) (t : ℕ) : State κ ρ μ :=
  { s with
    frames := Function.update s.frames t none
    undefined := s.undefined || decide (t ∈ s.stack) }

/-- The coroutine that is running ends next: the one whose `co_await` it was, as its
promise has stored it. -/
def returnsTo (code : κ → Instr κ ρ μ) (s : State κ ρ μ) : Option ℕ :=
  match s.stack with
  | [] => none
  | t :: _ =>
      match s.point t with
      | some (.running locals) =>
          match code locals with
          | .ret _ => s.continuation t
          | _ => none
      | _ => none

/-- One step of the program; resuming a destroyed frame is undefined. -/
def proceed (code : κ → Instr κ ρ μ) (s : State κ ρ μ) : Action κ μ → Option (State κ ρ μ)
  | .resume =>
      match s.pending with
      | some (t, _) =>
          if s.undefined = false ∧ s.hasFrame t = false then
            some { s with pending := none, undefined := true }
          else (s.step code .resume).map Prod.fst
      | none => none
  | a => (s.step code a).map Prod.fst

end State

namespace TaskState

def init (memory : μ) : TaskState κ ρ μ := ⟨.init memory, fun _ => none, []⟩

/-- The tasks that a frame holds. -/
def heldBy (s : TaskState κ ρ μ) (p : ℕ) : List ℕ :=
  (List.range s.base.nextFrame).filter fun t => s.base.hasFrame t && s.holder t = some p

/-- One step. A task that is created belongs to the code that creates it. -/
def step (code : κ → Instr κ ρ μ) (s : TaskState κ ρ μ) :
    TaskAction κ μ → Option (TaskState κ ρ μ)
  | .program a =>
      if s.dying = [] then
        (s.base.proceed code a).map fun base =>
          { s with
            base := base
            holder :=
              if base.nextFrame = s.base.nextFrame then s.holder
              else Function.update s.holder s.base.nextFrame s.base.stack.head? }
      else none
  | .move t holder =>
      if s.dying = [] ∧ s.base.inUserCode ∧ s.base.hasFrame t ∧
          ∀ p ∈ holder, s.base.hasFrame p then
        some { s with holder := Function.update s.holder t holder }
      else none
  | .destroy t =>
      if s.dying = [] ∧ s.base.inUserCode ∧ s.base.hasFrame t then
        some { s with dying := [t] }
      else none
  | .tearDown =>
      match s.dying with
      | [] => none
      | t :: rest =>
          some { s with base := s.base.removeFrame t, dying := s.heldBy t ++ rest }

/-- What is asked of the handles: those in `ready_` and `timers_`, and the one that
`run()` has taken out, belong to suspended coroutines; and whatever is resumed inside
`run()`, by itself or by a transfer, has a frame. -/
structure HandlesAlive (s : TaskState κ ρ μ) : Prop where
  queued : ∀ r ∈ s.base.sched.waiting, s.base.Suspended r.task
  popped : ∀ t r, s.base.pending = some (t, .loop r) → s.base.Suspended t
  resumed : s.base.mode ≠ .plain → ∀ t resumer, s.base.pending = some (t, resumer) →
    s.base.hasFrame t = true

/-- The step does not destroy a frame whose handle is in `ready_` or `timers_`, only
`run()` resumes such a coroutine, and no coroutine that ends inside `run()` was awaited
by one whose frame is gone. -/
def SparesHandles (code : κ → Instr κ ρ μ) (s : TaskState κ ρ μ) : TaskAction κ μ → Prop
  | .tearDown => ∀ t ∈ s.dying.head?, ∀ r ∈ s.base.sched.waiting, r.task ≠ t
  | .program .resume => ∀ t resumer, s.base.pending = some (t, resumer) →
      (∀ r, resumer ≠ .loop r) → ∀ r ∈ s.base.sched.waiting, r.task ≠ t
  | .program (.exec _ _) => s.base.mode ≠ .plain → ∀ p ∈ s.base.returnsTo code,
      s.base.hasFrame p = true
  | .program _ | .move _ _ | .destroy _ => True

end TaskState

/-- The runs of a program that may destroy its tasks. -/
def taskSystem (code : κ → Instr κ ρ μ) : System (TaskState κ ρ μ) (TaskAction κ μ) where
  init s := ∃ memory, s = .init memory
  step s a s' := s.step code a = some s'

namespace State

variable {code : κ → Instr κ ρ μ} {s s' : State κ ρ μ} {a : Action κ μ} {t : ℕ}
  {events : List Event}

theorem hasFrame_iff : s.hasFrame t = true ↔ s.point t ≠ none := by
  rw [hasFrame, point, ne_eq, Option.map_eq_none_iff, Option.isSome_iff_ne_none]

theorem point_removeFrame (s : State κ ρ μ) (t t' : ℕ) :
    (s.removeFrame t).point t' = if t' = t then none else s.point t' := by
  by_cases h : t' = t
  · subst h
    simp [point, removeFrame]
  · simp [point, removeFrame, h]

theorem Suspended.point_ne_none (h : s.Suspended t) : s.point t ≠ none := by
  rcases h with ⟨_, h⟩ | ⟨_, h⟩ | ⟨_, _, h⟩ <;> simp [h]

theorem Suspended.not_running (h : s.Suspended t) : ¬ s.Running t := by
  rintro ⟨locals, hlocals⟩
  rcases h with ⟨_, h⟩ | ⟨_, h⟩ | ⟨_, _, h⟩ <;> simp [h] at hlocals

/-- A call of `start()` moves no coroutine. -/
theorem callStart_point (h : s.callStart t = some (s', events)) :
    s'.point = s.point ∧ s'.nextFrame = s.nextFrame ∧
      (s'.pending = s.pending ∨ s'.pending = some (t, .start)) := by
  unfold callStart at h
  split at h
  · cases h
  · cases h
    exact ⟨rfl, rfl, Or.inl rfl⟩
  · cases h
    exact ⟨rfl, rfl, Or.inr rfl⟩

/-- An instruction moves the coroutine that executes it and may make a frame. -/
theorem execute_point {t₀ : ℕ} {rest : List ℕ} {now now' : ℤ} {instr : Instr κ ρ μ}
    (h : s.execute t₀ rest now now' instr = some (s', events)) (ht : t ≠ t₀)
    (hfresh : t < s.nextFrame ∨ s'.nextFrame ≤ t) : s'.point t = s.point t := by
  have hpoint (p : Point κ ρ) : (s.setPoint t₀ p).point t = s.point t := by
    rw [point_setPoint, if_neg ht]
  cases instr with
  | create body next =>
    cases h
    refine (point_allocate _ body t).trans ?_
    rw [if_neg, hpoint]
    rintro rfl
    have hnext : s.nextFrame + 1 ≤ s.nextFrame := hfresh.resolve_left (Nat.lt_irrefl _)
    omega
  | start c next =>
    simp only [execute] at h
    rw [(callStart_point h).1, hpoint]
  | done c next =>
    cases h
    exact hpoint _
  | await c next =>
    simp only [execute] at h
    split at h
    · cases h
    · cases h
      exact hpoint _
    · cases h
      exact (congrFun (point_setContinuation _ c t₀) t).trans (hpoint _)
  | sleepFor duration next =>
    simp only [execute] at h
    split at h
    · split at h
      · cases h
        exact hpoint _
      · cases h
        exact hpoint _
    · cases h
  | yield next =>
    cases h
    exact hpoint _
  | get next =>
    cases h
    exact hpoint _
  | set memory next =>
    cases h
    exact hpoint _
  | ret result =>
    cases h
    exact hpoint _

/-- `run()` by itself moves and registers no coroutine, and pends what it pops. -/
theorem loopStep_point {now : ℤ} (h : s.loopStep now = some (s', events)) :
    s'.point = s.point ∧ s'.nextFrame = s.nextFrame ∧ (∀ r, .registered r ∉ events) ∧
      (s'.pending = s.pending ∨ ∃ r, s'.pending = some (r.task, .loop r)) := by
  unfold loopStep at h
  split at h
  · cases h
  · split at h
    · cases h
      exact ⟨rfl, rfl, by simp, Or.inl rfl⟩
    · split at h
      · cases h
        exact ⟨rfl, rfl, by simp, Or.inl rfl⟩
      · cases h
    · cases h
      exact ⟨rfl, rfl, by simp, Or.inl rfl⟩
  · split at h
    · cases h
      exact ⟨rfl, rfl, by simp, Or.inl rfl⟩
    · split at h
      · split at h
        · cases h
          exact ⟨rfl, rfl, by simp, Or.inl rfl⟩
        · cases h
          exact ⟨rfl, rfl, by simp, Or.inl rfl⟩
      · cases h
  · split at h
    · cases h
      exact ⟨rfl, rfl, by simp, Or.inl rfl⟩
    · next r rest hready =>
      cases h
      exact ⟨rfl, rfl, by simp, Or.inr ⟨r, rfl⟩⟩
  · cases h
    exact ⟨rfl, rfl, by simp, Or.inl rfl⟩

/-- A resumed coroutine that is suspended runs, and the others stay. -/
theorem resumePending_point {t₀ : ℕ} {resumer : Resumer}
    (h : s.resumePending t₀ resumer = some (s', events)) :
    s.point t₀ ≠ none ∧ s'.pending = none ∧ events = [.resumed t₀ resumer] ∧
      (∀ t, t ≠ t₀ → s'.point t = s.point t) ∧ (s.Suspended t₀ → s'.Running t₀) := by
  have henter : ∀ locals : κ, s.point t₀ ≠ none →
      (∀ t, t ≠ t₀ → (s.setPoint t₀ (.running locals)).point t = s.point t) ∧
        (s.setPoint t₀ (.running locals)).Running t₀ := by
    intro locals hne
    obtain ⟨p, hp⟩ := Option.ne_none_iff_exists'.mp hne
    refine ⟨fun t ht => by rw [point_setPoint, if_neg ht], locals, ?_⟩
    rw [point_setPoint, if_pos rfl, hp]
    rfl
  unfold resumePending at h
  split at h
  · cases h
  · next hpoint =>
    cases h
    have hne : s.point t₀ ≠ none := by simp [hpoint]
    exact ⟨hne, rfl, rfl, (henter _ hne).1, fun _ => (henter _ hne).2⟩
  · next hpoint =>
    cases h
    have hne : s.point t₀ ≠ none := by simp [hpoint]
    exact ⟨hne, rfl, rfl, (henter _ hne).1, fun _ => (henter _ hne).2⟩
  · next hpoint =>
    cases h
    have hne : s.point t₀ ≠ none := by simp [hpoint]
    exact ⟨hne, rfl, rfl, (henter _ hne).1, fun _ => (henter _ hne).2⟩
  · next hpoint =>
    cases h
    have hnot : ¬ s.Suspended t₀ := fun hsuspended => hsuspended.not_running ⟨_, hpoint⟩
    exact ⟨by simp [hpoint], rfl, rfl, fun _ _ => rfl, fun hsuspended => absurd hsuspended hnot⟩
  · next hpoint =>
    cases h
    refine ⟨by simp [hpoint], rfl, rfl, fun _ _ => rfl, fun hsuspended => ?_⟩
    rcases hsuspended with ⟨_, h⟩ | ⟨_, h⟩ | ⟨_, _, h⟩ <;> simp [hpoint] at h

/-- A step leaves a coroutine where it is unless it runs or is resumed. -/
theorem point_of_step (h : s.step code a = some (s', events))
    (hfresh : t < s.nextFrame ∨ s'.nextFrame ≤ t) (hrunning : ¬ s.Running t)
    (hpending : s.point t ≠ none → ∀ resumer, s.pending ≠ some (t, resumer)) :
    s'.point t = s.point t := by
  cases (step_cases h).2 with
  | create _ _ =>
    refine (point_allocate s _ t).trans (if_neg ?_)
    rintro rfl
    have hnext : s.nextFrame + 1 ≤ s.nextFrame := hfresh.resolve_left (Nat.lt_irrefl _)
    omega
  | start _ _ hcall => rw [(callStart_point hcall).1]
  | set _ _ => rfl
  | run _ _ => rfl
  | @resume t₀ resumer _ _ hpend hresume =>
    obtain ⟨hne, -, -, hkept, -⟩ := resumePending_point hresume
    apply hkept
    rintro rfl
    exact hpending hne resumer hpend
  | @exec t₀ rest locals _ _ _ _ _ _ hpoint hexec =>
    refine execute_point hexec ?_ hfresh
    rintro rfl
    exact hrunning ⟨locals, hpoint⟩
  | loop _ _ hloop => rw [(loopStep_point hloop).1]

/-- An instruction that registers suspends its coroutine in the scheduler; none
pends a handle for `run()`. -/
theorem execute_registered {t₀ : ℕ} {rest : List ℕ} {now now' : ℤ} {instr : Instr κ ρ μ}
    (hrunning : s.Running t₀) (h : s.execute t₀ rest now now' instr = some (s', events)) :
    (∀ r, .registered r ∈ events → r.task = t₀ ∧ s'.Scheduled t₀) ∧
      (s.pending = none → ∀ t r, s'.pending ≠ some (t, .loop r)) := by
  have hscheduled (next : κ) : (s.setPoint t₀ (.scheduled next)).Scheduled t₀ :=
    ⟨next, by rw [(Moves.setPoint hrunning (.scheduled next)).point, if_pos rfl]⟩
  cases instr with
  | create body next =>
    cases h
    exact ⟨by simp, fun hnone t r => by simp [allocate, setPoint, hnone]⟩
  | start c next =>
    simp only [execute] at h
    obtain ⟨-, -, hpending⟩ := callStart_point h
    refine ⟨by simp [callStart_events h], fun hnone t r => ?_⟩
    rcases hpending with heq | heq
    · rw [heq]
      simp [setPoint, hnone]
    · simp [heq]
  | done c next =>
    cases h
    exact ⟨by simp, fun hnone t r => by simp [setPoint, hnone]⟩
  | await c next =>
    simp only [execute] at h
    split at h
    · cases h
    · cases h
      exact ⟨by simp, fun hnone t r => by simp [setPoint, hnone]⟩
    · cases h
      exact ⟨by simp, fun _ t r => by simp⟩
  | sleepFor duration next =>
    simp only [execute] at h
    split at h
    · split at h
      · cases h
        exact ⟨by simp, fun hnone t r => by simp [setPoint, hnone]⟩
      · cases h
        refine ⟨fun r hr => ?_, fun hnone t r => by simp [setPoint, hnone]⟩
        obtain rfl : r = .timer (s.sched.newTimer (now + duration) t₀) := by simpa using hr
        exact ⟨rfl, hscheduled next⟩
    · cases h
  | yield next =>
    cases h
    refine ⟨fun r hr => ?_, fun hnone t r => by simp [setPoint, hnone]⟩
    obtain rfl : r = .yielded t₀ := by simpa using hr
    exact ⟨rfl, hscheduled next⟩
  | get next =>
    cases h
    exact ⟨by simp, fun hnone t r => by simp [setPoint, hnone]⟩
  | set memory next =>
    cases h
    exact ⟨by simp, fun hnone t r => by simp [setPoint, hnone]⟩
  | ret result =>
    cases h
    refine ⟨by simp, fun _ t r hpending => ?_⟩
    obtain ⟨c, -, heq⟩ := Option.map_eq_some_iff.mp hpending
    cases heq

/-- What registers was running, and is suspended in the scheduler afterwards. -/
theorem registered_of_step {r : Registration} (h : s.step code a = some (s', events))
    (hr : .registered r ∈ events) : s.Running r.task ∧ s'.Scheduled r.task := by
  cases (step_cases h).2 with
  | create _ _ => cases hr
  | start _ _ hcall =>
    rw [callStart_events hcall] at hr
    simp at hr
  | set _ _ => cases hr
  | run _ _ => cases hr
  | resume _ hresume =>
    rw [(resumePending_point hresume).2.2.1] at hr
    simp at hr
  | exec _ _ hpoint hexec =>
    obtain ⟨rfl, hscheduled⟩ := (execute_registered ⟨_, hpoint⟩ hexec).1 r hr
    exact ⟨⟨_, hpoint⟩, hscheduled⟩
  | loop _ _ hloop => exact absurd hr ((loopStep_point hloop).2.2.1 r)

/-- `run()` resumes the coroutine that it has popped. -/
theorem popped_of_step {r : Registration} (h : s.step code a = some (s', events))
    (hr : s'.pending = some (t, .loop r)) : r.task = t := by
  cases (step_cases h).2 with
  | create hnone _ => cases hnone.symm.trans hr
  | start hnone _ hcall =>
    rcases (callStart_point hcall).2.2 with heq | heq
    · cases (heq.trans hnone).symm.trans hr
    · cases heq.symm.trans hr
  | set hnone _ => cases hnone.symm.trans hr
  | run hnone _ => cases hnone.symm.trans hr
  | resume _ hresume => cases (resumePending_point hresume).2.1.symm.trans hr
  | exec hnone _ hpoint hexec =>
    exact absurd hr ((execute_registered ⟨_, hpoint⟩ hexec).2 hnone t r)
  | loop hnone _ hloop =>
    rcases (loopStep_point hloop).2.2.2 with heq | ⟨r', heq⟩
    · cases (heq.trans hnone).symm.trans hr
    · cases heq.symm.trans hr
      rfl

@[simp] theorem hasFrame_setPoint (s : State κ ρ μ) (t t' : ℕ) (p : Point κ ρ) :
    (s.setPoint t p).hasFrame t' = s.hasFrame t' := by
  by_cases h : t' = t
  · subst h
    simp [hasFrame, setPoint]
  · simp [hasFrame, setPoint, h]

/-- What a call of `start()` pends has a frame. -/
theorem callStart_pending {resumer : Resumer} (hnone : s.pending = none) {t₀ : ℕ}
    (h : s.callStart t₀ = some (s', events)) (hpending : s'.pending = some (t, resumer)) :
    s'.hasFrame t = true := by
  unfold callStart at h
  split at h
  · cases h
  · cases h
    cases hnone.symm.trans hpending
  · next p _ hpoint =>
    cases h
    cases hpending
    refine hasFrame_iff.mpr ?_
    change s.point t ≠ none
    rw [hpoint]
    exact Option.some_ne_none p

/-- A coroutine ends: the one that awaited it is resumed next. -/
theorem return_of_exec {now now' : ℤ} (h : s.step code (.exec now now') = some (s', events)) {p : ℕ}
    (hreturns : s.returnsTo code = some p) :
    (∃ c, s'.pending = some (p, .finalAwaiter c)) ∧ s'.mode = s.mode ∧
      s'.hasFrame p = s.hasFrame p := by
  cases (step_cases h).2 with
  | @exec t₀ rest locals _ _ _ _ hnone hstack hpoint hexec =>
    simp only [returnsTo, hstack, hpoint] at hreturns
    cases hinstr : code locals with
    | ret result =>
      simp only [hinstr] at hexec hreturns
      cases hexec
      exact ⟨⟨t₀, by simp [hreturns]⟩, rfl, hasFrame_setPoint s t₀ p _⟩
    | _ => simp [hinstr] at hreturns

/-- What is pending after a step has been popped, or has a frame, or has awaited the
coroutine that has ended. -/
theorem pending_of_step {resumer : Resumer} (h : s.step code a = some (s', events))
    (hpending : s'.pending = some (t, resumer)) :
    (∃ r, resumer = .loop r) ∨ s'.hasFrame t = true ∨
      ∃ now now', a = .exec now now' ∧ s.returnsTo code = some t := by
  cases (step_cases h).2 with
  | create hnone _ | set hnone _ | run hnone _ => cases hnone.symm.trans hpending
  | start hnone _ hcall => exact Or.inr (Or.inl (callStart_pending hnone hcall hpending))
  | resume _ hresume => cases (resumePending_point hresume).2.1.symm.trans hpending
  | loop hnone _ hloop =>
    rcases (loopStep_point hloop).2.2.2 with heq | ⟨r, heq⟩
    · cases (heq.trans hnone).symm.trans hpending
    · cases heq.symm.trans hpending
      exact Or.inl ⟨r, rfl⟩
  | @exec t₀ rest locals now now' _ _ hnone hstack hpoint hexec =>
    cases hinstr : code locals with
    | start c next =>
      simp only [hinstr, execute] at hexec
      have hnone' : (s.setPoint t₀ (.running next)).pending = none := hnone
      exact Or.inr (Or.inl (callStart_pending hnone' hexec hpending))
    | await c next =>
      simp only [hinstr, execute] at hexec
      split at hexec
      · cases hexec
      · cases hexec
        cases hnone.symm.trans hpending
      · next p _ hc =>
        cases hexec
        cases hpending
        refine Or.inr (Or.inl (hasFrame_iff.mpr ?_))
        change ((s.setPoint t₀ (.awaiting t next)).setContinuation t t₀).point t ≠ none
        rw [point_setContinuation, point_setPoint]
        split
        · next heq =>
          rw [← heq, hc]
          exact Option.some_ne_none _
        · rw [hc]
          exact Option.some_ne_none p
    | ret result =>
      simp only [hinstr] at hexec
      cases hexec
      obtain ⟨p, hp, heq⟩ := Option.map_eq_some_iff.mp hpending
      cases heq
      exact Or.inr (Or.inr ⟨now, now', rfl, by simp [returnsTo, hstack, hpoint, hinstr, hp]⟩)
    | sleepFor duration next =>
      simp only [hinstr, execute] at hexec
      split at hexec
      · split at hexec <;> cases hexec <;> cases hnone.symm.trans hpending
      · cases hexec
    | create body next | done c next | yield next | get next | set memory next =>
      simp only [hinstr] at hexec
      cases hexec
      cases hnone.symm.trans hpending

/-- What a resume leaves alone. -/
theorem resumePending_rest {t₀ : ℕ} {resumer : Resumer}
    (h : s.resumePending t₀ resumer = some (s', events)) :
    s'.sched = s.sched ∧ s'.nextFrame = s.nextFrame := by
  unfold resumePending at h
  split at h <;> cases h <;> exact ⟨rfl, rfl⟩

theorem execute_nextFrame {t₀ : ℕ} {rest : List ℕ} {now now' : ℤ} {instr : Instr κ ρ μ}
    (h : s.execute t₀ rest now now' instr = some (s', events)) : s.nextFrame ≤ s'.nextFrame := by
  cases instr with
  | create body next =>
    cases h
    exact Nat.le_succ _
  | start c next =>
    simp only [execute] at h
    exact (callStart_point h).2.1.ge
  | await c next =>
    simp only [execute] at h
    split at h <;> cases h <;> exact le_rfl
  | sleepFor duration next =>
    simp only [execute] at h
    split at h
    · split at h <;> cases h <;> exact le_rfl
    · cases h
  | done c next | yield next | get next | set memory next | ret result =>
    cases h
    exact le_rfl

theorem nextFrame_of_step (h : s.step code a = some (s', events)) : s.nextFrame ≤ s'.nextFrame := by
  cases (step_cases h).2 with
  | create _ _ => exact Nat.le_succ _
  | start _ _ hcall => exact (callStart_point hcall).2.1.ge
  | set _ _ => exact le_rfl
  | run _ _ => exact le_rfl
  | resume _ hresume => exact (resumePending_rest hresume).2.ge
  | exec _ _ _ hexec => exact execute_nextFrame hexec
  | loop _ _ hloop => exact (loopStep_point hloop).2.1.ge

/-- While a handle is pending, nothing else happens than its resume. -/
theorem step_of_pending {resumer : Resumer} (hpending : s.pending = some (t, resumer))
    (h : s.step code a = some (s', events)) :
    a = .resume ∧ s.resumePending t resumer = some (s', events) := by
  cases (step_cases h).2 with
  | create hnone _ | start hnone _ _ | set hnone _ | run hnone _ | exec hnone _ _ _
  | loop hnone _ _ =>
    cases hnone.symm.trans hpending
  | resume hpend hresume =>
    cases hpend.symm.trans hpending
    exact ⟨rfl, hresume⟩

theorem Scheduled.not_running (h : s.Scheduled t) : ¬ s.Running t :=
  (show s.Suspended t from Or.inr (Or.inl h)).not_running

/-- The handles in the queues belong to different coroutines, all suspended in
the scheduler; so does the one that `run()` has popped. -/
structure Intact (s : State κ ρ μ) : Prop where
  fresh : ∀ t, s.nextFrame ≤ t → s.point t = none
  once : (s.sched.waiting.map Registration.task).Nodup
  queued : ∀ r ∈ s.sched.waiting, s.Scheduled r.task
  popped : ∀ t r, s.pending = some (t, .loop r) →
    r.task = t ∧ s.Scheduled t ∧ ∀ r' ∈ s.sched.waiting, r'.task ≠ t

namespace Intact

theorem init (memory : μ) : (State.init memory : State κ ρ μ).Intact where
  fresh _ _ := rfl
  once := .nil
  queued := by simp [State.init, Scheduler.waiting, Scheduler.empty]
  popped := nofun

theorem lt_nextFrame (h : s.Intact) (ht : s.Scheduled t) : t < s.nextFrame := by
  obtain ⟨next, hnext⟩ := ht
  by_contra hle
  simp [h.fresh t (not_lt.mp hle)] at hnext

theorem fresh_of_step (h : s.Intact) (hstep : s.step code a = some (s', events)) :
    ∀ t, s'.nextFrame ≤ t → s'.point t = none := by
  intro t ht
  have hnone := h.fresh t ((nextFrame_of_step hstep).trans ht)
  rw [point_of_step hstep (Or.inr ht) ?_ fun hne => absurd hnone hne, hnone]
  rintro ⟨locals, hlocals⟩
  simp [hnone] at hlocals

/-- What is suspended in the scheduler stays so unless it is resumed. -/
theorem scheduled_of_step (h : s.Intact) (hstep : s.step code a = some (s', events))
    (ht : s.Scheduled t) (hpending : ∀ resumer, s.pending ≠ some (t, resumer)) :
    s'.Scheduled t := by
  have hpoint := point_of_step hstep (Or.inl (h.lt_nextFrame ht)) ht.not_running fun _ => hpending
  exact ht.imp fun next hnext => hpoint.trans hnext

/-- A registration of a running coroutine. -/
theorem register (h : s.Intact) (hstep : s.step code a = some (s', events)) {r : Registration}
    (hnone : s.pending = none) (hr : .registered r ∈ events)
    (hflight : s'.inFlight = s.inFlight) (hsched : s'.sched.waiting.Perm (r :: s.sched.waiting)) :
    s'.Intact := by
  obtain ⟨hrunning, hscheduled⟩ := registered_of_step hstep hr
  refine ⟨h.fresh_of_step hstep, ?_, fun r' hr' => ?_, fun t r' hpending => ?_⟩
  · rw [(hsched.map _).nodup_iff, List.map_cons, List.nodup_cons]
    refine ⟨fun hmem => ?_, h.once⟩
    obtain ⟨r', hr', heq⟩ := List.mem_map.mp hmem
    exact (h.queued r' hr').not_running (heq ▸ hrunning)
  · rcases List.mem_cons.mp (hsched.mem_iff.mp hr') with rfl | hold
    · exact hscheduled
    · exact h.scheduled_of_step hstep (h.queued r' hold) (by simp [hnone])
  · rw [inFlight_of_none hnone] at hflight
    simp [inFlight, hpending] at hflight

/-- A step of the program from code that is running. -/
theorem step_running (h : s.Intact) (hstep : s.step code a = some (s', events))
    (hnone : s.pending = none) : s'.Intact := by
  have hflight := inFlight_of_none hnone
  have hkept : ∀ r ∈ s.sched.waiting, s'.Scheduled r.task :=
    fun r hr => h.scheduled_of_step hstep (h.queued r hr) (by simp [hnone])
  have hempty (hsame : s'.inFlight = s.inFlight) : ∀ t r, s'.pending ≠ some (t, .loop r) := by
    intro t r hpending
    rw [hflight] at hsame
    simp [inFlight, hpending] at hsame
  cases step_queue ⟨a, hstep⟩ with
  | quiet hsched _ hsame _ =>
    refine ⟨h.fresh_of_step hstep, hsched ▸ h.once, hsched ▸ hkept, ?_⟩
    exact fun t r hpending => absurd hpending (hempty hsame t r)
  | sleep hsched _ hsame _ =>
    exact h.register hstep hnone List.mem_cons_self hsame (hsched ▸ s.sched.waiting_addTimer _ _)
  | yield hsched _ hsame =>
    exact h.register hstep hnone List.mem_cons_self hsame (hsched ▸ s.sched.waiting_pushReady _)
  | move _ hsched _ hsame _ =>
    have hwaiting : s'.sched.waiting = s.sched.waiting := by rw [hsched, s.sched.waiting_moveTop]
    refine ⟨h.fresh_of_step hstep, hwaiting ▸ h.once, hwaiting ▸ hkept, ?_⟩
    exact fun t r hpending => absurd hpending (hempty hsame t r)
  | @pop r rest hready hsched _ _ hpopped =>
    have hwaiting : s.sched.waiting = r :: s'.sched.waiting := by
      rw [hsched]
      exact Scheduler.waiting_popReady hready
    have honce := h.once
    rw [hwaiting, List.map_cons, List.nodup_cons] at honce
    rw [hwaiting] at hkept
    refine ⟨h.fresh_of_step hstep, honce.2, fun r' hr' => hkept r' (List.mem_cons_of_mem _ hr'), ?_⟩
    intro t r' hpending
    obtain rfl : r' = r := by simpa [inFlight, hpending] using hpopped
    obtain rfl := popped_of_step hstep hpending
    refine ⟨rfl, hkept r' List.mem_cons_self, fun r'' hr'' heq => honce.1 ?_⟩
    rw [← heq]
    exact List.mem_map_of_mem hr''
  | resume _ _ hbefore _ => cases hflight.symm.trans hbefore

/-- A resume of a coroutine that is in neither queue. -/
theorem step_resume (h : s.Intact) (hstep : s.step code a = some (s', events)) {resumer : Resumer}
    (hpending : s.pending = some (t, resumer)) (hspared : ∀ r ∈ s.sched.waiting, r.task ≠ t) :
    s'.Intact := by
  have hresume := (step_of_pending hpending hstep).2
  have hsched := (resumePending_rest hresume).1
  have hnone := (resumePending_point hresume).2.1
  refine ⟨h.fresh_of_step hstep, hsched ▸ h.once, ?_, fun t r hloop => ?_⟩
  · rw [hsched]
    intro r hr
    refine h.scheduled_of_step hstep (h.queued r hr) fun resumer' heq => hspared r hr ?_
    cases hpending.symm.trans heq
    rfl
  · cases hnone.symm.trans hloop

/-- The frame of a coroutine that is in neither queue is destroyed. -/
theorem removeFrame (h : s.Intact) (hnone : s.pending = none)
    (hspared : ∀ r ∈ s.sched.waiting, r.task ≠ t) : (s.removeFrame t).Intact where
  fresh t' ht' := by
    rw [point_removeFrame, h.fresh t' ht']
    exact ite_self none
  once := h.once
  queued r hr := by
    obtain ⟨next, hnext⟩ := h.queued r hr
    exact ⟨next, by rw [point_removeFrame, if_neg (hspared r hr), hnext]⟩
  popped t' r hpending := by cases hnone.symm.trans hpending

end Intact

/-- The cases of a step of the program with frames that may be gone. -/
theorem proceed_cases (h : s.proceed code a = some s') :
    (∃ events, s.step code a = some (s', events)) ∨
      a = .resume ∧ ∃ t resumer, s.pending = some (t, resumer) ∧ s.point t = none ∧
        s' = { s with pending := none, undefined := true } := by
  have hmap : ∀ a, (s.step code a).map Prod.fst = some s' →
      ∃ events, s.step code a = some (s', events) := by
    intro a hstep
    obtain ⟨⟨base, events⟩, hevents, rfl⟩ := Option.map_eq_some_iff.mp hstep
    exact ⟨events, hevents⟩
  cases a with
  | resume =>
    simp only [proceed] at h
    split at h
    · next t resumer hpending =>
      split at h
      · next hgone =>
        cases h
        have hpoint : s.point t = none := by
          by_contra hne
          rw [hasFrame_iff.mpr hne] at hgone
          cases hgone.2
        exact Or.inr ⟨rfl, t, resumer, hpending, hpoint, rfl⟩
      · exact Or.inl (hmap _ h)
    · cases h
  | create body => exact Or.inl (hmap _ h)
  | start t => exact Or.inl (hmap _ h)
  | set memory => exact Or.inl (hmap _ h)
  | run => exact Or.inl (hmap _ h)
  | exec now now' => exact Or.inl (hmap _ h)
  | loop now => exact Or.inl (hmap _ h)

end State

namespace TaskState

variable {code : κ → Instr κ ρ μ} {s s' : TaskState κ ρ μ} {a : TaskAction κ μ}

/-- The cases of a step. -/
inductive StepCase (code : κ → Instr κ ρ μ) (s : TaskState κ ρ μ) :
    TaskAction κ μ → TaskState κ ρ μ → Prop
  | program {a : Action κ μ} {base : State κ ρ μ} {holder : ℕ → Option ℕ} (hdying : s.dying = [])
      (hproceed : s.base.proceed code a = some base) :
      StepCase code s (.program a) { s with base := base, holder := holder }
  | move {t : ℕ} {p : Option ℕ} {holder : ℕ → Option ℕ} :
      StepCase code s (.move t p) { s with holder := holder }
  | destroy {t : ℕ} (huser : s.base.inUserCode = true) :
      StepCase code s (.destroy t) { s with dying := [t] }
  | tearDown {t : ℕ} {rest dying : List ℕ} (hdying : s.dying = t :: rest) :
      StepCase code s .tearDown { s with base := s.base.removeFrame t, dying := dying }

theorem step_cases (h : s.step code a = some s') : StepCase code s a s' := by
  cases a with
  | program a =>
    obtain ⟨hdying, hmap⟩ := Option.ite_none_right_eq_some.mp h
    obtain ⟨base, hproceed, rfl⟩ := Option.map_eq_some_iff.mp hmap
    exact .program hdying hproceed
  | move t holder =>
    obtain ⟨-, heq⟩ := Option.ite_none_right_eq_some.mp h
    cases heq
    exact .move
  | destroy t =>
    obtain ⟨⟨-, huser, -⟩, heq⟩ := Option.ite_none_right_eq_some.mp h
    cases heq
    exact .destroy huser
  | tearDown =>
    simp only [step] at h
    split at h
    · cases h
    · next t rest hdying =>
      cases h
      exact .tearDown hdying

/-- The invariant; destruction begins in code that is running. -/
structure Intact (s : TaskState κ ρ μ) : Prop where
  base : s.base.Intact
  idle : s.dying ≠ [] → s.base.pending = none
  resumed : s.base.mode ≠ .plain → ∀ t resumer, s.base.pending = some (t, resumer) →
    s.base.hasFrame t = true

theorem Intact.handlesAlive (h : s.Intact) : s.HandlesAlive where
  queued r hr := Or.inr (Or.inl (h.base.queued r hr))
  popped t r hpending := Or.inr (Or.inl (h.base.popped t r hpending).2.1)
  resumed := h.resumed

/-- A step of the program that spares the handles pends one of a coroutine that
exists. -/
theorem Intact.resumed_of_step {a : Action κ μ} {base : State κ ρ μ} {events : List Event}
    (hbase : s.base.step code a = some (base, events)) (hafter : base.Intact)
    (hspares : s.SparesHandles code (.program a)) (hmode : base.mode ≠ .plain) {t : ℕ}
    {resumer : Resumer} (hpending : base.pending = some (t, resumer)) :
    base.hasFrame t = true := by
  rcases State.pending_of_step hbase hpending with ⟨r, rfl⟩ | hframe | ⟨now, now', rfl, hreturns⟩
  · obtain ⟨next, hnext⟩ := (hafter.popped t r hpending).2.1
    exact State.hasFrame_iff.mpr (by simp [hnext])
  · exact hframe
  · obtain ⟨-, hsame, hframe⟩ := State.return_of_exec hbase hreturns
    rw [hframe]
    exact hspares (hsame ▸ hmode) t hreturns

/-- A step that spares the handles. -/
theorem Intact.step (h : s.Intact) (hstep : s.step code a = some s')
    (hspares : s.SparesHandles code a) : s'.Intact := by
  cases step_cases hstep with
  | @program a base _ hdying hproceed =>
    rcases State.proceed_cases hproceed with
      ⟨events, hbase⟩ | ⟨rfl, t, resumer, hpending, hpoint, rfl⟩
    · have hafter : base.Intact := by
        cases hpending : s.base.pending with
        | none => exact h.base.step_running hbase hpending
        | some pending =>
          obtain ⟨t, resumer⟩ := pending
          obtain ⟨rfl, -⟩ := State.step_of_pending hpending hbase
          refine h.base.step_resume hbase hpending ?_
          cases resumer with
          | loop r => exact (h.base.popped t r hpending).2.2
          | start => exact hspares t _ hpending (by simp)
          | awaiter parent => exact hspares t _ hpending (by simp)
          | finalAwaiter child => exact hspares t _ hpending (by simp)
      exact ⟨hafter, fun hne => absurd hdying hne, fun hmode _ _ hpending =>
        Intact.resumed_of_step hbase hafter hspares hmode hpending⟩
    · exact ⟨⟨h.base.fresh, h.base.once, h.base.queued, nofun⟩, fun hne => absurd hdying hne,
        fun _ _ _ hpending => nomatch hpending⟩
  | move => exact ⟨h.base, h.idle, h.resumed⟩
  | destroy huser =>
    refine ⟨h.base, fun _ => ?_, h.resumed⟩
    simp only [State.inUserCode, Bool.and_eq_true, Option.isNone_iff_eq_none] at huser
    exact huser.1.2
  | @tearDown t rest dying hdying =>
    have hnone := h.idle (by simp [hdying])
    exact ⟨h.base.removeFrame hnone (hspares t (by simp [hdying])), fun _ => hnone,
      fun _ _ _ hpending => by cases hnone.symm.trans hpending⟩

/-- A step that does not spare them leaves a handle without its coroutine. -/
theorem HandlesAlive.spares (h : s.HandlesAlive) (hstep : s.step code a = some s')
    (h' : s'.HandlesAlive) : s.SparesHandles code a := by
  cases step_cases hstep with
  | @program a base _ hdying hproceed =>
    cases a with
    | resume =>
      intro t resumer hpending hloop r hr heq
      have hsuspended := h.queued r hr
      rw [heq] at hsuspended
      rcases State.proceed_cases hproceed with ⟨events, hbase⟩ | ⟨-, t', resumer', hpend, hpoint, -⟩
      · have hresume := (State.step_of_pending hpending hbase).2
        have hrunning := (State.resumePending_point hresume).2.2.2.2 hsuspended
        rw [← (State.resumePending_rest hresume).1] at hr
        have hafter := h'.queued r hr
        rw [heq] at hafter
        exact hafter.not_running hrunning
      · cases hpending.symm.trans hpend
        exact hsuspended.point_ne_none hpoint
    | exec now now' =>
      intro hmode p hp
      rcases State.proceed_cases hproceed with ⟨events, hbase⟩ | ⟨hresume, -⟩
      · obtain ⟨⟨c, hpending⟩, hsame, hframe⟩ := State.return_of_exec hbase hp
        rw [← hframe]
        exact h'.resumed (by rw [hsame]; exact hmode) p _ hpending
      · cases hresume
    | create body | start t | set memory | run | loop now => trivial
  | move => trivial
  | destroy _ => trivial
  | @tearDown t rest dying hdying =>
    intro t' ht' r hr heq
    obtain rfl : t' = t := by simpa [hdying, eq_comm] using ht'
    refine (h'.queued r hr).point_ne_none ?_
    rw [heq]
    exact (State.point_removeFrame _ _ _).trans (if_pos rfl)

theorem Intact.init (memory : μ) : (TaskState.init memory : TaskState κ ρ μ).Intact :=
  ⟨State.Intact.init memory, fun hne => absurd rfl hne, fun _ _ _ hpending => nomatch hpending⟩

end TaskState

/-- In a run every handle in `ready_` and `timers_`, and every one that `run()` has
taken out, belongs to a suspended coroutine, and whatever is resumed inside `run()` has
a frame, exactly if no step of the run destroys a frame whose handle is in `ready_` or
`timers_`, with its task or with the frame that holds the task, none but `run()`
resumes such a coroutine, and no coroutine ends inside `run()` after the frame of the
one that awaited it is gone. -/
theorem handles_alive_iff (code : κ → Instr κ ρ μ) (memory : μ) (labels : List (TaskAction κ μ))
    (s : TaskState κ ρ μ) :
    (∀ before after m, labels = before ++ after → (taskSystem code).Run (.init memory) before m →
        (taskSystem code).Run m after s → m.HandlesAlive) ↔
      ∀ before a after m m', labels = before ++ a :: after →
        (taskSystem code).Run (.init memory) before m → (taskSystem code).step m a m' →
        (taskSystem code).Run m' after s → m.SparesHandles code a := by
  constructor
  · intro halive before a after m m' hlabels hbefore hstep hafter
    have hm := halive before (a :: after) m hlabels hbefore (hafter.cons a hstep)
    have hm' := halive (before ++ [a]) after m' (by simp [hlabels]) (hbefore.snoc a hstep) hafter
    exact hm.spares hstep hm'
  · intro hspares before after m hlabels hbefore hafter
    suffices hintact : m.Intact from hintact.handlesAlive
    induction hbefore generalizing after with
    | nil => exact .init memory
    | @snoc before m m' a hbefore hstep ih =>
      have hlabels' : labels = before ++ a :: after := by simp [hlabels]
      have hm := ih (a :: after) hlabels' (hafter.cons a hstep)
      exact hm.step hstep (hspares before a after m m' hlabels' hbefore hstep hafter)

/-- Frames of a task that awaits one of its own, which yields. -/
inductive Nested where
  | outer
  | made (child : ℕ)
  | inner
  | over

def nested : Nested → Instr Nested Unit Unit
  | .outer => .create .inner .made
  | .made child => .await child fun _ => .over
  | .inner => .yield .over
  | .over => .ret ()

/-- The outer task awaits the inner one, which yields, and is destroyed; then
`run()` takes the next handle. -/
def nestedActions : List (TaskAction Nested Unit) :=
  [.program (.create .outer), .program (.start 0), .program .resume, .program (.exec 0 0),
    .program (.exec 0 0), .program .resume, .program (.exec 0 0), .destroy 0, .tearDown, .tearDown,
    .program .run, .program (.loop 0), .program (.loop 0), .program (.loop 0)]

/-- The outer task is destroyed while the inner one is in `ready_`; `run()` takes
out the handle of a frame that is gone. -/
theorem destroyed_outer_task_dangles : ∃ labels s,
    (taskSystem nested).Run (.init ()) labels s ∧
      s.base.pending = some (1, .loop (.yielded 1)) ∧ s.base.hasFrame 1 = false ∧
      ¬ s.HandlesAlive := by
  have hend : (nestedActions.foldlM (TaskState.step nested) (.init ())).map
      (fun s => (s.base.pending, s.base.hasFrame 1)) =
      some (some (1, .loop (.yielded 1)), false) := by decide
  obtain ⟨s, hexec, heq⟩ := Option.map_eq_some_iff.mp hend
  obtain ⟨hpending, hgone⟩ := Prod.mk.inj heq
  refine ⟨nestedActions, s, Run.of_foldlM (fun _ _ _ h => h) hexec, hpending, hgone, ?_⟩
  intro halive
  have hframe := State.hasFrame_iff.mpr (halive.popped 1 _ hpending).point_ne_none
  rw [hgone] at hframe
  cases hframe

end CppWorkspace.Coro
