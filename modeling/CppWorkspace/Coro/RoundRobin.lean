import CppWorkspace.Coro.DirectStyle
import CppWorkspace.Lib.SignedInt
import CppWorkspace.Lib.TextStream

/-!
`polite_worker` and `round_robin` of `examples.cpp`, for any workers. No worker
sleeps, so that the clock is never read.
-/

namespace CppWorkspace.Coro

open Lib System

abbrev Log := List (List Char)

/-- The parameters of `polite_worker`. -/
structure Worker where
  name : List Char
  rounds : ℤ
deriving DecidableEq, Repr

/-- `"{}:{}"`. -/
def Worker.entry (w : Worker) (i : ℤ) : List Char := w.name ++ [':'] ++ TextStream.showInt i

inductive PoliteLocals where
  /-- At the head of the loop. -/
  | loop (w : Worker) (i : ℤ)
  /-- At `log.push_back`, with the log as it is. -/
  | pushing (w : Worker) (i : ℤ) (log : Log)
  /-- At `co_await sched.yield()`. -/
  | yielding (w : Worker) (i : ℤ)
  /-- `++i` has overflowed; such a worker is taken to do nothing more. -/
  | overflow
deriving DecidableEq, Repr

/-- `++i`, with which the worker goes on when it is resumed. -/
def PoliteLocals.increment (w : Worker) (i : ℤ) : PoliteLocals :=
  match int (i + 1) with
  | some next => .loop w next
  | none => .overflow

def politeWorker : PoliteLocals → Instr PoliteLocals Unit Log
  | .loop w i => if i ≤ w.rounds then .get (.pushing w i) else .ret ()
  | .pushing w i log => .set (log ++ [w.entry i]) (.yielding w i)
  | .yielding w i => .yield (.increment w i)
  | .overflow => .get fun _ => .overflow

/-- `round_robin` while it runs: the machine, and what its code has still to do. -/
structure RoundRobin where
  machine : State PoliteLocals Unit Log
  plan : List (Action PoliteLocals Log)

/-- The coroutines that were entered go on until they are suspended, then `run()` goes
on, then the code of `round_robin`. -/
def RoundRobin.next (p : RoundRobin) : Option RoundRobin :=
  if p.machine.idle then
    match p.machine.mode, p.plan with
    | .plain, [] => none
    | .plain, act :: plan => (p.machine.step politeWorker act).map fun r => ⟨r.1, plan⟩
    | _, plan => (p.machine.step politeWorker (.loop p.machine.now)).map fun r => ⟨r.1, plan⟩
  else (p.machine.advance politeWorker).map fun r => ⟨r.1, p.plan⟩

/-- The workers are made, then started in order, and then `run()` is called. -/
def roundRobin (workers : List Worker) : RoundRobin where
  machine := .init []
  plan := workers.map (fun w => .create (.loop w 1)) ++
    (List.range workers.length).map .start ++ [.run]

def roundRobinSystem (workers : List Worker) : System RoundRobin Unit where
  init p := p = roundRobin workers
  step p _ p' := p.next = some p'

/-- The log of one round. -/
def roundLog (workers : List Worker) (k : ℤ) : Log :=
  (workers.filter fun w => k ≤ w.rounds).map (·.entry k)

/-- The logs of the first rounds, one after another. -/
def roundsLog (workers : List Worker) (n : ℕ) : Log :=
  (List.range' 1 n).flatMap fun k : ℕ => roundLog workers k

/-! The machine, as far as these programs use it. -/

structure View where
  points : ℕ → Option (Point PoliteLocals Unit)
  created : ℕ
  ready : List ℕ
  log : Log
  mode : Mode
  stack : List ℕ
  pending : Option (ℕ × Resumer)

/-- The machine shows this view; no task waits for another, and there is no timer. -/
structure Shows (m : State PoliteLocals Unit Log) (v : View) : Prop where
  points : m.point = v.points
  created : m.nextFrame = v.created
  ready : m.sched.ready = v.ready.map .yielded
  timers : m.sched.timers = []
  log : m.memory = v.log
  mode : m.mode = v.mode
  stack : m.stack = v.stack
  pending : m.pending = v.pending
  defined : m.undefined = false
  continuation : ∀ t, m.continuation t = none

namespace View

/-- A coroutine is at this point. -/
def goTo (v : View) (t : ℕ) (p : Point PoliteLocals Unit) : View :=
  { v with points := Function.update v.points t (some p) }

/-- The steps of coroutines and of `run()`. -/
inductive Leads : View → View → Prop
  | enter {v : View} {t : ℕ} {resumer : Resumer} {locals : PoliteLocals}
      (hpending : v.pending = some (t, resumer))
      (hpoint : v.points t = some (.initial locals) ∨ v.points t = some (.scheduled locals)) :
      Leads v { v.goTo t (.running locals) with pending := none, stack := t :: v.stack }
  | looks {v : View} {t : ℕ} {rest : List ℕ} {w : Worker} {i : ℤ} (hpending : v.pending = none)
      (hstack : v.stack = t :: rest) (hpoint : v.points t = some (.running (.loop w i)))
      (hle : i ≤ w.rounds) : Leads v (v.goTo t (.running (.pushing w i v.log)))
  | pushes {v : View} {t : ℕ} {rest : List ℕ} {w : Worker} {i : ℤ} {log : Log}
      (hpending : v.pending = none) (hstack : v.stack = t :: rest)
      (hpoint : v.points t = some (.running (.pushing w i log))) :
      Leads v { v.goTo t (.running (.yielding w i)) with log := log ++ [w.entry i] }
  | yields {v : View} {t : ℕ} {rest : List ℕ} {w : Worker} {i : ℤ} (hpending : v.pending = none)
      (hstack : v.stack = t :: rest) (hpoint : v.points t = some (.running (.yielding w i)))
      (hfits : FitsInt (i + 1)) :
      Leads v { v.goTo t (.scheduled (.loop w (i + 1))) with
        stack := rest, ready := v.ready ++ [t] }
  | returns {v : View} {t : ℕ} {rest : List ℕ} {w : Worker} {i : ℤ} (hpending : v.pending = none)
      (hstack : v.stack = t :: rest) (hpoint : v.points t = some (.running (.loop w i)))
      (hlt : w.rounds < i) : Leads v { v.goTo t (.finished ()) with stack := rest }
  | tests {v : View} {t : ℕ} {rest : List ℕ} (hpending : v.pending = none) (hstack : v.stack = [])
      (hmode : v.mode = .test) (hready : v.ready = t :: rest) : Leads v { v with mode := .moving }
  | ends {v : View} (hpending : v.pending = none) (hstack : v.stack = []) (hmode : v.mode = .test)
      (hready : v.ready = []) : Leads v { v with mode := .plain }
  | moves {v : View} (hpending : v.pending = none) (hstack : v.stack = [])
      (hmode : v.mode = .moving) : Leads v { v with mode := .popping }
  | pops {v : View} {t : ℕ} {rest : List ℕ} (hpending : v.pending = none) (hstack : v.stack = [])
      (hmode : v.mode = .popping) (hready : v.ready = t :: rest) :
      Leads v { v with
        ready := rest, pending := some (t, .loop (.yielded t)), mode := .resuming }
  | comesBack {v : View} (hpending : v.pending = none) (hstack : v.stack = [])
      (hmode : v.mode = .resuming) : Leads v { v with mode := .test }

end View

section Refinement

variable {m : State PoliteLocals Unit Log} {v v' : View} {plan : List (Action PoliteLocals Log)}

theorem Shows.point_setPoint (h : Shows m v) {t : ℕ} (hpoint : v.points t ≠ none)
    (p : Point PoliteLocals Unit) : (m.setPoint t p).point = (v.goTo t p).points := by
  funext t'
  rw [State.point_setPoint]
  by_cases heq : t' = t
  · rw [if_pos heq, heq]
    obtain ⟨q, hq⟩ := Option.ne_none_iff_exists'.mp hpoint
    rw [h.points, hq]
    exact (Function.update_self t (some p) v.points).symm
  · rw [if_neg heq, h.points]
    exact (Function.update_of_ne heq (some p) v.points).symm

theorem Shows.goTo (h : Shows m v) {t : ℕ} (hpoint : v.points t ≠ none)
    (p : Point PoliteLocals Unit) : Shows (m.setPoint t p) (v.goTo t p) where
  points := h.point_setPoint hpoint p
  created := h.created
  ready := h.ready
  timers := h.timers
  log := h.log
  mode := h.mode
  stack := h.stack
  pending := h.pending
  defined := h.defined
  continuation t' := by
    rw [State.continuation_setPoint]
    exact h.continuation t'

theorem Shows.not_idle (h : Shows m v) (hbusy : v.pending ≠ none ∨ v.stack ≠ []) :
    m.idle = false := by
  rw [State.idle, h.pending, h.stack]
  rcases hbusy with hpending | hstack
  · obtain ⟨call, hcall⟩ := Option.ne_none_iff_exists'.mp hpending
    rw [hcall]
    rfl
  · cases hv : v.stack with
    | nil => exact absurd hv hstack
    | cons t rest => exact Bool.and_false _

theorem Shows.idle (h : Shows m v) (hpending : v.pending = none) (hstack : v.stack = []) :
    m.idle = true := by
  rw [State.idle, h.pending, h.stack, hpending, hstack]
  rfl

/-- The coroutine on top of the stack executes its next instruction. -/
theorem Shows.exec (h : Shows m v) {t : ℕ} {rest : List ℕ} {locals : PoliteLocals}
    (hpending : v.pending = none) (hstack : v.stack = t :: rest)
    (hpoint : v.points t = some (.running locals)) :
    RoundRobin.next ⟨m, plan⟩ =
      (m.execute t rest m.now m.now (politeWorker locals)).map fun r => ⟨r.1, plan⟩ := by
  have hbusy := h.not_idle (Or.inr (by rw [hstack]; exact List.cons_ne_nil _ _))
  have hpoint' : m.point t = some (.running locals) := by rw [h.points, hpoint]
  rw [RoundRobin.next, if_neg (by rw [hbusy]; exact Bool.false_ne_true)]
  simp only [State.advance, h.pending, hpending, State.step, h.defined, h.stack, hstack, hpoint',
    Bool.false_eq_true, if_false]

/-- `run()` takes its next step. -/
theorem Shows.loop (h : Shows m v) (hpending : v.pending = none) (hstack : v.stack = [])
    (hmode : v.mode ≠ .plain) :
    RoundRobin.next ⟨m, plan⟩ = (m.loopStep m.now).map fun r => ⟨r.1, plan⟩ := by
  have hidle := h.idle hpending hstack
  have hmode' : m.mode ≠ .plain := by rwa [h.mode]
  rw [RoundRobin.next, if_pos hidle]
  split
  · next heq _ => exact absurd heq hmode'
  · next heq _ => exact absurd heq hmode'
  · simp only [State.step, h.pending, hpending, h.stack, hstack, h.defined, Bool.false_eq_true,
      if_false]

/-- Every step of the view is a step of the machine. -/
theorem Shows.leads (plan : List (Action PoliteLocals Log)) (h : Shows m v)
    (hleads : View.Leads v v') :
    ∃ m', RoundRobin.next ⟨m, plan⟩ = some ⟨m', plan⟩ ∧ Shows m' v' := by
  cases hleads with
  | @enter t resumer locals hpending hpoint =>
      have hbusy := h.not_idle (Or.inl (by rw [hpending]; exact Option.some_ne_none _))
      have hpoint' : m.point t = some (.initial locals) ∨ m.point t = some (.scheduled locals) := by
        rwa [h.points]
      have hsome : v.points t ≠ none := by
        rcases hpoint with hpoint | hpoint <;> rw [hpoint] <;> exact Option.some_ne_none _
      refine ⟨{ m.setPoint t (.running locals) with pending := none, stack := t :: m.stack },
        ?_, ?_⟩
      · rw [RoundRobin.next, if_neg (by rw [hbusy]; exact Bool.false_ne_true)]
        rcases hpoint' with hpoint' | hpoint' <;>
          simp only [State.advance, h.pending, hpending, State.step, h.defined, Bool.false_eq_true,
            if_false, State.resumePending, hpoint', Option.map_some]
      · exact { h.goTo hsome (.running locals) with
          pending := rfl, stack := congrArg (t :: ·) h.stack }
  | @looks t rest w i hpending hstack hpoint hle =>
      have hsome : v.points t ≠ none := by rw [hpoint]; exact Option.some_ne_none _
      refine ⟨m.setPoint t (.running (.pushing w i m.memory)), ?_, ?_⟩
      · rw [h.exec hpending hstack hpoint, politeWorker, if_pos hle]
        rfl
      · rw [h.log]
        exact h.goTo hsome (.running (.pushing w i v.log))
  | @pushes t rest w i log hpending hstack hpoint =>
      have hsome : v.points t ≠ none := by rw [hpoint]; exact Option.some_ne_none _
      refine ⟨{ m.setPoint t (.running (.yielding w i)) with memory := log ++ [w.entry i] },
        ?_, ?_⟩
      · rw [h.exec hpending hstack hpoint]
        rfl
      · exact { h.goTo hsome (.running (.yielding w i)) with log := rfl }
  | @yields t rest w i hpending hstack hpoint hfits =>
      have hsome : v.points t ≠ none := by rw [hpoint]; exact Option.some_ne_none _
      refine ⟨{ m.setPoint t (.scheduled (.loop w (i + 1))) with
        stack := rest, sched := m.sched.pushReady t }, ?_, ?_⟩
      · rw [h.exec hpending hstack hpoint, politeWorker, PoliteLocals.increment, int_of_fits hfits]
        rfl
      · have hready : m.sched.ready ++ [.yielded t] = (v.ready ++ [t]).map .yielded := by
          rw [List.map_append, h.ready]
          rfl
        exact { h.goTo hsome (.scheduled (.loop w (i + 1))) with stack := rfl, ready := hready }
  | @returns t rest w i hpending hstack hpoint hlt =>
      have hsome : v.points t ≠ none := by rw [hpoint]; exact Option.some_ne_none _
      refine ⟨{ m.setPoint t (.finished ()) with stack := rest, pending := none }, ?_, ?_⟩
      · rw [h.exec hpending hstack hpoint, politeWorker, if_neg (not_le.mpr hlt)]
        simp only [State.execute, h.continuation t, Option.map_none, Option.map_some]
      · exact { h.goTo hsome (.finished ()) with stack := rfl, pending := hpending.symm }
  | @tests t rest hpending hstack hmode hready =>
      have hready' : m.sched.ready = .yielded t :: rest.map .yielded := by rw [h.ready, hready]; rfl
      refine ⟨{ m with mode := .moving }, ?_, ?_⟩
      · rw [h.loop hpending hstack (by rw [hmode]; simp)]
        simp only [State.loopStep, h.mode, hmode, hready', Option.map_some]
      · exact { h with mode := rfl }
  | ends hpending hstack hmode hready =>
      have hready' : m.sched.ready = [] := by rw [h.ready, hready]; rfl
      refine ⟨{ m with mode := .plain }, ?_, ?_⟩
      · rw [h.loop hpending hstack (by rw [hmode]; simp)]
        simp only [State.loopStep, h.mode, hmode, hready', h.timers, Option.map_some]
      · exact { h with mode := rfl }
  | moves hpending hstack hmode =>
      refine ⟨{ m with mode := .popping }, ?_, ?_⟩
      · rw [h.loop hpending hstack (by rw [hmode]; simp)]
        simp only [State.loopStep, h.mode, hmode, h.timers, Option.map_some]
      · exact { h with mode := rfl }
  | @pops t rest hpending hstack hmode hready =>
      have hready' : m.sched.ready = .yielded t :: rest.map .yielded := by rw [h.ready, hready]; rfl
      refine ⟨{ m with
        sched := m.sched.popReady, pending := some (t, .loop (.yielded t)), mode := .resuming },
        ?_, ?_⟩
      · rw [h.loop hpending hstack (by rw [hmode]; simp)]
        simp only [State.loopStep, h.mode, hmode, hready', Option.map_some]
        rfl
      · have hrest : m.sched.popReady.ready = rest.map .yielded := by
          rw [Scheduler.popReady, hready']
          rfl
        exact { h with ready := hrest, pending := rfl, mode := rfl }
  | comesBack hpending hstack hmode =>
      refine ⟨{ m with mode := .test }, ?_, ?_⟩
      · rw [h.loop hpending hstack (by rw [hmode]; simp)]
        simp only [State.loopStep, h.mode, hmode, Option.map_some]
      · exact { h with mode := rfl }

end Refinement

end CppWorkspace.Coro
