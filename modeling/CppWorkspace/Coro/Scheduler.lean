import CppWorkspace.Lib.Transition

/-!
The two queues of `coro::scheduler`: coroutines that are ready, first in first
out, and timers by the time they are due, then in the order they were
registered.
-/

namespace CppWorkspace.Coro

/-- `timer_entry`. A task stands for the handle of its coroutine. -/
structure TimerEntry where
  due : ℤ
  seq : ℕ
  task : ℕ
deriving Repr, DecidableEq

/-- `std::tie(due, seq)`, ordered lexicographically. -/
def TimerEntry.key (e : TimerEntry) : ℤ ×ₗ ℕ := toLex (e.due, e.seq)

/-- One `add_timer` or one `yield`. The code keeps only the handle once it is
in `ready_`; the rest says which registration put it there. -/
inductive Registration where
  | timer (e : TimerEntry)
  | yielded (task : ℕ)
deriving Repr, DecidableEq

namespace Registration

def task : Registration → ℕ
  | timer e => e.task
  | yielded t => t

def timer? : Registration → Option TimerEntry
  | timer e => some e
  | yielded _ => none

def yielded? : Registration → Option ℕ
  | timer _ => none
  | yielded t => some t

@[simp] theorem timer?_timer (e : TimerEntry) : (timer e).timer? = some e := rfl

@[simp] theorem timer?_yielded (t : ℕ) : (yielded t).timer? = none := rfl

@[simp] theorem yielded?_timer (e : TimerEntry) : (timer e).yielded? = none := rfl

@[simp] theorem yielded?_yielded (t : ℕ) : (yielded t).yielded? = some t := rfl

end Registration

instance : Std.Total fun a b : TimerEntry => a.key ≤ b.key := ⟨fun a b => le_total a.key b.key⟩

instance : IsTrans TimerEntry fun a b => a.key ≤ b.key := ⟨fun _ _ _ => le_trans⟩

/-- The members of `scheduler`; the top of the priority queue `timers_` is the
head of the list. -/
structure Scheduler where
  ready : List Registration
  timers : List TimerEntry
  nextSeq : ℕ
  sorted : timers.Pairwise (·.key < ·.key)
  fresh : ∀ e ∈ timers, e.seq < nextSeq

namespace Scheduler

def empty : Scheduler := ⟨[], [], 0, .nil, by simp⟩

/-- The timer entry that `add_timer` makes. -/
def newTimer (s : Scheduler) (due : ℤ) (task : ℕ) : TimerEntry := ⟨due, s.nextSeq, task⟩

theorem newTimer_key_ne (s : Scheduler) (due : ℤ) (task : ℕ) {e : TimerEntry}
    (he : e ∈ s.timers) : (s.newTimer due task).key ≠ e.key := by
  intro heq
  have hseq : s.nextSeq = e.seq := (Prod.mk.inj (toLex_inj.mp heq)).2
  have := s.fresh e he
  omega

theorem pairwise_orderedInsert (s : Scheduler) (due : ℤ) (task : ℕ) :
    (s.timers.orderedInsert (·.key ≤ ·.key) (s.newTimer due task)).Pairwise (·.key < ·.key) := by
  have hle : (s.timers.orderedInsert (·.key ≤ ·.key) (s.newTimer due task)).Pairwise
      (·.key ≤ ·.key) := (s.sorted.imp le_of_lt).orderedInsert _ _
  have hne : (s.timers.orderedInsert (·.key ≤ ·.key) (s.newTimer due task)).Pairwise
      (·.key ≠ ·.key) := by
    refine (List.Perm.pairwise_iff (fun h => h.symm) (List.perm_orderedInsert _ _ _)).mpr ?_
    exact List.pairwise_cons.mpr
      ⟨fun e he => s.newTimer_key_ne due task he, s.sorted.imp ne_of_lt⟩
  exact (hle.and hne).imp fun h => lt_of_le_of_ne h.1 h.2

/-- `add_timer`. -/
def addTimer (s : Scheduler) (due : ℤ) (task : ℕ) : Scheduler where
  ready := s.ready
  timers := s.timers.orderedInsert (·.key ≤ ·.key) (s.newTimer due task)
  nextSeq := s.nextSeq + 1
  sorted := s.pairwise_orderedInsert due task
  fresh e he := by
    rcases (List.mem_orderedInsert _).mp he with rfl | hold
    · exact Nat.lt_succ_self _
    · exact Nat.lt_succ_of_lt (s.fresh e hold)

/-- `yield_awaiter::await_suspend`. -/
def pushReady (s : Scheduler) (task : ℕ) : Scheduler :=
  { s with ready := s.ready ++ [.yielded task] }

/-- Move the top of `timers_` to the end of `ready_`. -/
def moveTop (s : Scheduler) : Scheduler where
  ready := s.ready ++ (s.timers.head?.map .timer).toList
  timers := s.timers.tail
  nextSeq := s.nextSeq
  sorted := s.sorted.sublist (List.tail_sublist _)
  fresh e he := s.fresh e (List.mem_of_mem_tail he)

/-- `ready_.pop_front()`. -/
def popReady (s : Scheduler) : Scheduler := { s with ready := s.ready.tail }

/-- The registrations whose coroutine has not been taken out of the queues. -/
def waiting (s : Scheduler) : List Registration := s.ready ++ s.timers.map .timer

theorem waiting_addTimer (s : Scheduler) (due : ℤ) (task : ℕ) :
    (s.addTimer due task).waiting.Perm (.timer (s.newTimer due task) :: s.waiting) := by
  have hperm := (List.perm_orderedInsert (·.key ≤ ·.key) (s.newTimer due task) s.timers).map
    Registration.timer
  exact (hperm.append_left s.ready).trans List.perm_middle

theorem waiting_pushReady (s : Scheduler) (task : ℕ) :
    (s.pushReady task).waiting.Perm (.yielded task :: s.waiting) := by
  simp only [waiting, pushReady, List.append_assoc]
  exact List.perm_middle

theorem waiting_moveTop (s : Scheduler) : s.moveTop.waiting = s.waiting := by
  cases htimers : s.timers with
  | nil => simp [waiting, moveTop, htimers]
  | cons e rest => simp [waiting, moveTop, htimers]

theorem waiting_popReady {s : Scheduler} {r : Registration} {rest : List Registration}
    (h : s.ready = r :: rest) : s.waiting = r :: s.popReady.waiting := by
  simp [waiting, popReady, h]

end Scheduler

end CppWorkspace.Coro
