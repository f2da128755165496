import CppWorkspace.Coro.QueueOrder

/-!
Which handles point at which coroutines. When `start()` and `co_await` are only
used on tasks that have not been started or have finished, a coroutine
suspended in the scheduler has exactly one registration and no other resumer,
and one that awaits a task is resumed by that task.
-/

namespace CppWorkspace.Coro

open Lib System

variable {κ ρ μ : Type}

namespace State

def Running (s : State κ ρ μ) (t : ℕ) : Prop := ∃ locals, s.point t = some (.running locals)

def Unstarted (s : State κ ρ μ) (t : ℕ) : Prop := ∃ body, s.point t = some (.initial body)

/-- Suspended in `sleep_for` or `yield`. -/
def Scheduled (s : State κ ρ μ) (t : ℕ) : Prop := ∃ next, s.point t = some (.scheduled next)

def Awaits (s : State κ ρ μ) (t c : ℕ) : Prop := ∃ next, s.point t = some (.awaiting c next)

def Finished (s : State κ ρ μ) (t : ℕ) : Prop := ∃ result, s.point t = some (.finished result)

/-- Suspended anywhere but at its end, so that `resume()` is allowed. -/
def Suspended (s : State κ ρ μ) (t : ℕ) : Prop :=
  s.Unstarted t ∨ s.Scheduled t ∨ ∃ c, s.Awaits t c

/-- The coroutines that are in the queues or about to be resumed from them. -/
def queuedTasks (s : State κ ρ μ) : List ℕ :=
  (s.inFlight ++ s.sched.waiting).map Registration.task

/-- The task that a pending resume finds. -/
def Expects (s : State κ ρ μ) (t : ℕ) : Resumer → Prop
  | .start | .awaiter _ => s.Unstarted t
  | .finalAwaiter c => s.Awaits t c ∧ s.Finished c
  | .loop r => r.task = t

end State

/-- `start()` and `co_await` are used on a task that has not been started or
has finished. -/
def StartsOnce (s : State κ ρ μ) (events : List Event) : Prop :=
  ∀ t, (.startCall t ∈ events ∨ ∃ parent, .awaitCall parent t ∈ events) →
    s.Unstarted t ∨ s.Finished t

theorem StartsOnce.start {s : State κ ρ μ} {t : ℕ} (h : s.Unstarted t) :
    StartsOnce s [.startCall t] := by
  intro t' ht'
  obtain rfl : t' = t := by simpa using ht'
  exact Or.inl h

def oneStartSystem (code : κ → Instr κ ρ μ) : System (State κ ρ μ) (List Event) :=
  (coroSystem code).restrict StartsOnce

/-- Every handle in the program refers to the coroutine it should. -/
structure Linked (s : State κ ρ μ) : Prop where
  defined : s.undefined = false
  fresh : ∀ t, s.nextFrame ≤ t → s.point t = none
  nodup : s.stack.Nodup
  running : ∀ t, t ∈ s.stack ↔ s.Running t
  once : s.queuedTasks.Nodup
  queued : ∀ t, t ∈ s.queuedTasks ↔ s.Scheduled t
  pending : ∀ t resumer, s.pending = some (t, resumer) → s.Expects t resumer
  waiter : ∀ c p, s.continuation c = some p → s.Finished c ∨ s.Awaits p c
  unstarted : ∀ c p, s.Unstarted c → s.continuation c = some p →
    s.pending = some (c, .awaiter p)

/-- The coroutine `t`, which was running, is now at the point `p`. -/
structure Moves (s s' : State κ ρ μ) (t : ℕ) (p : Point κ ρ) : Prop where
  running : s.Running t
  point : ∀ t', s'.point t' = if t' = t then some p else s.point t'

namespace Moves

variable {s s' : State κ ρ μ} {t : ℕ} {p : Point κ ρ}

theorem setPoint (h : s.Running t) (p : Point κ ρ) : Moves s (s.setPoint t p) t p := by
  refine ⟨h, fun t' => ?_⟩
  obtain ⟨locals, hlocals⟩ := h
  rw [State.point_setPoint, hlocals]
  rfl

/-- Coroutines that were not running have not moved. -/
theorem kept (h : Moves s s' t p) {t' : ℕ} {q : Point κ ρ} (hq : ∀ locals, q ≠ .running locals)
    (ht : s.point t' = some q) : s'.point t' = some q := by
  obtain ⟨locals, hlocals⟩ := h.running
  rw [h.point, if_neg, ht]
  rintro rfl
  exact hq locals (Option.some.inj (ht.symm.trans hlocals))

theorem unstarted (h : Moves s s' t p) {t' : ℕ} (ht : s.Unstarted t') : s'.Unstarted t' :=
  ht.imp fun _ => h.kept (by simp)

theorem scheduled (h : Moves s s' t p) {t' : ℕ} (ht : s.Scheduled t') : s'.Scheduled t' :=
  ht.imp fun _ => h.kept (by simp)

theorem awaits (h : Moves s s' t p) {t' c : ℕ} (ht : s.Awaits t' c) : s'.Awaits t' c :=
  ht.imp fun _ => h.kept (by simp)

theorem finished (h : Moves s s' t p) {t' : ℕ} (ht : s.Finished t') : s'.Finished t' :=
  ht.imp fun _ => h.kept (by simp)

theorem expects (h : Moves s s' t p) {t' : ℕ} {resumer : Resumer} (ht : s.Expects t' resumer) :
    s'.Expects t' resumer := by
  cases resumer with
  | start => exact h.unstarted ht
  | awaiter parent => exact h.unstarted ht
  | finalAwaiter child => exact ⟨h.awaits ht.1, h.finished ht.2⟩
  | loop r => exact ht

/-- A point found afterwards was there before, or is the new one. -/
theorem came (h : Moves s s' t p) {t' : ℕ} {q : Point κ ρ} (hq : s'.point t' = some q) :
    t' = t ∧ q = p ∨ t' ≠ t ∧ s.point t' = some q := by
  rw [h.point] at hq
  split at hq
  · next heq => exact Or.inl ⟨heq, (Option.some.inj hq).symm⟩
  · next hne => exact Or.inr ⟨hne, hq⟩

theorem unstarted_iff (h : Moves s s' t p) (hp : ∀ body, p ≠ .initial body) (t' : ℕ) :
    s'.Unstarted t' ↔ s.Unstarted t' := by
  refine ⟨fun ⟨body, hbody⟩ => ?_, h.unstarted⟩
  rcases h.came hbody with ⟨-, rfl⟩ | ⟨-, hbefore⟩
  · exact absurd rfl (hp body)
  · exact ⟨body, hbefore⟩

theorem scheduled_iff (h : Moves s s' t p) (hp : ∀ next, p ≠ .scheduled next) (t' : ℕ) :
    s'.Scheduled t' ↔ s.Scheduled t' := by
  refine ⟨fun ⟨next, hnext⟩ => ?_, h.scheduled⟩
  rcases h.came hnext with ⟨-, rfl⟩ | ⟨-, hbefore⟩
  · exact absurd rfl (hp next)
  · exact ⟨next, hbefore⟩

theorem point_none (h : Moves s s' t p) {t' : ℕ} (ht : s.point t' = none) :
    s'.point t' = none := by
  obtain ⟨locals, hlocals⟩ := h.running
  rw [h.point, if_neg (by rintro rfl; simp [hlocals] at ht), ht]

end Moves

namespace Linked

variable {s : State κ ρ μ}

theorem init (memory : μ) : Linked (State.init memory : State κ ρ μ) where
  defined := rfl
  fresh _ _ := rfl
  nodup := .nil
  running t := by simp [State.init, State.Running, State.point]
  once := .nil
  queued t := by
    simp [State.queuedTasks, State.inFlight, State.init, Scheduler.waiting, Scheduler.empty,
      State.Scheduled, State.point]
  pending := nofun
  waiter := nofun
  unstarted := nofun

/-- The memory, the clock and the place in `run()` play no part. -/
theorem outside (h : Linked s) (now : ℤ) (memory : μ) (mode : Mode) :
    Linked { s with now := now, memory := memory, mode := mode } :=
  ⟨h.defined, h.fresh, h.nodup, h.running, h.once, h.queued, h.pending, h.waiter, h.unstarted⟩

/-- A new frame. -/
theorem allocate (h : Linked s) (body : κ) : Linked (s.allocate body) := by
  have hpoint (t : ℕ) (ht : s.point t ≠ none) : (s.allocate body).point t = s.point t := by
    rw [State.point_allocate, if_neg fun heq => ht (h.fresh t heq.ge)]
  have hold (t : ℕ) (p : Point κ ρ) (hp : ∀ b, p ≠ .initial b) :
      (s.allocate body).point t = some p ↔ s.point t = some p := by
    rw [State.point_allocate]
    split
    · next heq =>
      subst heq
      rw [h.fresh _ le_rfl]
      simp [(hp body).symm]
    · rfl
  have hmono {t : ℕ} {p : Point κ ρ} (ht : s.point t = some p) :
      (s.allocate body).point t = some p := by
    rw [hpoint t (by simp [ht]), ht]
  constructor
  · exact h.defined
  · intro t ht
    rw [State.point_allocate, if_neg (Nat.ne_of_gt ht)]
    exact h.fresh t (Nat.le_of_succ_le ht)
  · exact h.nodup
  · intro t
    refine (h.running t).trans (exists_congr fun locals => ?_)
    exact (hold t (.running locals) nofun).symm
  · exact h.once
  · intro t
    refine (h.queued t).trans (exists_congr fun next => ?_)
    exact (hold t (.scheduled next) nofun).symm
  · intro t resumer hpending
    have hexpects := h.pending t resumer hpending
    cases resumer with
    | start => exact hexpects.imp fun _ => hmono
    | awaiter parent => exact hexpects.imp fun _ => hmono
    | finalAwaiter child =>
      exact ⟨hexpects.1.imp fun _ => hmono, hexpects.2.imp fun _ => hmono⟩
    | loop r => exact hexpects
  · intro c p hc
    rw [State.continuation_allocate] at hc
    split at hc
    · cases hc
    · exact (h.waiter c p hc).imp (fun hf => hf.imp fun _ => hmono) fun ha => ha.imp fun _ => hmono
  · intro c p hunstarted hc
    rw [State.continuation_allocate] at hc
    split at hc
    · cases hc
    · next hne =>
      refine h.unstarted c p ?_ hc
      obtain ⟨b, hb⟩ := hunstarted
      exact ⟨b, by rwa [State.point_allocate, if_neg hne] at hb⟩

/-- A running coroutine goes on. -/
theorem goOn (h : Linked s) {t : ℕ} (hrunning : s.Running t) (locals : κ) :
    Linked (s.setPoint t (.running locals)) := by
  have hmoves := Moves.setPoint hrunning (.running locals)
  refine ⟨h.defined, fun t' ht' => hmoves.point_none (h.fresh t' ht'), h.nodup, fun t' => ?_,
    h.once, fun t' => (h.queued t').trans (hmoves.scheduled_iff (by simp) t').symm,
    fun t' resumer hpending => hmoves.expects (h.pending t' resumer hpending),
    fun c p hc => ?_, fun c p hunstarted hc => ?_⟩
  · refine (h.running t').trans ⟨fun ⟨l, hl⟩ => ?_, fun ⟨l, hl⟩ => ?_⟩
    · by_cases heq : t' = t
      · exact ⟨locals, by rw [hmoves.point, if_pos heq]⟩
      · exact ⟨l, by rw [hmoves.point, if_neg heq, hl]⟩
    · rcases hmoves.came hl with ⟨rfl, -⟩ | ⟨-, hbefore⟩
      · exact hrunning
      · exact ⟨l, hbefore⟩
  · rw [State.continuation_setPoint] at hc
    exact (h.waiter c p hc).imp hmoves.finished hmoves.awaits
  · rw [State.continuation_setPoint] at hc
    exact h.unstarted c p ((hmoves.unstarted_iff (by simp) c).mp hunstarted) hc

/-- `start()` on a task that has not been started or has finished. -/
theorem callStart (h : Linked s) {c : ℕ} {s' : State κ ρ μ} {events : List Event}
    (hnone : s.pending = none) (hcall : s.callStart c = some (s', events))
    (hidle : s.Unstarted c ∨ s.Finished c) : Linked s' := by
  unfold State.callStart at hcall
  split at hcall
  · cases hcall
  · cases hcall
    exact h
  · next p hunfinished hpoint =>
    cases hcall
    have hunstarted : s.Unstarted c := by
      refine hidle.resolve_right fun ⟨result, hresult⟩ => ?_
      exact hunfinished result (Option.some.inj (hpoint.symm.trans hresult))
    have htasks : State.queuedTasks { s with pending := some (c, .start) } = s.queuedTasks := by
      simp [State.queuedTasks, State.inFlight, hnone]
    refine ⟨h.defined, h.fresh, h.nodup, h.running, htasks ▸ h.once,
      fun t => htasks ▸ h.queued t, ?_, h.waiter, ?_⟩
    · intro t resumer hpending
      cases hpending
      exact hunstarted
    · intro c' p hunstarted' hc
      have := h.unstarted c' p hunstarted' hc
      simp [hnone] at this

/-- The running coroutine leaves the stack. -/
theorem leave (h : Linked s) {s' : State κ ρ μ} {t : ℕ} {rest : List ℕ} {p : Point κ ρ}
    (hstack : s.stack = t :: rest) (hmoves : Moves s s' t p) (hp : ∀ locals, p ≠ .running locals) :
    rest.Nodup ∧ ∀ t', t' ∈ rest ↔ s'.Running t' := by
  have hnodup := hstack ▸ h.nodup
  obtain ⟨hnot, hrest⟩ := List.nodup_cons.mp hnodup
  refine ⟨hrest, fun t' => ⟨fun ht' => ?_, fun ⟨locals, hlocals⟩ => ?_⟩⟩
  · obtain ⟨locals, hlocals⟩ := (h.running t').mp (hstack ▸ List.mem_cons_of_mem _ ht')
    exact ⟨locals, by rw [hmoves.point, if_neg (by rintro rfl; exact hnot ht'), hlocals]⟩
  · rcases hmoves.came hlocals with ⟨-, heq⟩ | ⟨hne, hbefore⟩
    · exact absurd heq.symm (hp locals)
    · have hmem := (h.running t').mpr ⟨locals, hbefore⟩
      rw [hstack] at hmem
      exact (List.mem_cons.mp hmem).resolve_left hne

/-- The running coroutine registers in the scheduler. -/
theorem register (h : Linked s) {t : ℕ} {rest : List ℕ} {r : Registration} {sched : Scheduler}
    (hnone : s.pending = none) (hstack : s.stack = t :: rest) (hrunning : s.Running t)
    (hr : r.task = t) (hsched : sched.waiting.Perm (r :: s.sched.waiting)) (next : κ) :
    Linked { s.setPoint t (.scheduled next) with stack := rest, sched := sched } := by
  have hmoves : Moves s { s.setPoint t (.scheduled next) with stack := rest, sched := sched } t
      (.scheduled next) := ⟨hrunning, (Moves.setPoint hrunning (.scheduled next)).point⟩
  obtain ⟨hnodup, hrest⟩ := h.leave hstack hmoves (by simp)
  have htasks : (State.queuedTasks { s.setPoint t (.scheduled next) with
      stack := rest, sched := sched }).Perm (t :: s.queuedTasks) := by
    have hflight := State.inFlight_of_none hnone
    have hflight' : State.inFlight { s.setPoint t (.scheduled next) with
      stack := rest, sched := sched } = [] := State.inFlight_of_none hnone
    unfold State.queuedTasks
    rw [hflight, hflight', ← hr]
    exact hsched.map _
  have hnot : ¬ s.Scheduled t := by
    rintro ⟨next', hnext'⟩
    obtain ⟨locals, hlocals⟩ := hrunning
    simp [hlocals] at hnext'
  refine ⟨h.defined, fun t' ht' => hmoves.point_none (h.fresh t' ht'), hnodup, hrest,
    htasks.nodup_iff.mpr (List.nodup_cons.mpr ⟨fun hmem => hnot ((h.queued t).mp hmem), h.once⟩),
    fun t' => ?_, fun t' resumer hpending => hmoves.expects (h.pending t' resumer hpending),
    fun c p hc => ?_, fun c p hunstarted hc => ?_⟩
  · rw [htasks.mem_iff, List.mem_cons, h.queued]
    constructor
    · rintro (rfl | hold)
      · exact ⟨next, by rw [hmoves.point, if_pos rfl]⟩
      · exact hmoves.scheduled hold
    · rintro ⟨next', hnext'⟩
      exact (hmoves.came hnext').imp And.left fun hbefore => ⟨next', hbefore.2⟩
  · replace hc : s.continuation c = some p := congrFun (s.continuation_setPoint t _) c ▸ hc
    exact (h.waiter c p hc).imp hmoves.finished hmoves.awaits
  · replace hc : s.continuation c = some p := congrFun (s.continuation_setPoint t _) c ▸ hc
    exact h.unstarted c p ((hmoves.unstarted_iff (by simp) c).mp hunstarted) hc

/-- `co_await` of a task that has not been started. -/
theorem await (h : Linked s) {t c : ℕ} {rest : List ℕ} (hnone : s.pending = none)
    (hstack : s.stack = t :: rest) (hrunning : s.Running t) (hunstarted : s.Unstarted c)
    (next : Option ρ → κ) :
    Linked { (s.setPoint t (.awaiting c next)).setContinuation c t with
      stack := rest, pending := some (c, .awaiter t) } := by
  have hmoves : Moves s { (s.setPoint t (.awaiting c next)).setContinuation c t with
      stack := rest, pending := some (c, .awaiter t) } t (.awaiting c next) := by
    refine ⟨hrunning, fun t' => ?_⟩
    rw [← (Moves.setPoint hrunning (.awaiting c next)).point t']
    exact congrFun (State.point_setContinuation _ c t) t'
  have hcont (c' : ℕ) : State.continuation { (s.setPoint t (.awaiting c next)).setContinuation c t
      with stack := rest, pending := some (c, .awaiter t) } c' =
      if c' = c then some t else s.continuation c' := by
    have hc : (s.setPoint t (.awaiting c next)).point c ≠ none := by
      obtain ⟨body, hbody⟩ := (Moves.setPoint hrunning (.awaiting c next)).unstarted hunstarted
      simp [hbody]
    refine (State.continuation_setContinuation hc t c').trans ?_
    rw [State.continuation_setPoint]
  obtain ⟨hnodup, hrest⟩ := h.leave hstack hmoves (by simp)
  have htasks : State.queuedTasks { (s.setPoint t (.awaiting c next)).setContinuation c t with
      stack := rest, pending := some (c, .awaiter t) } = s.queuedTasks := by
    unfold State.queuedTasks
    rw [State.inFlight_of_none hnone]
    rfl
  refine ⟨h.defined, fun t' ht' => hmoves.point_none (h.fresh t' ht'), hnodup, hrest,
    htasks ▸ h.once, fun t' => ?_, fun t' resumer hpending => ?_, fun c' p hc' => ?_,
    fun c' p hunstarted' hc' => ?_⟩
  · rw [htasks]
    exact (h.queued t').trans (hmoves.scheduled_iff (by simp) t').symm
  · cases hpending
    exact hmoves.unstarted hunstarted
  · rw [hcont] at hc'
    split at hc'
    · next heq =>
      cases hc'
      subst heq
      exact Or.inr ⟨next, by rw [hmoves.point, if_pos rfl]⟩
    · exact (h.waiter c' p hc').imp hmoves.finished hmoves.awaits
  · rw [hcont] at hc'
    split at hc'
    · next heq =>
      cases hc'
      subst heq
      rfl
    · have := h.unstarted c' p ((hmoves.unstarted_iff (by simp) c').mp hunstarted') hc'
      simp [hnone] at this

/-- `co_return`, or an exception that leaves the body. -/
theorem ret (h : Linked s) {t : ℕ} {rest : List ℕ} (hnone : s.pending = none)
    (hstack : s.stack = t :: rest) (hrunning : s.Running t) (result : ρ) :
    Linked { s.setPoint t (.finished result) with
      stack := rest
      pending := (s.continuation t).map fun c => (c, .finalAwaiter t) } := by
  have hmoves : Moves s { s.setPoint t (.finished result) with
      stack := rest
      pending := (s.continuation t).map fun c => (c, .finalAwaiter t) } t (.finished result) :=
    ⟨hrunning, (Moves.setPoint hrunning (.finished result)).point⟩
  obtain ⟨hnodup, hrest⟩ := h.leave hstack hmoves (by simp)
  have htasks : State.queuedTasks { s.setPoint t (.finished result) with
      stack := rest
      pending := (s.continuation t).map fun c => (c, .finalAwaiter t) } = s.queuedTasks := by
    unfold State.queuedTasks
    rw [State.inFlight_of_none hnone]
    cases hwaiting : s.continuation t <;> simp [State.inFlight] <;> rfl
  refine ⟨h.defined, fun t' ht' => hmoves.point_none (h.fresh t' ht'), hnodup, hrest,
    htasks ▸ h.once, fun t' => ?_, fun t' resumer hpending => ?_, fun c p hc => ?_,
    fun c p hunstarted hc => ?_⟩
  · rw [htasks]
    exact (h.queued t').trans (hmoves.scheduled_iff (by simp) t').symm
  · obtain ⟨c, hc, heq⟩ := Option.map_eq_some_iff.mp hpending
    cases heq
    have hawaits : s.Awaits t' t := by
      refine (h.waiter t t' hc).resolve_left ?_
      rintro ⟨result', hresult'⟩
      obtain ⟨locals, hlocals⟩ := hrunning
      simp [hlocals] at hresult'
    exact ⟨hmoves.awaits hawaits, result, by rw [hmoves.point, if_pos rfl]⟩
  · replace hc : s.continuation c = some p := congrFun (s.continuation_setPoint t _) c ▸ hc
    exact (h.waiter c p hc).imp hmoves.finished hmoves.awaits
  · replace hc : s.continuation c = some p := congrFun (s.continuation_setPoint t _) c ▸ hc
    have := h.unstarted c p ((hmoves.unstarted_iff (by simp) c).mp hunstarted) hc
    simp [hnone] at this

/-- `run()` resumes the coroutines that are suspended in the scheduler, and
nothing else does. -/
theorem scheduled_iff_loop (h : Linked s) {t : ℕ} {resumer : Resumer}
    (hpending : s.pending = some (t, resumer)) : s.Scheduled t ↔ ∃ r, resumer = .loop r := by
  have hexpects := h.pending t resumer hpending
  cases resumer with
  | start =>
    obtain ⟨body, hbody⟩ := hexpects
    simp [State.Scheduled, hbody]
  | awaiter parent =>
    obtain ⟨body, hbody⟩ := hexpects
    simp [State.Scheduled, hbody]
  | finalAwaiter child =>
    obtain ⟨⟨next, hnext⟩, -⟩ := hexpects
    simp [State.Scheduled, hnext]
  | loop r =>
    refine iff_of_true ((h.queued t).mp ?_) ⟨r, rfl⟩
    have hexpects : r.task = t := hexpects
    simp [State.queuedTasks, State.inFlight, hpending, hexpects]

/-- A coroutine that awaits a task is resumed once the task has finished. -/
theorem finished_of_awaits (h : Linked s) {t c : ℕ} {resumer : Resumer}
    (hpending : s.pending = some (t, resumer)) (hawaits : s.Awaits t c) : s.Finished c := by
  have hexpects := h.pending t resumer hpending
  obtain ⟨next, hnext⟩ := hawaits
  cases resumer with
  | start =>
    obtain ⟨body, hbody⟩ := hexpects
    simp [hbody] at hnext
  | awaiter parent =>
    obtain ⟨body, hbody⟩ := hexpects
    simp [hbody] at hnext
  | finalAwaiter child =>
    obtain ⟨⟨next', hnext'⟩, hfinished⟩ := hexpects
    rw [hnext'] at hnext
    cases hnext
    exact hfinished
  | loop r =>
    obtain ⟨next', hnext'⟩ := (h.scheduled_iff_loop hpending).mpr ⟨r, rfl⟩
    simp [hnext'] at hnext

/-- The pending handle belongs to a suspended coroutine. -/
theorem suspended (h : Linked s) {t : ℕ} {resumer : Resumer}
    (hpending : s.pending = some (t, resumer)) : s.Suspended t := by
  have hexpects := h.pending t resumer hpending
  cases resumer with
  | start => exact Or.inl hexpects
  | awaiter parent => exact Or.inl hexpects
  | finalAwaiter child => exact Or.inr (Or.inr ⟨child, hexpects.1⟩)
  | loop r => exact Or.inr (Or.inl ((h.scheduled_iff_loop hpending).mpr ⟨r, rfl⟩))

/-- Resuming takes the coroutine out of the queues, if it was in them. -/
theorem queuedTasks_enter (h : Linked s) {t : ℕ} {resumer : Resumer}
    (hpending : s.pending = some (t, resumer)) (locals : κ) :
    let s' := { s.setPoint t (.running locals) with pending := none, stack := t :: s.stack }
    s.queuedTasks = s'.queuedTasks ∧ ¬ s.Scheduled t ∨ s.queuedTasks = t :: s'.queuedTasks := by
  have hexpects := h.pending t resumer hpending
  rw [h.scheduled_iff_loop hpending]
  cases resumer with
  | start => exact Or.inl ⟨by simp [State.queuedTasks, State.inFlight, hpending]; rfl, by simp⟩
  | awaiter parent =>
    exact Or.inl ⟨by simp [State.queuedTasks, State.inFlight, hpending]; rfl, by simp⟩
  | finalAwaiter child =>
    exact Or.inl ⟨by simp [State.queuedTasks, State.inFlight, hpending]; rfl, by simp⟩
  | loop r =>
    have hexpects : r.task = t := hexpects
    right
    simp [State.queuedTasks, State.inFlight, hpending, hexpects]
    rfl

/-- The pending coroutine runs. -/
theorem enter (h : Linked s) {t : ℕ} {resumer : Resumer}
    (hpending : s.pending = some (t, resumer)) (locals : κ) :
    Linked { s.setPoint t (.running locals) with pending := none, stack := t :: s.stack } := by
  have hsuspended := h.suspended hpending
  have hnone : s.point t ≠ none := by
    rcases hsuspended with ⟨_, ht⟩ | ⟨_, ht⟩ | ⟨_, _, ht⟩ <;> simp [ht]
  have hnot (t' : ℕ) (ht' : s.Running t' ∨ s.Finished t') : t' ≠ t := by
    rintro rfl
    rcases hsuspended with ⟨_, ht⟩ | ⟨_, ht⟩ | ⟨_, _, ht⟩ <;>
      rcases ht' with ⟨_, ht'⟩ | ⟨_, ht'⟩ <;> simp [ht] at ht'
  have hpoint (t' : ℕ) : State.point { s.setPoint t (.running locals) with
      pending := none, stack := t :: s.stack } t' =
      if t' = t then some (.running locals) else s.point t' := by
    refine (State.point_setPoint s t t' _).trans ?_
    obtain ⟨p, hp⟩ := Option.ne_none_iff_exists'.mp hnone
    rw [hp]
    rfl
  have hcont (c : ℕ) : State.continuation { s.setPoint t (.running locals) with
      pending := none, stack := t :: s.stack } c = s.continuation c :=
    congrFun (s.continuation_setPoint t _) c
  have honce := h.once
  refine ⟨h.defined, fun t' ht' => ?_, ?_, fun t' => ?_, ?_, fun t' => ?_, nofun,
    fun c p hc => ?_, fun c p hunstarted hc => ?_⟩
  · rw [hpoint, if_neg (by rintro rfl; exact hnone (h.fresh t' ht'))]
    exact h.fresh t' ht'
  · exact List.nodup_cons.mpr ⟨fun hmem => hnot t (Or.inl ((h.running t).mp hmem)) rfl, h.nodup⟩
  · by_cases heq : t' = t
    · subst heq
      exact iff_of_true List.mem_cons_self ⟨locals, by rw [hpoint, if_pos rfl]⟩
    · unfold State.Running
      rw [hpoint, if_neg heq, List.mem_cons, or_iff_right heq]
      exact h.running t'
  · rcases h.queuedTasks_enter hpending locals with ⟨hsame, -⟩ | hcons
    · exact hsame ▸ honce
    · exact (List.nodup_cons.mp (hcons ▸ honce)).2
  · have hscheduled : State.Scheduled { s.setPoint t (.running locals) with
        pending := none, stack := t :: s.stack } t' ↔ t' ≠ t ∧ s.Scheduled t' := by
      unfold State.Scheduled
      rw [hpoint]
      split <;> simp_all
    rw [hscheduled, ← h.queued]
    rcases h.queuedTasks_enter hpending locals with ⟨hsame, hnotscheduled⟩ | hcons
    · rw [← hsame]
      refine ⟨fun hmem => ⟨?_, hmem⟩, And.right⟩
      rintro rfl
      exact hnotscheduled ((h.queued t').mp hmem)
    · have hhead := (List.nodup_cons.mp (hcons ▸ honce)).1
      rw [hcons, List.mem_cons]
      refine ⟨fun hmem => ⟨?_, Or.inr hmem⟩, fun hmem => hmem.2.resolve_left hmem.1⟩
      rintro rfl
      exact hhead hmem
  · rw [hcont] at hc
    have hfinished (hf : s.Finished c) : State.Finished { s.setPoint t (.running locals) with
        pending := none, stack := t :: s.stack } c :=
      hf.imp fun result hresult => by rw [hpoint, if_neg (hnot c (Or.inr hf)), hresult]
    rcases h.waiter c p hc with hf | ⟨next, hnext⟩
    · exact Or.inl (hfinished hf)
    · by_cases heq : p = t
      · subst heq
        exact Or.inl (hfinished (h.finished_of_awaits hpending ⟨next, hnext⟩))
      · exact Or.inr ⟨next, by rw [hpoint, if_neg heq, hnext]⟩
  · rw [hcont] at hc
    obtain ⟨body, hbody⟩ := hunstarted
    rw [hpoint] at hbody
    split at hbody
    · cases hbody
    · next hne =>
      have := h.unstarted c p ⟨body, hbody⟩ hc
      rw [hpending] at this
      cases this
      exact absurd rfl hne

theorem resumePending (h : Linked s) {t : ℕ} {resumer : Resumer} {s' : State κ ρ μ}
    {events : List Event} (hpending : s.pending = some (t, resumer))
    (hresume : s.resumePending t resumer = some (s', events)) : Linked s' := by
  have hsuspended := h.suspended hpending
  unfold State.resumePending at hresume
  split at hresume
  · cases hresume
  · cases hresume
    exact h.enter hpending _
  · cases hresume
    exact h.enter hpending _
  · cases hresume
    exact h.enter hpending _
  · next hpoint =>
    rcases hsuspended with ⟨_, ht⟩ | ⟨_, ht⟩ | ⟨_, _, ht⟩ <;> simp [hpoint] at ht
  · next hpoint =>
    rcases hsuspended with ⟨_, ht⟩ | ⟨_, ht⟩ | ⟨_, _, ht⟩ <;> simp [hpoint] at ht

/-- The running coroutine executes an instruction. -/
theorem execute (h : Linked s) {t : ℕ} {rest : List ℕ} {now now' : ℤ} {instr : Instr κ ρ μ}
    {s' : State κ ρ μ} {events : List Event} (hnone : s.pending = none)
    (hstack : s.stack = t :: rest) (hrunning : s.Running t)
    (hexec : s.execute t rest now now' instr = some (s', events))
    (hstarts : StartsOnce s events) : Linked s' := by
  cases instr with
  | create body next =>
    cases hexec
    exact (h.goOn hrunning _).allocate body
  | start c next =>
    have hmoves := Moves.setPoint hrunning (.running next)
    simp only [State.execute] at hexec
    refine (h.goOn hrunning next).callStart hnone hexec ?_
    have hcall : .startCall c ∈ events := State.callStart_events hexec ▸ List.mem_cons_self
    exact (hstarts c (Or.inl hcall)).imp hmoves.unstarted hmoves.finished
  | done c next =>
    cases hexec
    exact h.goOn hrunning _
  | await c next =>
    simp only [State.execute] at hexec
    split at hexec
    · cases hexec
    · cases hexec
      exact h.goOn hrunning _
    · next p hunfinished hpoint =>
      cases hexec
      have hunstarted : s.Unstarted c := by
        have hidle := hstarts c (Or.inr ⟨t, List.mem_cons_self⟩)
        refine hidle.resolve_right ?_
        rintro ⟨result, hresult⟩
        exact hunfinished result (Option.some.inj (hpoint.symm.trans hresult))
      exact h.await hnone hstack hrunning hunstarted next
  | sleepFor duration next =>
    simp only [State.execute] at hexec
    split at hexec
    · split at hexec
      · cases hexec
        exact (h.goOn hrunning next).outside now' _ _
      · cases hexec
        exact (h.register (r := .timer (s.sched.newTimer (now + duration) t)) hnone hstack hrunning
          rfl (s.sched.waiting_addTimer _ t) next).outside now' _ _
    · cases hexec
  | yield next =>
    cases hexec
    exact h.register (r := .yielded t) hnone hstack hrunning rfl (s.sched.waiting_pushReady t) next
  | get next =>
    cases hexec
    exact h.goOn hrunning _
  | set memory next =>
    cases hexec
    exact (h.goOn hrunning next).outside _ memory _
  | ret result =>
    cases hexec
    exact h.ret hnone hstack hrunning result

/-- `run()` goes on. -/
theorem loopStep (h : Linked s) {now : ℤ} {s' : State κ ρ μ} {events : List Event}
    (hnone : s.pending = none) (hloop : s.loopStep now = some (s', events)) : Linked s' := by
  have hflight := State.inFlight_of_none hnone
  unfold State.loopStep at hloop
  split at hloop
  · cases hloop
  · split at hloop
    · cases hloop
      exact h.outside _ _ _
    · split at hloop
      · cases hloop
        exact h.outside _ _ _
      · cases hloop
    · cases hloop
      exact h.outside _ _ _
  · split at hloop
    · cases hloop
      exact h.outside _ _ _
    · split at hloop
      · split at hloop
        · cases hloop
          have htasks : State.queuedTasks { s with now := now, sched := s.sched.moveTop } =
              s.queuedTasks := by
            simp [State.queuedTasks, State.inFlight, hnone, s.sched.waiting_moveTop]
          exact ⟨h.defined, h.fresh, h.nodup, h.running, htasks ▸ h.once,
            fun t => htasks ▸ h.queued t, h.pending, h.waiter, h.unstarted⟩
        · cases hloop
          exact h.outside _ _ _
      · cases hloop
  · split at hloop
    · cases hloop
      exact h.outside _ _ _
    · next r rest hready =>
      cases hloop
      have htasks : State.queuedTasks { s with
          sched := s.sched.popReady
          pending := some (r.task, .loop r)
          mode := .resuming } = s.queuedTasks := by
        simp [State.queuedTasks, State.inFlight, hnone, Scheduler.waiting_popReady hready]
      refine ⟨h.defined, h.fresh, h.nodup, h.running, htasks ▸ h.once,
        fun t => htasks ▸ h.queued t, ?_, h.waiter, ?_⟩
      · intro t resumer hpending
        cases hpending
        rfl
      · intro c p hunstarted hc
        have := h.unstarted c p hunstarted hc
        simp [hnone] at this
  · cases hloop
    exact h.outside _ _ _

/-- One step of a program that starts and awaits every task once. -/
theorem step (h : Linked s) {code : κ → Instr κ ρ μ} {s' : State κ ρ μ} {events : List Event}
    (hstep : (oneStartSystem code).step s events s') : Linked s' := by
  obtain ⟨hstarts, a, hstep⟩ := hstep
  cases (State.step_cases hstep).2 with
  | create hpending hstack => exact h.allocate _
  | start hpending hstack hcall =>
    exact h.callStart hpending hcall
      (hstarts _ (Or.inl (State.callStart_events hcall ▸ List.mem_cons_self)))
  | set hpending hstack => exact h.outside _ _ _
  | run hpending hstack => exact h.outside _ _ _
  | resume hpending hresume => exact h.resumePending hpending hresume
  | exec hpending hstack hpoint hexec =>
    exact h.execute hpending hstack ⟨_, hpoint⟩ hexec hstarts
  | loop hpending hstack hloop => exact h.loopStep hpending hloop

end Linked

theorem run_linked {code : κ → Instr κ ρ μ} {memory : μ} {trace : List (List Event)}
    {s : State κ ρ μ} (h : (oneStartSystem code).Run (.init memory) trace s) : Linked s :=
  h.preserves (fun _ _ _ hs hstep => hs.step hstep) (.init memory)

end CppWorkspace.Coro
