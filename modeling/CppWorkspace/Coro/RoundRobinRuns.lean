import CppWorkspace.Coro.RoundRobinOrder
import CppWorkspace.Coro.TaskLifetime

/-!
The runs of `round_robin`: all workers are made and take their first turn when they are
started, the rest of the rounds is driven by `run()`. There is one run, and it ends.
-/

namespace CppWorkspace.Coro

open Lib System Relation

section Runs

variable (workers : List Worker) {m : State PoliteLocals Unit Log} {v v' : View}
  (plan : List (Action PoliteLocals Log))

/-- Steps of the view are a run of the program. -/
theorem Shows.run (h : Shows m v) (hleads : ReflTransGen View.Leads v v') :
    ∃ m' labels, (roundRobinSystem workers).Run ⟨m, plan⟩ labels ⟨m', plan⟩ ∧ Shows m' v' := by
  induction hleads with
  | refl => exact ⟨m, [], .nil, h⟩
  | tail _ hstep ih =>
      obtain ⟨middle, labels, hrun, hmiddle⟩ := ih
      obtain ⟨m', hnext, hlast⟩ := hmiddle.leads plan hstep
      exact ⟨m', labels ++ [()], hrun.snoc () hnext, hlast⟩

/-- The code of `round_robin` acts when no coroutine runs and `run()` does not. -/
theorem Shows.plain (h : Shows m v) (hpending : v.pending = none) (hstack : v.stack = [])
    (hmode : v.mode = .plain) (act : Action PoliteLocals Log) :
    RoundRobin.next ⟨m, act :: plan⟩ = (m.step politeWorker act).map fun r => ⟨r.1, plan⟩ := by
  rw [RoundRobin.next, if_pos (h.idle hpending hstack)]
  simp only [h.mode, hmode]

theorem Shows.create (h : Shows m v) (hpending : v.pending = none) (hstack : v.stack = [])
    (hmode : v.mode = .plain) (body : PoliteLocals) :
    ∃ m', RoundRobin.next ⟨m, .create body :: plan⟩ = some ⟨m', plan⟩ ∧
      Shows m' { v.goTo v.created (.initial body) with created := v.created + 1 } := by
  refine ⟨m.allocate body, ?_, ?_⟩
  · rw [h.plain plan hpending hstack hmode]
    simp only [State.step, h.defined, h.pending, hpending, h.stack, hstack, h.mode, hmode,
      Bool.false_eq_true, if_false, Option.map_some]
  · have hpoints : (m.allocate body).point = (v.goTo v.created (.initial body)).points := by
      funext t
      rw [State.point_allocate, h.created, h.points]
      by_cases heq : t = v.created
      · rw [if_pos heq, heq]
        exact (v.goTo_self v.created _).symm
      · rw [if_neg heq]
        exact (v.goTo_other heq _).symm
    have hcontinuation : ∀ t, (m.allocate body).continuation t = none := by
      intro t
      rw [State.continuation_allocate, h.continuation]
      split <;> rfl
    exact { h with
      points := hpoints, created := congrArg (· + 1) h.created, continuation := hcontinuation }

theorem Shows.start (h : Shows m v) (hpending : v.pending = none) (hstack : v.stack = [])
    (hmode : v.mode = .plain) {t : ℕ} {locals : PoliteLocals}
    (hpoint : v.points t = some (.initial locals)) :
    ∃ m', RoundRobin.next ⟨m, .start t :: plan⟩ = some ⟨m', plan⟩ ∧
      Shows m' { v with pending := some (t, .start) } := by
  have hpoint' : m.point t = some (.initial locals) := by rw [h.points, hpoint]
  refine ⟨{ m with pending := some (t, .start) }, ?_, { h with pending := rfl }⟩
  rw [h.plain plan hpending hstack hmode]
  simp only [State.step, h.defined, h.pending, hpending, h.stack, hstack, h.mode, hmode,
    Bool.false_eq_true, if_false, State.callStart, hpoint', Option.map_some]

theorem Shows.callRun (h : Shows m v) (hpending : v.pending = none) (hstack : v.stack = [])
    (hmode : v.mode = .plain) :
    ∃ m', RoundRobin.next ⟨m, .run :: plan⟩ = some ⟨m', plan⟩ ∧
      Shows m' { v with mode := .test } := by
  refine ⟨{ m with mode := .test }, ?_, { h with mode := rfl }⟩
  rw [h.plain plan hpending hstack hmode]
  simp only [State.step, h.defined, h.pending, hpending, h.stack, hstack, h.mode, hmode,
    Bool.false_eq_true, if_false, Option.map_some]

/-- The first round: some workers have not been started. -/
structure Starting (v : View) (todo acc : Workers) : Prop where
  round : Round v .initial 1 todo acc
  ready : v.ready = tasksOf acc
  pending : v.pending = none
  stack : v.stack = []
  mode : v.mode = .plain

/-- Making the workers. -/
theorem Shows.createAll (h : Shows m v) {made : Workers} (hmade : Starting v made [])
    (rest : List Worker) : ∃ m' labels v',
      (roundRobinSystem workers).Run ⟨m, rest.map (fun w => .create (.loop w 1)) ++ plan⟩ labels
        ⟨m', plan⟩ ∧ Shows m' v' ∧ v'.log = v.log ∧ v'.created = v.created + rest.length ∧
      Starting v' (made ++ (List.range' v.created rest.length).zip rest) [] := by
  induction rest generalizing m v made with
  | nil =>
      refine ⟨m, [], v, .nil, h, rfl, rfl, ?_⟩
      rw [List.zip_nil_right, List.append_nil]
      exact hmade
  | cons w rest ih =>
      obtain ⟨middle, hnext, hshows⟩ := h.create
        (rest.map (fun w => .create (.loop w 1)) ++ plan) hmade.pending hmade.stack hmade.mode
        (.loop w 1)
      obtain ⟨m', labels, v', hrun, hshows', hlog, hcreated, hstarting⟩ := ih hshows
        ⟨hmade.round.create w, hmade.ready, hmade.pending, hmade.stack, hmade.mode⟩
      refine ⟨m', () :: labels, v', hrun.cons () hnext, hshows', hlog, ?_, ?_⟩
      · rw [hcreated, List.length_cons]
        show v.created + 1 + rest.length = _
        omega
      · rw [List.append_assoc] at hstarting
        exact hstarting

/-- Starting the workers. -/
theorem Shows.startAll (h : Shows m v) {todo acc : Workers} (hstarting : Starting v todo acc)
    (hint : ∀ worker ∈ todo, worker.2.rounds < 2 ^ 31 - 1) :
    ∃ m' labels v',
      (roundRobinSystem workers).Run ⟨m, (tasksOf todo).map .start ++ plan⟩ labels ⟨m', plan⟩ ∧
      Shows m' v' ∧ v'.log = v.log ++ roundLog (todo.map Prod.snd) 1 ∧ v'.created = v.created ∧
      Starting v' [] (acc ++ remaining 1 todo) := by
  induction todo generalizing m v acc with
  | nil =>
      refine ⟨m, [], v, .nil, h, (List.append_nil _).symm, rfl, ?_⟩
      rw [remaining, List.filter_nil, List.append_nil]
      exact hstarting
  | cons worker todo ih =>
      obtain ⟨t, w⟩ := worker
      have hpoint := hstarting.round.waiting (t, w) List.mem_cons_self
      obtain ⟨entered, hnext, hshows⟩ := h.start ((tasksOf todo).map .start ++ plan)
        hstarting.pending hstarting.stack hstarting.mode hpoint
      have hturn := View.turn (v := { v with pending := some (t, .start) }) (w := w) (i := 1) rfl
        (Or.inl hpoint) (fits_of_bound le_rfl (hint (t, w) List.mem_cons_self))
      obtain ⟨middle, first, hfirst, hshows'⟩ := hshows.run workers
        ((tasksOf todo).map .start ++ plan) hturn
      obtain ⟨hpending, hstack, hmode, hcreated⟩ :=
        View.afterTurn_rest { v with pending := some (t, .start) } t w 1
      have hround : Round { v with pending := some (t, .start) } .initial 1 ((t, w) :: todo) acc :=
        hstarting.round.same rfl rfl
      have hnextRound : Starting ({ v with pending := some (t, .start) }.afterTurn t w 1) todo
          (acc ++ if 1 ≤ w.rounds then [(t, w)] else []) := by
        refine ⟨hround.afterTurn, ?_, hpending, hstack.trans hstarting.stack,
          hmode.trans hstarting.mode⟩
        rw [View.afterTurn_ready, tasksOf_append, ← hstarting.ready]
      obtain ⟨m', labels, v', hrun, hshows'', hlog, hcreated', hlast⟩ := ih hshows' hnextRound
        fun worker hmem => hint worker (List.mem_cons_of_mem _ hmem)
      refine ⟨m', () :: (first ++ labels), v', (hfirst.append hrun).cons () hnext, hshows'', ?_,
        hcreated'.trans hcreated, ?_⟩
      · rw [hlog, View.afterTurn_log, roundLog_cons, List.append_assoc]
      · rw [remaining_cons, ← List.append_assoc]
        exact hlast

theorem shows_init : Shows (.init []) ⟨fun _ => none, 0, [], [], .plain, [], none⟩ where
  points := rfl
  created := rfl
  ready := rfl
  timers := rfl
  log := rfl
  mode := rfl
  stack := rfl
  pending := rfl
  defined := rfl
  continuation _ := rfl

theorem starting_init : Starting ⟨fun _ => none, 0, [], [], .plain, [], none⟩ [] [] where
  round :=
    { waiting := fun _ h => (List.not_mem_nil h).elim
      turned := fun _ h => (List.not_mem_nil h).elim
      nodup := List.nodup_nil
      created := fun _ h => (List.not_mem_nil h).elim
      finished := fun _ h => absurd h (Nat.not_lt_zero _) }
  ready := rfl
  pending := rfl
  stack := rfl
  mode := rfl

theorem roundsLog_succ (workers : List Worker) (n : ℕ) :
    roundsLog workers (n + 1) = roundsLog workers n ++ roundLog workers (n + 1) := by
  rw [roundsLog, List.range'_1_concat, List.flatMap_append, roundsLog, List.flatMap_singleton,
    Nat.add_comm 1 n]
  push_cast
  rfl

/-- The log of the first round, and of those driven by `run()`. -/
theorem roundsLog_eq (workers : List Worker) {n : ℕ} (hbound : ∀ w ∈ workers, w.rounds ≤ n) :
    roundsLog workers n = roundLog workers 1 ++
      (List.range n).flatMap fun j : ℕ => roundLog workers (2 + j) := by
  have hlast : roundLog workers (n + 1) = [] := by
    have hnone : (workers.filter fun w => (n : ℤ) + 1 ≤ w.rounds) = [] :=
      List.filter_eq_nil_iff.mpr fun w hw => by
        have hle := hbound w hw
        simp only [decide_eq_true_eq]
        omega
    rw [roundLog, hnone]
    rfl
  rw [← List.append_nil (roundsLog workers n), ← hlast, ← roundsLog_succ, roundsLog,
    List.range'_succ, List.flatMap_cons, List.range'_eq_map_range, List.flatMap_map]
  push_cast
  rfl

/-- The one run of `round_robin`. -/
theorem round_robin_runs (workers : List Worker) {n : ℕ} (hbound : ∀ w ∈ workers, w.rounds ≤ n)
    (hint : ∀ w ∈ workers, w.rounds < 2 ^ 31 - 1) :
    ∃ m labels v last, (roundRobinSystem workers).Run (roundRobin workers) labels ⟨m, []⟩ ∧
      Shows m { v with mode := .plain } ∧ v.log = roundsLog workers n ∧
      v.created = workers.length ∧ Turns v last [] [] := by
  obtain ⟨m₁, labels₁, v₁, hrun₁, hshows₁, hlog₁, hcreated₁, hmade⟩ :=
    shows_init.createAll workers ((List.range workers.length).map .start ++ [.run]) starting_init
      workers
  rw [Nat.zero_add] at hcreated₁
  rw [List.nil_append, ← List.range_eq_range'] at hmade
  have htasks : tasksOf ((List.range workers.length).zip workers) = List.range workers.length :=
    List.map_fst_zip (by rw [List.length_range])
  have hworkers : ((List.range workers.length).zip workers).map Prod.snd = workers :=
    List.map_snd_zip (by rw [List.length_range])
  obtain ⟨m₂, labels₂, v₂, hrun₂, hshows₂, hlog₂, hcreated₂, hstarted⟩ :=
    hshows₁.startAll workers [.run] hmade fun worker hworker =>
      hint worker.2 (List.of_mem_zip hworker).2
  rw [htasks] at hrun₂
  rw [hworkers, hlog₁] at hlog₂
  obtain ⟨m₃, hcall, hshows₃⟩ :=
    hshows₂.callRun [] hstarted.pending hstarted.stack hstarted.mode
  have hturns : Turns { v₂ with mode := .test } 1 []
      (remaining 1 ((List.range workers.length).zip workers)) :=
    ⟨⟨fun _ h => (List.not_mem_nil h).elim, hstarted.round.turned, hstarted.round.nodup,
      hstarted.round.created, hstarted.round.finished⟩, hstarted.ready, hstarted.pending,
      hstarted.stack, rfl⟩
  rw [List.nil_append] at hstarted
  obtain ⟨v₄, last, hleads, hlog₄, hcreated₄, hend⟩ := hturns.next.rounds (m := n)
    (by omega)
    (fun worker hworker =>
      hint worker.2 (List.of_mem_zip (List.mem_filter.mp hworker).1).2)
    fun worker hworker => by
      have hmem := (List.mem_filter.mp hworker).1
      have hle := hbound worker.2 (List.of_mem_zip hmem).2
      omega
  have hall := hleads.tail (.ends hend.pending hend.stack hend.mode hend.ready)
  obtain ⟨m₅, labels₅, hrun₅, hshows₅⟩ := hshows₃.run workers [] hall
  refine ⟨m₅, labels₁ ++ (labels₂ ++ () :: labels₅), v₄, last, ?_, hshows₅, ?_, ?_, hend⟩
  · have hrun₁' : (roundRobinSystem workers).Run (roundRobin workers) labels₁
        ⟨m₁, (List.range workers.length).map .start ++ [.run]⟩ := by
      have hplan : (roundRobin workers).plan = workers.map (fun w => .create (.loop w 1)) ++
          ((List.range workers.length).map .start ++ [.run]) := List.append_assoc ..
      have hstart : roundRobin workers = ⟨.init [], workers.map (fun w => .create (.loop w 1)) ++
          ((List.range workers.length).map .start ++ [.run])⟩ := by
        rw [← hplan]
        rfl
      rw [hstart]
      exact hrun₁
    exact hrun₁'.append (hrun₂.append (hrun₅.cons () hcall))
  · have hlater : ∀ j ∈ List.range n,
        roundLog ((remaining 1 ((List.range workers.length).zip workers)).map Prod.snd)
          (1 + 1 + (j : ℤ)) = roundLog workers (2 + j) := by
      intro j _
      rw [roundLog_remaining (by omega), hworkers]
      rfl
    rw [hlog₄, roundsLog_eq workers hbound]
    show v₂.log ++ _ = _
    rw [hlog₂]
    exact congrArg _ (List.flatMap_congr hlater)
  · rw [hcreated₄]
    exact hcreated₂.trans hcreated₁

end Runs

/-- For any workers with any numbers of rounds below the largest `int`: there is one run
of `round_robin`, and it ends, with `run()` returned, every worker done and the log of
one round after another, each with the workers that take part in it in the order in
which they were started. -/
theorem round_robin_order (workers : List Worker) {n : ℕ}
    (hbound : ∀ w ∈ workers, w.rounds ≤ n) (hint : ∀ w ∈ workers, w.rounds < 2 ^ 31 - 1) :
    ∃ last : RoundRobin, ∃ steps, last.machine.memory = roundsLog workers n ∧
      last.plan = [] ∧ last.machine.mode = .plain ∧ last.machine.idle = true ∧
      last.machine.undefined = false ∧
      (∀ t < workers.length, (last.machine.result t).isSome = true) ∧
      ∀ labels p, (roundRobinSystem workers).Run (roundRobin workers) labels p →
        ∃ rest, (roundRobinSystem workers).Run p rest last ∧
          labels.length + rest.length = steps := by
  obtain ⟨m, all, v, k, hrun, hshows, hlog, hcreated, hend⟩ :=
    round_robin_runs workers hbound hint
  have hidle : m.idle = true := hshows.idle hend.pending hend.stack
  refine ⟨⟨m, []⟩, all.length, hshows.log.trans hlog, rfl, hshows.mode, hidle, hshows.defined,
    fun t ht => ?_, fun labels p hp => ?_⟩
  · have hpoint : m.point t = some (.finished ()) :=
      (congrFun hshows.points t).trans
        (hend.round.finished t (hcreated ▸ ht) List.not_mem_nil)
    rw [State.result, hpoint]
    rfl
  · have hstuck : ∀ label p', ¬ (roundRobinSystem workers).step ⟨m, []⟩ label p' := by
      intro label p' hstep
      have hnone : RoundRobin.next ⟨m, []⟩ = none := by
        rw [RoundRobin.next, if_pos hidle]
        simp only [hshows.mode]
      cases hnone.symm.trans hstep
    have hone : ∀ p label label' p' p'', (roundRobinSystem workers).step p label p' →
        (roundRobinSystem workers).step p label' p'' → label = label' ∧ p' = p'' := by
      intro p label label' p' p'' hnext hnext'
      exact ⟨rfl, Option.some.inj (Eq.trans (Eq.symm hnext) hnext')⟩
    obtain ⟨rest, hlabels, hrest⟩ := Run.extends_to hone hstuck hp hrun
    exact ⟨rest, hrest, by rw [hlabels, List.length_append]⟩

/-- Workers that drop out at different times. -/
def threeWorkers : List Worker :=
  [⟨"ping".toList, 2⟩, ⟨"idle".toList, 0⟩, ⟨"pong".toList, 3⟩]

theorem round_robin_order_three : ∃ last : RoundRobin, last.machine.memory =
      ["ping:1".toList, "pong:1".toList, "ping:2".toList, "pong:2".toList, "pong:3".toList] ∧
    (∀ t < 3, (last.machine.result t).isSome = true) ∧
    ∀ labels p, (roundRobinSystem threeWorkers).Run (roundRobin threeWorkers) labels p →
      ∃ rest, (roundRobinSystem threeWorkers).Run p rest last := by
  have hbound : ∀ w ∈ threeWorkers, w.rounds ≤ (3 : ℕ) := by decide
  obtain ⟨last, steps, hlog, -, -, -, -, hdone, hall⟩ :=
    round_robin_order threeWorkers hbound (by decide)
  have hexpected : roundsLog threeWorkers 3 =
      ["ping:1".toList, "pong:1".toList, "ping:2".toList, "pong:2".toList, "pong:3".toList] := by
    decide
  refine ⟨last, hlog.trans hexpected, hdone, fun labels p hrun => ?_⟩
  obtain ⟨rest, hrest, -⟩ := hall labels p hrun
  exact ⟨rest, hrest⟩

/-- Such a worker is never done: no `int` is above its rounds. -/
def PoliteLocals.Endless : PoliteLocals → Prop
  | .loop w i => 2 ^ 31 - 1 ≤ w.rounds ∧ i ≤ w.rounds
  | .pushing w _ _ | .yielding w _ => 2 ^ 31 - 1 ≤ w.rounds
  | .overflow => True

def Point.Endless : Point PoliteLocals Unit → Prop
  | .initial locals | .running locals | .scheduled locals => locals.Endless
  | .awaiting _ _ | .finished _ => False

theorem PoliteLocals.endless_increment {w : Worker} (h : 2 ^ 31 - 1 ≤ w.rounds) (i : ℤ) :
    (PoliteLocals.increment w i).Endless := by
  unfold increment
  split
  · next next hnext =>
    obtain ⟨⟨-, hle⟩, rfl⟩ := int_eq_some.mp hnext
    exact ⟨h, hle.trans h⟩
  · trivial

section Endless

variable {m m' : State PoliteLocals Unit Log} {events : List Event}

theorem endless_setPoint (hall : ∀ t p, m.point t = some p → p.Endless) {t : ℕ}
    {p : Point PoliteLocals Unit} (hp : p.Endless) :
    ∀ t' p', (m.setPoint t p).point t' = some p' → p'.Endless := by
  intro t' p' hp'
  rw [State.point_setPoint] at hp'
  split at hp'
  · obtain ⟨-, -, rfl⟩ := Option.map_eq_some_iff.mp hp'
    exact hp
  · exact hall t' p' hp'

theorem endless_execute (hall : ∀ t p, m.point t = some p → p.Endless) {t : ℕ} {rest : List ℕ}
    {locals : PoliteLocals} {now now' : ℤ} (hlocals : locals.Endless)
    (h : m.execute t rest now now' (politeWorker locals) = some (m', events)) :
    ∀ t' p', m'.point t' = some p' → p'.Endless := by
  cases locals with
  | loop w i =>
      rw [politeWorker, if_pos hlocals.2] at h
      cases h
      exact endless_setPoint hall (p := .running (.pushing w i m.memory)) hlocals.1
  | pushing w i log =>
      cases h
      exact endless_setPoint hall (p := .running (.yielding w i)) hlocals
  | yielding w i =>
      cases h
      exact endless_setPoint hall (p := .scheduled (.increment w i))
        (PoliteLocals.endless_increment hlocals i)
  | overflow =>
      cases h
      exact endless_setPoint hall (p := .running .overflow) trivial

theorem endless_step (hall : ∀ t p, m.point t = some p → p.Endless) {act : Action PoliteLocals Log}
    (hact : ∀ body, act = .create body → body.Endless)
    (h : m.step politeWorker act = some (m', events)) :
    ∀ t p, m'.point t = some p → p.Endless := by
  cases (State.step_cases h).2 with
  | @create body _ _ =>
      intro t p hp
      rw [State.point_allocate] at hp
      split at hp
      · cases hp
        exact hact body rfl
      · exact hall t p hp
  | start _ _ hcall =>
      rw [(State.callStart_point hcall).1]
      exact hall
  | set _ _ => exact hall
  | run _ _ => exact hall
  | resume _ hresume =>
      unfold State.resumePending at hresume
      split at hresume
      · cases hresume
      · next locals hpoint =>
        cases hresume
        have hlocals : (Point.initial locals).Endless := hall _ _ hpoint
        exact endless_setPoint hall (p := .running locals) hlocals
      · next locals hpoint =>
        cases hresume
        have hlocals : (Point.scheduled locals).Endless := hall _ _ hpoint
        exact endless_setPoint hall (p := .running locals) hlocals
      · next hpoint => exact (hall _ _ hpoint).elim
      · cases hresume
        exact hall
      · cases hresume
        exact hall
  | exec _ _ hpoint hexec => exact endless_execute hall (hall _ _ hpoint) hexec
  | loop _ _ hloop =>
      rw [(State.loopStep_point hloop).1]
      exact hall

end Endless

/-- Every worker is endless, those to be made as well. -/
structure AllEndless (p : RoundRobin) : Prop where
  points : ∀ t point, p.machine.point t = some point → point.Endless
  plan : ∀ body, .create body ∈ p.plan → body.Endless

theorem AllEndless.next {p p' : RoundRobin} (h : AllEndless p) (hnext : p.next = some p') :
    AllEndless p' := by
  unfold RoundRobin.next at hnext
  split at hnext
  · split at hnext
    · cases hnext
    · next act plan hmode hplan =>
      obtain ⟨⟨m, events⟩, hstep, rfl⟩ := Option.map_eq_some_iff.mp hnext
      exact ⟨endless_step h.points
        (fun body hact => h.plan body (by rw [hplan, hact]; exact List.mem_cons_self)) hstep,
        fun body hbody => h.plan body (by rw [hplan]; exact List.mem_cons_of_mem _ hbody)⟩
    · obtain ⟨⟨m, events⟩, hstep, rfl⟩ := Option.map_eq_some_iff.mp hnext
      exact ⟨endless_step h.points (fun _ hact => by cases hact) hstep, h.plan⟩
  · obtain ⟨⟨m, events⟩, hadvance, rfl⟩ := Option.map_eq_some_iff.mp hnext
    refine ⟨?_, h.plan⟩
    unfold State.advance at hadvance
    split at hadvance
    · exact endless_step h.points (fun _ hact => by cases hact) hadvance
    · exact endless_step h.points (fun _ hact => by cases hact) hadvance

theorem AllEndless.init {workers : List Worker} (h : ∀ w ∈ workers, 2 ^ 31 - 1 ≤ w.rounds) :
    AllEndless (roundRobin workers) where
  points _ _ hp := nomatch hp
  plan body hbody := by
    have hmade : (.create body : Action PoliteLocals Log) ∈
        workers.map fun w => .create (.loop w 1) := by
      simpa [roundRobin] using hbody
    obtain ⟨w, hw, heq⟩ := List.mem_map.mp hmade
    cases heq
    exact ⟨h w hw, by have := h w hw; omega⟩

/-- With as many rounds as the largest `int`, `++i` overflows after the last of them: in no
run of `round_robin` is the worker ever done. -/
theorem round_robin_overflows : ¬ ∃ labels p,
    (roundRobinSystem [⟨"ping".toList, 2 ^ 31 - 1⟩]).Run
      (roundRobin [⟨"ping".toList, 2 ^ 31 - 1⟩]) labels p ∧
      (p.machine.result 0).isSome = true := by
  rintro ⟨labels, p, hrun, hdone⟩
  have hall : AllEndless p := hrun.preserves (fun _ _ _ h hnext => h.next hnext)
    (.init (by decide))
  rw [State.result] at hdone
  split at hdone
  · next hpoint => exact hall.points 0 _ hpoint
  · cases hdone

end CppWorkspace.Coro
