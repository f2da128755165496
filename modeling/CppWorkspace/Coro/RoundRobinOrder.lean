import CppWorkspace.Coro.RoundRobin

/-!
The order of the rounds. In every round the workers that are left come in the order in
which they were started: a worker that takes its turn goes to the end of the queue, or
it is done and leaves it.
-/

namespace CppWorkspace.Coro

open Lib System Relation

namespace View

theorem goTo_self (v : View) (t : ℕ) (p : Point PoliteLocals Unit) :
    (v.goTo t p).points t = some p := Function.update_self ..

theorem goTo_other (v : View) {t other : ℕ} (hne : other ≠ t) (p : Point PoliteLocals Unit) :
    (v.goTo t p).points other = v.points other := Function.update_of_ne hne ..

/-- A worker has taken its turn: it has logged its entry and yielded, or it is done. -/
def afterTurn (v : View) (t : ℕ) (w : Worker) (i : ℤ) : View :=
  if i ≤ w.rounds then
    { v.goTo t (.scheduled (.loop w (i + 1))) with
      pending := none, ready := v.ready ++ [t], log := v.log ++ [w.entry i] }
  else { v.goTo t (.finished ()) with pending := none }

theorem turn {v : View} {t : ℕ} {resumer : Resumer} {w : Worker} {i : ℤ}
    (hpending : v.pending = some (t, resumer))
    (hpoint : v.points t = some (.initial (.loop w i)) ∨
      v.points t = some (.scheduled (.loop w i)))
    (hfits : i ≤ w.rounds → FitsInt (i + 1)) : ReflTransGen Leads v (v.afterTurn t w i) := by
  have henter := Leads.enter hpending hpoint
  have hself := v.goTo_self t (.running (.loop w i))
  by_cases hle : i ≤ w.rounds
  · have hafter := ((((ReflTransGen.single henter).tail (.looks rfl rfl hself hle)).tail
      (.pushes rfl rfl (goTo_self _ t _))).tail (.yields rfl rfl (goTo_self _ t _) (hfits hle)))
    rw [afterTurn, if_pos hle]
    convert hafter using 1
    simp [goTo]
  · have hafter := (ReflTransGen.single henter).tail (.returns rfl rfl hself (not_le.mp hle))
    rw [afterTurn, if_neg hle]
    convert hafter using 1
    simp [goTo]

/-- `run()` takes the first coroutine from the queue and lets it have its turn. -/
theorem runTurn {v : View} {t : ℕ} {rest : List ℕ} {w : Worker} {i : ℤ}
    (hpending : v.pending = none) (hstack : v.stack = []) (hmode : v.mode = .test)
    (hready : v.ready = t :: rest) (hpoint : v.points t = some (.scheduled (.loop w i)))
    (hfits : i ≤ w.rounds → FitsInt (i + 1)) :
    ReflTransGen Leads v ({ v with ready := rest }.afterTurn t w i) := by
  have hpopped := ((ReflTransGen.single (Leads.tests hpending hstack hmode hready)).tail
    (.moves hpending hstack rfl)).tail (.pops hpending hstack rfl hready)
  have hturn := hpopped.trans (turn rfl (Or.inr hpoint) hfits)
  by_cases hle : i ≤ w.rounds
  · rw [afterTurn, if_pos hle] at hturn ⊢
    convert hturn.tail (.comesBack rfl hstack rfl) using 1
    simp [goTo, hmode]
  · rw [afterTurn, if_neg hle] at hturn ⊢
    convert hturn.tail (.comesBack rfl hstack rfl) using 1
    simp [goTo, hmode]

end View

/-- The workers with their tasks. -/
abbrev Workers := List (ℕ × Worker)

def tasksOf (workers : Workers) : List ℕ := workers.map Prod.fst

theorem tasksOf_append (first second : Workers) :
    tasksOf (first ++ second) = tasksOf first ++ tasksOf second := List.map_append

/-- Those who take part in a round. -/
def remaining (k : ℤ) (workers : Workers) : Workers :=
  workers.filter fun worker => k ≤ worker.2.rounds

theorem remaining_cons (k : ℤ) (t : ℕ) (w : Worker) (workers : Workers) :
    remaining k ((t, w) :: workers) =
      (if k ≤ w.rounds then [(t, w)] else []) ++ remaining k workers := by
  by_cases hle : k ≤ w.rounds
  · simp [remaining, hle]
  · simp [remaining, hle]

theorem roundLog_cons (k : ℤ) (t : ℕ) (w : Worker) (workers : Workers) :
    roundLog (((t, w) :: workers).map Prod.snd) k =
      (if k ≤ w.rounds then [w.entry k] else []) ++ roundLog (workers.map Prod.snd) k := by
  by_cases hle : k ≤ w.rounds
  · simp [roundLog, hle]
  · simp [roundLog, hle]

/-- Round `k`: the first workers have still to take their turn, the others have taken it
and wait for the next; whoever is neither is done. -/
structure Round (v : View) (waits : PoliteLocals → Point PoliteLocals Unit) (k : ℤ)
    (todo acc : Workers) : Prop where
  waiting : ∀ worker ∈ todo, v.points worker.1 = some (waits (.loop worker.2 k))
  turned : ∀ worker ∈ acc, v.points worker.1 = some (.scheduled (.loop worker.2 (k + 1)))
  nodup : (tasksOf (todo ++ acc)).Nodup
  created : ∀ t ∈ tasksOf (todo ++ acc), t < v.created
  finished : ∀ t < v.created, t ∉ tasksOf (todo ++ acc) → v.points t = some (.finished ())

section Rounds

variable {v v' : View} {waits : PoliteLocals → Point PoliteLocals Unit} {k : ℤ} {t : ℕ} {w : Worker}
  {todo acc : Workers}

/-- What a round needs of the view. -/
theorem Round.same (h : Round v waits k todo acc) (hpoints : v'.points = v.points)
    (hcreated : v'.created = v.created) : Round v' waits k todo acc := by
  obtain ⟨htodo, hacc, hnodup, hlt, hfinished⟩ := h
  rw [← hpoints] at htodo hacc hfinished
  rw [← hcreated] at hlt hfinished
  exact ⟨htodo, hacc, hnodup, hlt, hfinished⟩

/-- One more worker is made. -/
theorem Round.create (h : Round v .initial 1 todo []) (w : Worker) :
    Round { v.goTo v.created (.initial (.loop w 1)) with created := v.created + 1 } .initial 1
      (todo ++ [(v.created, w)]) [] := by
  obtain ⟨hwaiting, -, hnodup, hlt, hfinished⟩ := h
  rw [List.append_nil] at hnodup hlt hfinished
  have hfresh : v.created ∉ tasksOf todo := fun hmem => (hlt _ hmem).false
  have htasks : (tasksOf (todo ++ [(v.created, w)] ++ [])).Perm (v.created :: tasksOf todo) := by
    rw [List.append_nil, tasksOf_append]
    exact List.perm_append_singleton _ _
  constructor
  · intro worker hmem
    rcases List.mem_append.mp hmem with hold | hnew
    · have hne : worker.1 ≠ v.created := (hlt _ (List.mem_map.mpr ⟨worker, hold, rfl⟩)).ne
      exact (v.goTo_other hne _).trans (hwaiting worker hold)
    · rw [List.mem_singleton.mp hnew]
      exact v.goTo_self v.created _
  · exact fun worker hnone => (List.not_mem_nil hnone).elim
  · exact htasks.nodup_iff.mpr (List.nodup_cons.mpr ⟨hfresh, hnodup⟩)
  · intro t hmem
    rcases List.mem_cons.mp (htasks.mem_iff.mp hmem) with rfl | hold
    · exact Nat.lt_succ_self _
    · exact Nat.lt_succ_of_lt (hlt t hold)
  · intro t hle hnot
    have hnot' : t ∉ v.created :: tasksOf todo := fun hmem => hnot (htasks.mem_iff.mpr hmem)
    have hne : t ≠ v.created := List.ne_of_not_mem_cons hnot'
    have hltCreated : t < v.created := lt_of_le_of_ne (Nat.lt_succ_iff.mp hle) hne
    exact (v.goTo_other hne _).trans
      (hfinished t hltCreated (List.not_mem_of_not_mem_cons hnot'))

/-- The first worker takes its turn. -/
theorem Round.afterTurn (h : Round v waits k ((t, w) :: todo) acc) :
    Round (v.afterTurn t w k) waits k todo
      (acc ++ if k ≤ w.rounds then [(t, w)] else []) := by
  have hnodup : (t :: tasksOf (todo ++ acc)).Nodup := h.nodup
  obtain ⟨hfresh, hrest⟩ := List.nodup_cons.mp hnodup
  have hother : ∀ worker ∈ todo ++ acc, worker.1 ≠ t := by
    rintro worker hmem rfl
    exact hfresh (List.mem_map.mpr ⟨worker, hmem, rfl⟩)
  have hwaiting : ∀ point, ∀ worker ∈ todo,
      (v.goTo t point).points worker.1 = some (waits (.loop worker.2 k)) := by
    intro point worker hmem
    exact (v.goTo_other (hother worker (List.mem_append_left _ hmem)) _).trans
      (h.waiting worker (List.mem_cons_of_mem _ hmem))
  by_cases hle : k ≤ w.rounds
  · rw [View.afterTurn, if_pos hle, if_pos hle]
    have htasks : (tasksOf (todo ++ (acc ++ [(t, w)]))).Perm (t :: tasksOf (todo ++ acc)) := by
      rw [← List.append_assoc, tasksOf_append]
      exact List.perm_append_singleton _ _
    constructor
    · exact hwaiting _
    · intro worker hmem
      rcases List.mem_append.mp hmem with hold | hnew
      · exact (v.goTo_other (hother worker (List.mem_append_right _ hold)) _).trans
          (h.turned worker hold)
      · rw [List.mem_singleton.mp hnew]
        exact v.goTo_self t _
    · exact htasks.nodup_iff.mpr hnodup
    · exact fun task htask => h.created task (htasks.mem_iff.mp htask)
    · intro task hlt hnot
      have hnot' : task ∉ t :: tasksOf (todo ++ acc) := fun hmem => hnot (htasks.mem_iff.mpr hmem)
      exact (v.goTo_other (List.ne_of_not_mem_cons hnot') _).trans
        (h.finished task hlt hnot')
  · rw [View.afterTurn, if_neg hle, if_neg hle, List.append_nil]
    constructor
    · exact hwaiting _
    · intro worker hmem
      exact (v.goTo_other (hother worker (List.mem_append_right _ hmem)) _).trans
        (h.turned worker hmem)
    · exact hrest
    · exact fun task htask => h.created task (List.mem_cons_of_mem _ htask)
    · intro task hlt hnot
      by_cases heq : task = t
      · rw [heq]
        exact v.goTo_self t _
      · exact (v.goTo_other heq _).trans
          (h.finished task hlt (List.not_mem_cons_of_ne_of_not_mem heq hnot))

theorem View.afterTurn_log (v : View) (t : ℕ) (w : Worker) (k : ℤ) :
    (v.afterTurn t w k).log = v.log ++ if k ≤ w.rounds then [w.entry k] else [] := by
  unfold View.afterTurn
  split
  · rfl
  · exact (List.append_nil _).symm

theorem View.afterTurn_ready (v : View) (t : ℕ) (w : Worker) (k : ℤ) :
    (v.afterTurn t w k).ready =
      v.ready ++ tasksOf (if k ≤ w.rounds then [(t, w)] else []) := by
  unfold View.afterTurn
  split
  · rfl
  · exact (List.append_nil _).symm

theorem View.afterTurn_rest (v : View) (t : ℕ) (w : Worker) (k : ℤ) :
    (v.afterTurn t w k).pending = none ∧ (v.afterTurn t w k).stack = v.stack ∧
      (v.afterTurn t w k).mode = v.mode ∧ (v.afterTurn t w k).created = v.created := by
  unfold View.afterTurn
  split
  · exact ⟨rfl, rfl, rfl, rfl⟩
  · exact ⟨rfl, rfl, rfl, rfl⟩

/-- `run()` is at its test, in round `k`. -/
structure Turns (v : View) (k : ℤ) (todo acc : Workers) : Prop where
  round : Round v .scheduled k todo acc
  ready : v.ready = tasksOf (todo ++ acc)
  pending : v.pending = none
  stack : v.stack = []
  mode : v.mode = .test

/-- The counters of the workers that take part in a round can be incremented. -/
theorem fits_of_bound (hk : 1 ≤ k) (hint : w.rounds < 2 ^ 31 - 1) (hle : k ≤ w.rounds) :
    FitsInt (k + 1) := by
  constructor <;> omega

/-- A whole round of `run()`. -/
theorem Turns.all (h : Turns v k todo acc) (hk : 1 ≤ k)
    (hint : ∀ worker ∈ todo, worker.2.rounds < 2 ^ 31 - 1) : ∃ v', ReflTransGen View.Leads v v' ∧
    v'.log = v.log ++ roundLog (todo.map Prod.snd) k ∧ v'.created = v.created ∧
    Turns v' k [] (acc ++ remaining k todo) := by
  induction todo generalizing v acc with
  | nil =>
      refine ⟨v, .refl, (List.append_nil _).symm, rfl, ?_⟩
      rw [remaining, List.filter_nil, List.append_nil]
      exact h
  | cons worker todo ih =>
      obtain ⟨t, w⟩ := worker
      have hready : v.ready = t :: tasksOf (todo ++ acc) := h.ready
      have hturn := View.runTurn h.pending h.stack h.mode hready
        (h.round.waiting (t, w) List.mem_cons_self)
        (fits_of_bound hk (hint (t, w) List.mem_cons_self))
      obtain ⟨hpending, hstack, hmode, hcreated⟩ :=
        View.afterTurn_rest { v with ready := tasksOf (todo ++ acc) } t w k
      have hround : Round { v with ready := tasksOf (todo ++ acc) } .scheduled k
          ((t, w) :: todo) acc := h.round.same rfl rfl
      have hnext : Turns ({ v with ready := tasksOf (todo ++ acc) }.afterTurn t w k) k todo
          (acc ++ if k ≤ w.rounds then [(t, w)] else []) := by
        refine ⟨hround.afterTurn, ?_, hpending, hstack.trans h.stack, hmode.trans h.mode⟩
        rw [View.afterTurn_ready, ← List.append_assoc]
        exact (tasksOf_append _ _).symm
      obtain ⟨v', hleads, hlog, hcreated', hlast⟩ := ih hnext fun worker hmem =>
        hint worker (List.mem_cons_of_mem _ hmem)
      refine ⟨v', hturn.trans hleads, ?_, hcreated'.trans hcreated, ?_⟩
      · rw [hlog, View.afterTurn_log, roundLog_cons, List.append_assoc]
      · rw [remaining_cons, ← List.append_assoc]
        exact hlast

/-- The round is over, and the next begins. -/
theorem Turns.next (h : Turns v k [] acc) : Turns v (k + 1) acc [] where
  round := by
    have htasks : acc ++ [] = [] ++ acc := List.append_nil acc
    obtain ⟨-, hacc, hnodup, hlt, hfinished⟩ := h.round
    rw [← htasks] at hnodup hlt hfinished
    exact ⟨hacc, fun _ hnone => (List.not_mem_nil hnone).elim, hnodup, hlt, hfinished⟩
  ready := by
    rw [List.append_nil]
    exact h.ready
  pending := h.pending
  stack := h.stack
  mode := h.mode

theorem roundLog_remaining {j k : ℤ} (hle : k ≤ j) (workers : Workers) :
    roundLog ((remaining k workers).map Prod.snd) j = roundLog (workers.map Prod.snd) j := by
  induction workers with
  | nil => rfl
  | cons worker workers ih =>
      obtain ⟨t, w⟩ := worker
      rw [remaining_cons, roundLog_cons, ← ih]
      by_cases hk : k ≤ w.rounds
      · rw [if_pos hk]
        exact roundLog_cons j t w _
      · rw [if_neg hk, if_neg (by omega)]
        rfl

/-- The rounds of `run()` until no worker is left. -/
theorem Turns.rounds {workers : Workers} {m : ℕ} (h : Turns v k workers []) (hk : 1 ≤ k)
    (hint : ∀ worker ∈ workers, worker.2.rounds < 2 ^ 31 - 1)
    (hbound : ∀ worker ∈ workers, worker.2.rounds < k + m) :
    ∃ v' last, ReflTransGen View.Leads v v' ∧
      v'.log = v.log ++ (List.range m).flatMap
        (fun j : ℕ => roundLog (workers.map Prod.snd) (k + j)) ∧
      v'.created = v.created ∧ Turns v' last [] [] := by
  induction m generalizing v k workers with
  | zero =>
      obtain ⟨v', hleads, hlog, hcreated, hlast⟩ := h.all hk hint
      have hnone : remaining k workers = [] :=
        List.filter_eq_nil_iff.mpr fun worker hworker => by
          have hlt := hbound worker hworker
          simp only [decide_eq_true_eq]
          omega
      have hempty : roundLog (workers.map Prod.snd) k = [] := by
        rw [← roundLog_remaining le_rfl, hnone]
        rfl
      rw [hnone] at hlast
      rw [hempty] at hlog
      exact ⟨v', k, hleads, hlog, hcreated, hlast⟩
  | succ m ih =>
      obtain ⟨v₁, hfirst, hlog₁, hcreated₁, hround⟩ := h.all hk hint
      obtain ⟨v₂, last, hrest, hlog₂, hcreated₂, hend⟩ := ih hround.next (by omega)
        (fun worker hworker => hint worker (List.mem_filter.mp hworker).1) fun worker hworker => by
          have hlt := hbound worker (List.mem_filter.mp hworker).1
          push_cast at hlt
          omega
      refine ⟨v₂, last, hfirst.trans hrest, ?_, hcreated₂.trans hcreated₁, hend⟩
      rw [hlog₂, hlog₁, List.append_assoc, List.range_succ_eq_map, List.flatMap_cons,
        List.flatMap_map]
      congr 1
      simp only [List.nil_append, Nat.cast_zero, add_zero]
      congr 1
      refine List.flatMap_congr fun j _ => ?_
      rw [roundLog_remaining (by omega)]
      congr 1
      push_cast
      omega

end Rounds

end CppWorkspace.Coro
