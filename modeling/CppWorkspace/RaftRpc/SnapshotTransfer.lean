import CppWorkspace.Lib.Transition
import CppWorkspace.RaftRpc.CounterStateMachine

/-!
Any number of counter replicas over one log. A replica commits the entry after
its last committed one, creates a snapshot at its own commit index, hands a
snapshot object out, saves an object that some replica handed out, or applies
a snapshot it holds. Objects stay in flight, so they may be delivered late,
repeatedly, or never.
-/

namespace CppWorkspace.RaftRpc

open Lib

structure Cluster (ι : Type) where
  replica : ι → CounterStateMachine
  /-- Objects that `read_logical_snp_obj` returned with code 0. -/
  inFlight : List (Snapshot × Buffer)
  /-- What each commit so far returned: replica, log index, reply. -/
  replies : List (ι × Nat × Option Buffer)

inductive ClusterEvent (ι : Type) where
  | commit (r : ι)
  | createSnapshot (r : ι) (s : Snapshot)
  | readSnapshot (r : ι) (s : Snapshot)
  | saveSnapshot (r : ι) (s : Snapshot) (objId : Nat) (data : Buffer)
  | applySnapshot (r : ι) (s : Snapshot)

namespace Cluster

variable {ι : Type} [DecidableEq ι] (fmt : BufferFormat) (log : List CounterEntry)

def initial : Cluster ι := ⟨fun _ => .initial, [], []⟩

def setReplica (c : Cluster ι) (r : ι) (sm : CounterStateMachine) : Cluster ι :=
  { c with replica := Function.update c.replica r sm }

/-- One event; `none` when it is not possible in this state. Log indices start
at 1, so the entry after the commit index `i` is `log[i]`. -/
def next (c : Cluster ι) : ClusterEvent ι → Option (Cluster ι)
  | .commit r => do
      let idx := (c.replica r).lastCommitIndex + 1
      let e ← log[(c.replica r).lastCommitIndex]?
      let (reply, sm) ← (c.replica r).commitEntry fmt idx e
      pure { c.setReplica r sm with replies := c.replies ++ [(r, idx, reply)] }
  | .createSnapshot r s =>
      if s.lastLogIdx = (c.replica r).lastCommitIndex then do
        let (_, sm) ← (c.replica r).createSnapshot fmt s
        pure (c.setReplica r sm)
      else none
  | .readSnapshot r s =>
      match (c.replica r).readLogicalSnpObj fmt s with
      | ⟨0, some data, _⟩ => some { c with inFlight := c.inFlight ++ [(s, data)] }
      | _ => some c
  | .saveSnapshot r s objId data =>
      if (s, data) ∈ c.inFlight then do
        let (sm, _) ← (c.replica r).saveLogicalSnpObj fmt s objId data
        pure (c.setReplica r sm)
      else none
  | .applySnapshot r s => some (c.setReplica r ((c.replica r).applySnapshot s).2)

/-- All runs of the replicas over `log`. -/
def system : System (Cluster ι) (ClusterEvent ι) where
  init c := c = initial
  step c event c' := c.next fmt log event = some c'

def exec (c : Cluster ι) (events : List (ClusterEvent ι)) : Option (Cluster ι) :=
  events.foldlM (fun c event => c.next fmt log event) c

theorem exec_run {c c' : Cluster ι} {events : List (ClusterEvent ι)}
    (h : c.exec fmt log events = some c') : (system fmt log).Run c events c' :=
  System.Run.of_foldlM (fun _ _ _ hnext => hnext) h

end Cluster

namespace CounterStateMachine

variable (fmt : BufferFormat) {log : List CounterEntry}

/-- The invariant of one replica over `log`: its value, and the value of every
snapshot it retains, is the prefix sum of the log at the index it stands for. -/
structure Consistent (log : List CounterEntry) (sm : CounterStateMachine) : Prop where
  index_le : sm.lastCommittedIdx ≤ log.length
  value_eq : sm.value = counterAfter (log.take sm.lastCommittedIdx)
  snapshot_le : ∀ e ∈ sm.snapshots.entries, e.1 ≤ log.length
  snapshot_eq : ∀ e ∈ sm.snapshots.entries, e.2.value = counterAfter (log.take e.1)

theorem initial_consistent (log : List CounterEntry) : Consistent log initial := by
  constructor <;> simp [initial, OrdMap.empty, counterAfter]

/-- Retaining one more correct value and evicting any others keeps the
invariant: eviction only forgets. -/
theorem Consistent.retain {sm : CounterStateMachine} (h : Consistent log sm)
    {i : Nat} {ctx : SnapshotCtx} (hi : i ≤ log.length)
    (hctx : ctx.value = counterAfter (log.take i)) :
    Consistent log
      { sm with snapshots := gcSnapshotsLocked (sm.snapshots.insert i ctx) } := by
  have hentry : ∀ e ∈ (gcSnapshotsLocked (sm.snapshots.insert i ctx)).entries,
      e = (i, ctx) ∨ e ∈ sm.snapshots.entries := by
    intro e he
    rcases OrdMap.mem_insert.mp (OrdMap.mem_of_mem_shrinkTo he) with rfl | ⟨hold, _⟩
    · exact Or.inl rfl
    · exact Or.inr hold
  refine ⟨h.index_le, h.value_eq, ?_, ?_⟩
  · intro e he
    rcases hentry e he with rfl | hold
    · exact hi
    · exact h.snapshot_le e hold
  · intro e he
    rcases hentry e he with rfl | hold
    · exact hctx
    · exact h.snapshot_eq e hold

theorem commitEntry_consistent {sm sm' : CounterStateMachine} {e : CounterEntry}
    {reply : Option Buffer} (h : Consistent log sm)
    (he : log[sm.lastCommittedIdx]? = some e)
    (hcommit : sm.commitEntry fmt (sm.lastCommittedIdx + 1) e = some (reply, sm')) :
    Consistent log sm' ∧
      (repliesFrom fmt 0 log)[sm.lastCommittedIdx]? = some reply := by
  rw [commitEntry_eq, Option.some.injEq, Prod.mk.injEq] at hcommit
  obtain ⟨rfl, rfl⟩ := hcommit
  have hlt : sm.lastCommittedIdx < log.length := (List.getElem?_eq_some_iff.mp he).1
  have hsum := counterAfter_take_succ he
  constructor
  · refine ⟨hlt, ?_, h.snapshot_le, h.snapshot_eq⟩
    rw [hsum, h.value_eq]
  · rw [repliesFrom_getElem? fmt 0 log _ e he, hsum, h.value_eq]
    simp

theorem createSnapshot_consistent {sm sm' : CounterStateMachine} {s : Snapshot} {ok : Bool}
    (h : Consistent log sm) (hs : s.lastLogIdx = sm.lastCommitIndex)
    (hcreate : sm.createSnapshot fmt s = some (ok, sm')) : Consistent log sm' := by
  simp only [createSnapshot, BufferFormat.copySnapshot_eq, Option.bind_eq_bind,
    Option.bind_some, Option.pure_def, Option.some.injEq, Prod.mk.injEq] at hcreate
  obtain ⟨-, rfl⟩ := hcreate
  have hidx : s.lastLogIdx = sm.lastCommittedIdx := hs
  rw [hidx]
  exact h.retain h.index_le h.value_eq

/-- An object read with code 0 carries the prefix sum at the snapshot's index. -/
theorem readLogicalSnpObj_consistent {sm : CounterStateMachine} {s : Snapshot}
    {data : Buffer} {last : Bool} (h : Consistent log sm)
    (hread : sm.readLogicalSnpObj fmt s = ⟨0, some data, last⟩) :
    s.lastLogIdx ≤ log.length ∧
      data = fmt.i64.encode (counterAfter (log.take s.lastLogIdx)) := by
  unfold readLogicalSnpObj at hread
  cases hfind : sm.snapshots.find? s.lastLogIdx with
  | none => simp [hfind] at hread
  | some ctx =>
      have hmem := OrdMap.find?_eq_some.mp hfind
      simp only [hfind, SnpObj.mk.injEq, Option.some.injEq, true_and] at hread
      have hvalue := h.snapshot_eq _ hmem
      simp only at hvalue
      exact ⟨h.snapshot_le _ hmem, by rw [← hread.1, hvalue]⟩

theorem saveLogicalSnpObj_consistent {sm sm' : CounterStateMachine} {s : Snapshot}
    {objId objId' : Nat} (h : Consistent log sm) (hs : s.lastLogIdx ≤ log.length)
    (hsave : sm.saveLogicalSnpObj fmt s objId
      (fmt.i64.encode (counterAfter (log.take s.lastLogIdx))) = some (sm', objId')) :
    Consistent log sm' := by
  simp only [saveLogicalSnpObj, Codec.decode_encode_self, BufferFormat.copySnapshot_eq,
    Option.bind_eq_bind, Option.bind_some, Option.pure_def, Option.some.injEq,
    Prod.mk.injEq] at hsave
  obtain ⟨rfl, -⟩ := hsave
  exact h.retain hs rfl

theorem applySnapshot_consistent {sm : CounterStateMachine} (s : Snapshot)
    (h : Consistent log sm) : Consistent log (sm.applySnapshot s).2 := by
  unfold applySnapshot
  cases hfind : sm.snapshots.find? s.lastLogIdx with
  | none => exact h
  | some ctx =>
      have hmem := OrdMap.find?_eq_some.mp hfind
      exact ⟨h.snapshot_le _ hmem, h.snapshot_eq _ hmem, h.snapshot_le, h.snapshot_eq⟩

theorem applySnapshot_true {sm applied : CounterStateMachine} {s : Snapshot}
    (happly : sm.applySnapshot s = (true, applied)) :
    applied.lastCommittedIdx = s.lastLogIdx := by
  unfold applySnapshot at happly
  cases hfind : sm.snapshots.find? s.lastLogIdx with
  | none => simp [hfind] at happly
  | some ctx =>
      simp only [hfind, Prod.mk.injEq, true_and] at happly
      rw [← happly]

/-- From a consistent replica, committing the rest of the log gives the state
and the replies of a replay of the whole log. -/
theorem Consistent.replay_rest {sm : CounterStateMachine} (h : Consistent log sm) :
    ∃ final, sm.replay fmt (sm.lastCommittedIdx + 1) (log.drop sm.lastCommittedIdx) =
        some ((repliesFrom fmt 0 log).drop sm.lastCommittedIdx, final) ∧
      final.currentValue = counterAfter log ∧ final.lastCommitIndex = log.length := by
  have hreplay := replay_eq fmt sm (sm.lastCommittedIdx + 1)
    (log.drop sm.lastCommittedIdx) rfl
  rw [h.value_eq, ← repliesFrom_drop, ← counterAfter_append,
    List.take_append_drop] at hreplay
  refine ⟨_, hreplay, rfl, ?_⟩
  change sm.lastCommittedIdx + (log.drop sm.lastCommittedIdx).length = log.length
  have hle := h.index_le
  rw [List.length_drop]
  omega

end CounterStateMachine

namespace Cluster

variable {ι : Type} [DecidableEq ι] (fmt : BufferFormat) (log : List CounterEntry)

/-- The invariant of all replicas together with the objects in flight and the
replies given so far. -/
structure Consistent (c : Cluster ι) : Prop where
  replicas : ∀ r, CounterStateMachine.Consistent log (c.replica r)
  inFlight : ∀ s data, (s, data) ∈ c.inFlight → s.lastLogIdx ≤ log.length ∧
    data = fmt.i64.encode (counterAfter (log.take s.lastLogIdx))
  replies : ∀ r i reply, (r, i, reply) ∈ c.replies →
    (CounterStateMachine.repliesFrom fmt 0 log)[i - 1]? = some reply

variable {fmt log}

theorem Consistent.setReplica {c : Cluster ι} (h : Consistent fmt log c) {r : ι}
    {sm : CounterStateMachine} (hsm : CounterStateMachine.Consistent log sm) :
    Consistent fmt log (c.setReplica r sm) := by
  refine ⟨?_, h.inFlight, h.replies⟩
  intro r'
  by_cases heq : r' = r
  · subst heq
    simpa [Cluster.setReplica] using hsm
  · simpa [Cluster.setReplica, heq] using h.replicas r'

theorem next_consistent {c c' : Cluster ι} {event : ClusterEvent ι}
    (h : Consistent fmt log c) (hnext : c.next fmt log event = some c') :
    Consistent fmt log c' := by
  cases event with
  | commit r =>
      simp only [next, Option.bind_eq_bind, Option.pure_def] at hnext
      obtain ⟨e, he, hnext⟩ := Option.bind_eq_some_iff.mp hnext
      obtain ⟨⟨reply, sm⟩, hcommit, hnext⟩ := Option.bind_eq_some_iff.mp hnext
      obtain ⟨hsm, hreply⟩ :=
        CounterStateMachine.commitEntry_consistent fmt (h.replicas r) he hcommit
      have hset := h.setReplica (r := r) hsm
      obtain rfl := Option.some.inj hnext
      refine ⟨hset.replicas, hset.inFlight, ?_⟩
      intro r' i reply' hmem
      rcases List.mem_append.mp hmem with hold | hnew
      · exact h.replies r' i reply' hold
      · obtain ⟨-, rfl, rfl⟩ : r' = r ∧ i = (c.replica r).lastCommitIndex + 1 ∧
            reply' = reply := by simpa using hnew
        exact hreply
  | createSnapshot r s =>
      simp only [next, Option.bind_eq_bind, Option.pure_def] at hnext
      split at hnext
      · next hs =>
        obtain ⟨⟨ok, sm⟩, hcreate, hnext⟩ := Option.bind_eq_some_iff.mp hnext
        obtain rfl := Option.some.inj hnext
        exact h.setReplica
          (CounterStateMachine.createSnapshot_consistent fmt (h.replicas r) hs hcreate)
      · cases hnext
  | readSnapshot r s =>
      simp only [next] at hnext
      split at hnext
      · next data last hread =>
        obtain rfl := Option.some.inj hnext
        refine ⟨h.replicas, ?_, h.replies⟩
        intro s' data' hmem
        rcases List.mem_append.mp hmem with hold | hnew
        · exact h.inFlight s' data' hold
        · obtain ⟨rfl, rfl⟩ : s' = s ∧ data' = data := by simpa using hnew
          exact CounterStateMachine.readLogicalSnpObj_consistent fmt (h.replicas r) hread
      · simp only [Option.some.injEq] at hnext
        exact hnext ▸ h
  | saveSnapshot r s objId data =>
      simp only [next, Option.bind_eq_bind, Option.pure_def] at hnext
      split at hnext
      · next hmem =>
        obtain ⟨hle, rfl⟩ := h.inFlight s data hmem
        obtain ⟨⟨sm, objId'⟩, hsave, hnext⟩ := Option.bind_eq_some_iff.mp hnext
        obtain rfl := Option.some.inj hnext
        exact h.setReplica
          (CounterStateMachine.saveLogicalSnpObj_consistent fmt (h.replicas r) hle hsave)
      · cases hnext
  | applySnapshot r s =>
      simp only [next, Option.some.injEq] at hnext
      subst hnext
      exact h.setReplica (CounterStateMachine.applySnapshot_consistent s (h.replicas r))

variable (fmt log)

theorem consistent_invariant :
    (system (ι := ι) fmt log).Invariant (Consistent fmt log) where
  init := by
    rintro c rfl
    refine ⟨fun _ => CounterStateMachine.initial_consistent log, ?_, ?_⟩
    · intro s data hmem
      cases hmem
    · intro r i reply hmem
      cases hmem
  step := fun _ _ _ h hnext => next_consistent h hnext

/-- A full replay of the log from a fresh machine. -/
theorem full_replay :
    ∃ full, CounterStateMachine.initial.replay fmt 1 log =
        some (CounterStateMachine.repliesFrom fmt 0 log, full) ∧
      full.currentValue = counterAfter log ∧ full.lastCommitIndex = log.length := by
  exact (CounterStateMachine.initial_consistent log).replay_rest fmt

/-- Snapshot plus log tail is full replay. In every reachable cluster: each
reply any replica ever gave is the one the full replay gives at that index, and
a replica whose `apply_snapshot(s)` answers true ends, after committing the
entries behind `s`, with the value and commit index of the full replay and
with the full replay's replies for those entries. -/
theorem snapshot_and_tail_eq_full_replay {c : Cluster ι}
    (hc : (system fmt log).Reachable c) :
    ∃ fullReplies full,
      CounterStateMachine.initial.replay fmt 1 log = some (fullReplies, full) ∧
      (∀ r i reply, (r, i, reply) ∈ c.replies → fullReplies[i - 1]? = some reply) ∧
      ∀ r s applied, (c.replica r).applySnapshot s = (true, applied) →
        ∃ final, applied.replay fmt (s.lastLogIdx + 1) (log.drop s.lastLogIdx) =
            some (fullReplies.drop s.lastLogIdx, final) ∧
          final.currentValue = full.currentValue ∧
          final.lastCommitIndex = full.lastCommitIndex := by
  have hinv := (consistent_invariant fmt log).reachable hc
  obtain ⟨full, hfull, hvalue, hindex⟩ := full_replay fmt log
  refine ⟨_, full, hfull, hinv.replies, ?_⟩
  intro r s applied happly
  have happlied : CounterStateMachine.Consistent log applied := by
    simpa [happly] using
      CounterStateMachine.applySnapshot_consistent s (hinv.replicas r)
  obtain ⟨final, hreplay, hfinalValue, hfinalIndex⟩ := happlied.replay_rest fmt
  rw [CounterStateMachine.applySnapshot_true happly] at hreplay
  exact ⟨final, hreplay, hfinalValue.trans hvalue.symm, hfinalIndex.trans hindex.symm⟩

/-- Replica `true` catches up to replica `false` by a snapshot at index 3. -/
def catchUpEvents : List (ClusterEvent Bool) :=
  [.commit false, .commit false, .commit false, .createSnapshot false ⟨3, 1⟩,
    .commit true, .readSnapshot false ⟨3, 1⟩,
    .saveSnapshot true ⟨3, 1⟩ 0 [5, 0, 0, 0, 0, 0, 0, 0]]

theorem snapshot_and_tail_catch_up :
    ∃ c applied final,
      initial.exec littleEndianFormat [.add 5, .get, .config, .add 7] catchUpEvents = some c ∧
      (c.replica true).applySnapshot ⟨3, 1⟩ = (true, applied) ∧
      applied.replay littleEndianFormat 4 [.add 7] =
        some ([some [12, 0, 0, 0, 0, 0, 0, 0]], final) ∧
      final.currentValue = 12 ∧ final.lastCommitIndex = 4 := by
  let log : List CounterEntry := [.add 5, .get, .config, .add 7]
  obtain ⟨c, hexec⟩ : ∃ c, initial.exec littleEndianFormat log catchUpEvents = some c :=
    ⟨_, rfl⟩
  obtain ⟨applied, happly⟩ : ∃ applied,
      (c.replica true).applySnapshot ⟨3, 1⟩ = (true, applied) := by
    cases hexec
    exact ⟨_, rfl⟩
  have hreach : (system littleEndianFormat log).Reachable c :=
    ⟨initial, catchUpEvents, rfl, exec_run _ _ hexec⟩
  obtain ⟨replies, full, hfull, -, htail⟩ :=
    snapshot_and_tail_eq_full_replay littleEndianFormat log hreach
  obtain ⟨final, hreplay, hvalue, hindex⟩ := htail true ⟨3, 1⟩ applied happly
  have hfull' : CounterStateMachine.initial.replay littleEndianFormat 1 log = some (_, _) := rfl
  rw [hfull, Option.some.injEq, Prod.mk.injEq] at hfull'
  obtain ⟨rfl, rfl⟩ := hfull'
  exact ⟨c, applied, final, hexec, happly, hreplay, hvalue, hindex⟩

end Cluster

end CppWorkspace.RaftRpc
