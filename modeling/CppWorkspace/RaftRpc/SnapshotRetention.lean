import CppWorkspace.Lib.Retention
import CppWorkspace.Lib.Transition
import CppWorkspace.RaftRpc.CounterStateMachine

/-!
Which received snapshots can be applied. `gc_snapshots_locked` evicts the
smallest index, be it the one that was saved just before.
-/

namespace CppWorkspace.RaftRpc

open Lib System

/-- The calls that change a state machine. Log indices grow; a snapshot may be
saved and never applied. -/
inductive MachineCall where
  | commit (logIdx : ℕ) (data : Buffer)
  | commitConfig (logIdx : ℕ)
  | createSnapshot (s : Snapshot)
  | saveLogicalSnpObj (s : Snapshot) (objId : ℕ) (data : Buffer)
  | applySnapshot (s : Snapshot)
deriving Repr, DecidableEq

/-- The index under which a call puts a snapshot into the map. -/
def MachineCall.snapshotIdx : MachineCall → Option ℕ
  | .createSnapshot s | .saveLogicalSnpObj s _ _ => some s.lastLogIdx
  | .commit _ _ | .commitConfig _ | .applySnapshot _ => none

/-- All indices under which a run has put snapshots. -/
def snapshotIndices (calls : List MachineCall) : Finset ℕ :=
  (calls.filterMap MachineCall.snapshotIdx).toFinset

namespace CounterStateMachine

variable (fmt : BufferFormat)

/-- One call; `none` when it is not made in this state, or throws. -/
def call (sm : CounterStateMachine) : MachineCall → Option CounterStateMachine
  | .commit logIdx data =>
      if sm.lastCommitIndex < logIdx then (sm.commit fmt logIdx data).map Prod.snd else none
  | .commitConfig logIdx =>
      if sm.lastCommitIndex < logIdx then some (sm.commitConfig logIdx) else none
  | .createSnapshot s =>
      if s.lastLogIdx = sm.lastCommitIndex then (sm.createSnapshot fmt s).map Prod.snd else none
  | .saveLogicalSnpObj s objId data => (sm.saveLogicalSnpObj fmt s objId data).map Prod.fst
  | .applySnapshot s => some (sm.applySnapshot s).2

def machineSystem : System CounterStateMachine MachineCall where
  init sm := sm = initial
  step sm c sm' := sm.call fmt c = some sm'

/-- Receiving a snapshot: `save_logical_snp_obj` with the value, then an
`apply_snapshot` that answers true and installs value and index. -/
def Receives (sm : CounterStateMachine) (s : Snapshot) (objId : ℕ) (v : BitVec 64) : Prop :=
  ∃ saved objId' applied,
    sm.saveLogicalSnpObj fmt s objId (fmt.i64.encode v) = some (saved, objId') ∧
      saved.applySnapshot s = (true, applied) ∧
      applied.currentValue = v ∧ applied.lastCommitIndex = s.lastLogIdx

variable {fmt}

theorem saveLogicalSnpObj_encode (sm : CounterStateMachine) (s : Snapshot) (objId : ℕ)
    (v : BitVec 64) :
    sm.saveLogicalSnpObj fmt s objId (fmt.i64.encode v) =
      some ({ sm with snapshots := gcSnapshotsLocked (sm.snapshots.insert s.lastLogIdx ⟨s, v⟩) },
        objId + 1) := by
  simp [saveLogicalSnpObj]

/-- In one state: the snapshot is received if it is not evicted at once. -/
theorem receives_iff (sm : CounterStateMachine) (s : Snapshot) (objId : ℕ) (v : BitVec 64) :
    sm.Receives fmt s objId v ↔ (above sm.snapshots.keys s.lastLogIdx).card < kMaxSnapshots := by
  have hfind := sm.snapshots.find?_shrinkTo_insert kMaxSnapshots s.lastLogIdx ⟨s, v⟩
  unfold Receives
  rw [saveLogicalSnpObj_encode]
  constructor
  · rintro ⟨saved, objId', applied, hsave, happly, -⟩
    obtain ⟨rfl, -⟩ := Prod.mk.inj (Option.some.inj hsave)
    by_contra hlt
    rw [if_neg hlt] at hfind
    simp [applySnapshot, gcSnapshotsLocked, hfind] at happly
  · intro hlt
    rw [if_pos hlt] at hfind
    refine ⟨_, _, _, rfl, Prod.ext ?_ rfl, ?_, ?_⟩
    · simp [applySnapshot, gcSnapshotsLocked, hfind]
    · simp [applySnapshot, gcSnapshotsLocked, hfind, currentValue]
    · simp [applySnapshot, gcSnapshotsLocked, hfind, lastCommitIndex]

theorem snapshotIndices_append (calls : List MachineCall) (c : MachineCall) :
    snapshotIndices (calls ++ [c]) = c.snapshotIdx.toFinset ∪ snapshotIndices calls := by
  cases hidx : c.snapshotIdx with
  | none => simp [snapshotIndices, hidx]
  | some i => simp [snapshotIndices, hidx, Finset.union_comm]

/-- A call that retains a snapshot. -/
theorem keepsLargest_retain {m : OrdMap ℕ SnapshotCtx} {indices : Finset ℕ}
    (h : KeepsLargest kMaxSnapshots m.keys indices) (i : ℕ) (ctx : SnapshotCtx) :
    KeepsLargest kMaxSnapshots (gcSnapshotsLocked (m.insert i ctx)).keys ({i} ∪ indices) := by
  have hinsert := h.insert i
  rw [← OrdMap.keys_insert m i ctx, Finset.insert_eq] at hinsert
  exact (OrdMap.keepsLargest_shrinkTo _ kMaxSnapshots).trans hinsert

/-- What a call does to the retained snapshots. -/
theorem call_snapshots {sm sm' : CounterStateMachine} {c : MachineCall}
    (h : sm.call fmt c = some sm') :
    (c.snapshotIdx = none ∧ sm'.snapshots = sm.snapshots) ∨
      ∃ i ctx, c.snapshotIdx = some i ∧
        sm'.snapshots = gcSnapshotsLocked (sm.snapshots.insert i ctx) := by
  cases c with
  | commit logIdx data =>
      obtain ⟨-, hcommit⟩ := Option.ite_none_right_eq_some.mp h
      obtain ⟨⟨reply, next⟩, hnext, rfl⟩ := Option.map_eq_some_iff.mp hcommit
      simp only [commit, Option.bind_eq_bind] at hnext
      obtain ⟨⟨op, delta⟩, -, hrest⟩ := Option.bind_eq_some_iff.mp hnext
      refine Or.inl ⟨rfl, ?_⟩
      split at hrest
      · cases hrest
        rfl
      · cases hrest
        rfl
  | commitConfig logIdx =>
      obtain ⟨-, heq⟩ := Option.ite_none_right_eq_some.mp h
      cases heq
      exact Or.inl ⟨rfl, rfl⟩
  | createSnapshot s =>
      obtain ⟨-, hcreate⟩ := Option.ite_none_right_eq_some.mp h
      simp only [CounterStateMachine.createSnapshot, BufferFormat.copySnapshot_eq] at hcreate
      cases hcreate
      exact Or.inr ⟨s.lastLogIdx, _, rfl, rfl⟩
  | saveLogicalSnpObj s objId data =>
      obtain ⟨⟨next, objId'⟩, hsave, rfl⟩ := Option.map_eq_some_iff.mp h
      simp only [CounterStateMachine.saveLogicalSnpObj, Option.bind_eq_bind] at hsave
      obtain ⟨⟨value, rest⟩, -, hrest⟩ := Option.bind_eq_some_iff.mp hsave
      simp only [BufferFormat.copySnapshot_eq] at hrest
      cases hrest
      exact Or.inr ⟨s.lastLogIdx, _, rfl, rfl⟩
  | applySnapshot s =>
      cases h
      refine Or.inl ⟨rfl, ?_⟩
      unfold CounterStateMachine.applySnapshot
      split <;> rfl

/-- After any run the machine retains the largest indices it was ever given. -/
theorem keepsLargest_of_run {calls : List MachineCall} {sm : CounterStateMachine}
    (hrun : (machineSystem fmt).Run initial calls sm) :
    KeepsLargest kMaxSnapshots sm.snapshots.keys (snapshotIndices calls) := by
  refine hrun.preserves_history (I := fun calls sm =>
    KeepsLargest kMaxSnapshots sm.snapshots.keys (snapshotIndices calls)) ?_
    (KeepsLargest.refl _ ∅)
  intro calls sm c sm' h hstep
  rw [snapshotIndices_append]
  rcases call_snapshots hstep with ⟨hidx, hsame⟩ | ⟨i, ctx, hidx, hretained⟩
  · rw [hidx, hsame]
    simpa using h
  · rw [hidx, hretained]
    exact keepsLargest_retain h i ctx

/-- After any run a snapshot is received exactly if fewer than three different
indices above its own have been created or saved. -/
theorem received_snapshot_applies_iff (fmt : BufferFormat) {calls : List MachineCall}
    {sm : CounterStateMachine} (hrun : (machineSystem fmt).Run initial calls sm) (s : Snapshot)
    (objId : ℕ) (v : BitVec 64) :
    sm.Receives fmt s objId v ↔
      (above (snapshotIndices calls) s.lastLogIdx).card < kMaxSnapshots := by
  rw [receives_iff]
  exact (keepsLargest_of_run hrun).card_above_lt_iff s.lastLogIdx

/-- Three transfers that were abandoned. -/
def abandonedTransfers : List MachineCall :=
  [.saveLogicalSnpObj ⟨10, 1⟩ 0 (littleEndianFormat.i64.encode 7),
    .saveLogicalSnpObj ⟨11, 1⟩ 0 (littleEndianFormat.i64.encode 8),
    .saveLogicalSnpObj ⟨12, 1⟩ 0 (littleEndianFormat.i64.encode 9)]

theorem run_abandonedTransfers :
    ∃ sm, (machineSystem littleEndianFormat).Run initial abandonedTransfers sm ∧
      sm.lastCommitIndex = 0 ∧ sm.snapshots.keys = {10, 11, 12} :=
  ⟨_, Run.cons (MachineCall.saveLogicalSnpObj ⟨10, 1⟩ 0 (littleEndianFormat.i64.encode 7)) rfl <|
    Run.cons (MachineCall.saveLogicalSnpObj ⟨11, 1⟩ 0 (littleEndianFormat.i64.encode 8)) rfl <|
    Run.cons (MachineCall.saveLogicalSnpObj ⟨12, 1⟩ 0 (littleEndianFormat.i64.encode 9)) rfl <|
    .nil, rfl, by decide⟩

/-- Two larger indices leave room for a third. -/
theorem received_snapshot_applies_over_two : ∃ sm,
    (machineSystem littleEndianFormat).Run initial abandonedTransfers sm ∧
      sm.Receives littleEndianFormat ⟨10, 1⟩ 0 42 := by
  obtain ⟨sm, hrun, -⟩ := run_abandonedTransfers
  have hiff := received_snapshot_applies_iff littleEndianFormat hrun ⟨10, 1⟩ 0 42
  exact ⟨sm, hrun, hiff.mpr (by decide)⟩

/-- Behind three abandoned transfers a snapshot at 5 is evicted when it is saved. -/
theorem received_snapshot_evicted : ∃ calls sm, ∃ s : Snapshot,
    (machineSystem littleEndianFormat).Run initial calls sm ∧ sm.lastCommitIndex < s.lastLogIdx ∧
      ¬ sm.Receives littleEndianFormat s 0 42 := by
  obtain ⟨sm, hrun, hidx, hkeys⟩ := run_abandonedTransfers
  refine ⟨abandonedTransfers, sm, ⟨5, 1⟩, hrun, by rw [hidx]; decide, ?_⟩
  rw [receives_iff, hkeys]
  decide

end CounterStateMachine

end CppWorkspace.RaftRpc
