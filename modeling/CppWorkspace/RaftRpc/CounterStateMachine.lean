import CppWorkspace.Lib.OrdMap
import CppWorkspace.RaftRpc.Buffer

/-!
`counter_state_machine.hxx`: the replicated counter. `ADD` and `GET` go
through the log; a logical snapshot is one object holding the counter value,
and the last few snapshots are kept in memory. Values are 64-bit words.
-/

namespace CppWorkspace.RaftRpc

open Lib

/-- `op_type`, an enumeration over `uint8_t`: a byte other than the two
enumerators is a value of the type as well. -/
inductive OpType where
  | opAdd
  | opGet
  | other (raw : UInt8)
deriving Repr, DecidableEq

def OpType.toU8 : OpType → UInt8
  | .opAdd => 0
  | .opGet => 1
  | .other raw => raw

/-- `static_cast<op_type>(bs.get_u8())`. -/
def OpType.ofU8 (raw : UInt8) : OpType :=
  if raw = 0 then .opAdd else if raw = 1 then .opGet else .other raw

/-- `snapshot_ctx`; the field `meta` of the source is `snapshotMeta` here. -/
structure SnapshotCtx where
  snapshotMeta : Snapshot
  value : BitVec 64
deriving Repr, DecidableEq

structure CounterStateMachine where
  value : BitVec 64
  lastCommittedIdx : Nat
  snapshots : OrdMap Nat SnapshotCtx

namespace CounterStateMachine

variable (fmt : BufferFormat)

/-- The constructor. -/
def initial : CounterStateMachine := ⟨0, 0, .empty⟩

def encLog (op : OpType) (delta : BitVec 64) : Buffer :=
  fmt.u8.encode op.toU8 ++ fmt.i64.encode delta

/-- `dec_log`; a buffer that is too short makes NuRaft's serializer throw,
here `none`. -/
def decLog (data : Buffer) : Option (OpType × BitVec 64) := do
  let (raw, rest) ← fmt.u8.decode data
  let (delta, _) ← fmt.i64.decode rest
  pure (.ofU8 raw, delta)

/-- `commit`: the reply buffer and the machine after the entry. -/
def commit (sm : CounterStateMachine) (logIdx : Nat) (data : Buffer) :
    Option (Buffer × CounterStateMachine) := do
  let (op, delta) ← decLog fmt data
  if op = .opAdd then
    let result := sm.value + delta
    pure (fmt.i64.encode result, { sm with value := result, lastCommittedIdx := logIdx })
  else
    pure (fmt.i64.encode sm.value, { sm with lastCommittedIdx := logIdx })

def commitConfig (sm : CounterStateMachine) (logIdx : Nat) : CounterStateMachine :=
  { sm with lastCommittedIdx := logIdx }

/-- What `read_logical_snp_obj` hands back: the return code, `data_out` and
`is_last_obj`. -/
structure SnpObj where
  code : Int
  dataOut : Option Buffer
  isLastObj : Bool
deriving Repr, DecidableEq

def readLogicalSnpObj (sm : CounterStateMachine) (s : Snapshot) : SnpObj :=
  match sm.snapshots.find? s.lastLogIdx with
  | none => ⟨-1, none, true⟩
  | some ctx => ⟨0, some (fmt.i64.encode ctx.value), true⟩

def kMaxSnapshots : Nat := 3

/-- `gc_snapshots_locked`: erase the smallest index while more than
`kMaxSnapshots` are kept. -/
def gcSnapshotsLocked (snapshots : OrdMap Nat SnapshotCtx) : OrdMap Nat SnapshotCtx :=
  snapshots.shrinkTo kMaxSnapshots

/-- `save_logical_snp_obj`: the machine after it and the next object id. -/
def saveLogicalSnpObj (sm : CounterStateMachine) (s : Snapshot) (objId : Nat)
    (data : Buffer) : Option (CounterStateMachine × Nat) := do
  let (snapshotValue, _) ← fmt.i64.decode data
  let ss ← fmt.copySnapshot s
  let snapshots := gcSnapshotsLocked (sm.snapshots.insert s.lastLogIdx ⟨ss, snapshotValue⟩)
  pure ({ sm with snapshots := snapshots }, objId + 1)

def applySnapshot (sm : CounterStateMachine) (s : Snapshot) : Bool × CounterStateMachine :=
  match sm.snapshots.find? s.lastLogIdx with
  | none => (false, sm)
  | some ctx => (true, { sm with value := ctx.value, lastCommittedIdx := s.lastLogIdx })

/-- `create_snapshot`; `when_done` is always called with `true`. -/
def createSnapshot (sm : CounterStateMachine) (s : Snapshot) :
    Option (Bool × CounterStateMachine) := do
  let ss ← fmt.copySnapshot s
  let snapshots := gcSnapshotsLocked (sm.snapshots.insert s.lastLogIdx ⟨ss, sm.value⟩)
  pure (true, { sm with snapshots := snapshots })

def currentValue (sm : CounterStateMachine) : BitVec 64 := sm.value

def lastCommitIndex (sm : CounterStateMachine) : Nat := sm.lastCommittedIdx

end CounterStateMachine

@[simp] theorem OpType.ofU8_toU8_opAdd : OpType.ofU8 OpType.opAdd.toU8 = .opAdd := rfl

@[simp] theorem OpType.ofU8_toU8_opGet : OpType.ofU8 OpType.opGet.toU8 = .opGet := rfl

/-- One entry of the replicated log: an application entry made by `enc_log`,
or a cluster configuration. -/
inductive CounterEntry where
  | add (delta : BitVec 64)
  | get
  | config
deriving Repr, DecidableEq

/-- What an entry adds to the counter. -/
def CounterEntry.delta : CounterEntry → BitVec 64
  | .add d => d
  | .get | .config => 0

/-- The counter after a log: the purpose of the whole component. -/
def counterAfter : List CounterEntry → BitVec 64
  | [] => 0
  | e :: rest => e.delta + counterAfter rest

@[simp] theorem counterAfter_append (first second : List CounterEntry) :
    counterAfter (first ++ second) = counterAfter first + counterAfter second := by
  induction first with
  | nil => simp [counterAfter]
  | cons e rest ih => simp [counterAfter, ih, BitVec.add_assoc]

/-- The prefix sum moves by the entry's own delta. -/
theorem counterAfter_take_succ {log : List CounterEntry} {i : Nat} {e : CounterEntry}
    (he : log[i]? = some e) :
    counterAfter (log.take (i + 1)) = counterAfter (log.take i) + e.delta := by
  rw [List.take_add_one, he]
  simp [counterAfter]

namespace CounterStateMachine

variable (fmt : BufferFormat)

/-- NuRaft hands an application entry to `commit` and a configuration to
`commit_config`, which has no reply. -/
def commitEntry (sm : CounterStateMachine) (logIdx : Nat) :
    CounterEntry → Option (Option Buffer × CounterStateMachine)
  | .add d => (sm.commit fmt logIdx (encLog fmt .opAdd d)).map fun p => (some p.1, p.2)
  | .get => (sm.commit fmt logIdx (encLog fmt .opGet 0)).map fun p => (some p.1, p.2)
  | .config => some (none, sm.commitConfig logIdx)

/-- Commit a list of entries in index order, the first at `logIdx`; the
replies come back in the same order. -/
def replay (sm : CounterStateMachine) (logIdx : Nat) :
    List CounterEntry → Option (List (Option Buffer) × CounterStateMachine)
  | [] => some ([], sm)
  | e :: rest => do
      let (reply, sm) ← sm.commitEntry fmt logIdx e
      let (replies, sm) ← sm.replay (logIdx + 1) rest
      pure (reply :: replies, sm)

/-- The reply an entry gives when the counter holds `value` after it. -/
def replyOf (value : BitVec 64) : CounterEntry → Option Buffer
  | .add _ | .get => some (fmt.i64.encode value)
  | .config => none

@[simp] theorem decLog_encLog_opAdd (delta : BitVec 64) :
    decLog fmt (encLog fmt .opAdd delta) = some (.opAdd, delta) := by
  simp [decLog, encLog, fmt.u8.decode_encode]

@[simp] theorem decLog_encLog_opGet (delta : BitVec 64) :
    decLog fmt (encLog fmt .opGet delta) = some (.opGet, delta) := by
  simp [decLog, encLog, fmt.u8.decode_encode]

/-- Everything a committed entry does: the counter moves by the entry's
delta, the commit index becomes the entry's index, the snapshots stay. -/
theorem commitEntry_eq (sm : CounterStateMachine) (logIdx : Nat) (e : CounterEntry) :
    sm.commitEntry fmt logIdx e =
      some (replyOf fmt (sm.value + e.delta) e,
        { sm with value := sm.value + e.delta, lastCommittedIdx := logIdx }) := by
  cases e with
  | add d => simp [commitEntry, commit, replyOf, CounterEntry.delta]
  | get => simp [commitEntry, commit, replyOf, CounterEntry.delta]
  | config => simp [commitEntry, commitConfig, replyOf, CounterEntry.delta]

/-- The replies of a replay that starts with the counter at `value`. -/
def repliesFrom (value : BitVec 64) : List CounterEntry → List (Option Buffer)
  | [] => []
  | e :: rest => replyOf fmt (value + e.delta) e :: repliesFrom (value + e.delta) rest

theorem replay_eq (sm : CounterStateMachine) (logIdx : Nat) (log : List CounterEntry)
    (hidx : logIdx = sm.lastCommittedIdx + 1) :
    sm.replay fmt logIdx log =
      some (repliesFrom fmt sm.value log,
        { sm with
          value := sm.value + counterAfter log
          lastCommittedIdx := sm.lastCommittedIdx + log.length }) := by
  induction log generalizing sm logIdx with
  | nil => simp [replay, repliesFrom, counterAfter]
  | cons e rest ih =>
      have hrest := ih { sm with value := sm.value + e.delta, lastCommittedIdx := logIdx }
        (logIdx + 1) rfl
      simp only [replay, commitEntry_eq, Option.bind_eq_bind, Option.bind_some, hrest,
        repliesFrom, counterAfter, List.length_cons, Option.pure_def]
      rw [hidx, BitVec.add_assoc]
      have hlen : sm.lastCommittedIdx + 1 + rest.length =
          sm.lastCommittedIdx + (rest.length + 1) := by omega
      rw [hlen]

theorem repliesFrom_append (value : BitVec 64) (first second : List CounterEntry) :
    repliesFrom fmt value (first ++ second) =
      repliesFrom fmt value first ++
        repliesFrom fmt (value + counterAfter first) second := by
  induction first generalizing value with
  | nil => simp [repliesFrom, counterAfter]
  | cons e rest ih => simp [repliesFrom, counterAfter, ih, BitVec.add_assoc]

@[simp] theorem repliesFrom_length (value : BitVec 64) (log : List CounterEntry) :
    (repliesFrom fmt value log).length = log.length := by
  induction log generalizing value with
  | nil => rfl
  | cons e rest ih => simp [repliesFrom, ih]

/-- Replies after a position depend on the prefix only through its sum. -/
theorem repliesFrom_drop (log : List CounterEntry) (i : Nat) :
    (repliesFrom fmt 0 log).drop i =
      repliesFrom fmt (counterAfter (log.take i)) (log.drop i) := by
  rcases Nat.lt_or_ge log.length i with hlt | hle
  · rw [List.drop_of_length_le (by simp; omega), List.drop_of_length_le (by omega)]
    rfl
  · have hlen : (repliesFrom fmt 0 (log.take i)).length = i := by simp [hle]
    calc
      (repliesFrom fmt 0 log).drop i =
          (repliesFrom fmt 0 (log.take i ++ log.drop i)).drop i := by
            rw [List.take_append_drop]
      _ = repliesFrom fmt (counterAfter (log.take i)) (log.drop i) := by
            rw [repliesFrom_append, List.drop_left' hlen]
            simp

theorem repliesFrom_getElem? (value : BitVec 64) (log : List CounterEntry) (i : Nat)
    (e : CounterEntry) (he : log[i]? = some e) :
    (repliesFrom fmt value log)[i]? =
      some (replyOf fmt (value + counterAfter (log.take (i + 1))) e) := by
  induction log generalizing value i with
  | nil => simp at he
  | cons head rest ih =>
      cases i with
      | zero =>
          simp only [List.getElem?_cons_zero, Option.some.injEq] at he
          subst he
          simp [repliesFrom, counterAfter]
      | succ i =>
          simp only [List.getElem?_cons_succ] at he
          simp [repliesFrom, counterAfter, ih (value + head.delta) i he, BitVec.add_assoc]

end CounterStateMachine

end CppWorkspace.RaftRpc
