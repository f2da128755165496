import CppWorkspace.Lib.Transition
import CppWorkspace.Lib.FileSystem
import CppWorkspace.RaftRpc.MemLogStore

/-!
`file_state_mgr.hxx`: the vote state and the cluster configuration of a server
live in two files that are replaced by writing a temporary file and renaming
it. The log store stays in memory. `write_file` looks at no stream state, so
the outcome of its calls is an argument of the model.
-/

namespace CppWorkspace.RaftRpc

open Lib

/-- `nuraft::srv_state`; no vote is `none`. -/
structure SrvState where
  term : Nat
  votedFor : Option Int
deriving Repr, DecidableEq

/-- `nuraft::srv_config`. -/
structure SrvConfig where
  id : Int
  endpoint : List Char
deriving Repr, DecidableEq

/-- `nuraft::cluster_config`. -/
structure ClusterConfig where
  servers : List SrvConfig
deriving Repr, DecidableEq

/-- NuRaft's `serialize` and `deserialize` of a class: the second undoes the
first, and no serialized object is empty. -/
structure ObjectFormat (α : Type) where
  serialize : α → Buffer
  deserialize : Buffer → Option α
  deserialize_serialize : ∀ a, deserialize (serialize a) = some a
  serialize_ne_nil : ∀ a, serialize a ≠ []

/-- A format by numbering the objects. -/
def ObjectFormat.ofEncodable {α β : Type} [Encodable β] (f : α → β) (g : β → α)
    (h : ∀ a, g (f a) = a) : ObjectFormat α where
  serialize a := Codec.unary.encode (Encodable.encode (f a))
  deserialize bytes := do
    let (n, _) ← Codec.unary.decode bytes
    let b ← Encodable.decode n
    pure (g b)
  deserialize_serialize := by
    intro a
    simp [h]
  serialize_ne_nil := by
    intro a
    simp [Codec.unary]

def srvStateFormat : ObjectFormat SrvState :=
  .ofEncodable (fun s => (s.term, s.votedFor)) (fun p => ⟨p.1, p.2⟩) fun _ => rfl

def clusterConfigFormat : ObjectFormat ClusterConfig :=
  .ofEncodable (fun c => c.servers.map fun s => (s.id, s.endpoint.map Char.toNat))
    (fun l => ⟨l.map fun p => ⟨p.1, p.2.map Char.ofNat⟩⟩) fun c => by
      simp [Function.comp_def, Char.ofNat_toNat]

/-- What reading an object from a file gives: a null pointer, the object, or
an exception of `deserialize`. -/
inductive Loaded (α : Type) where
  | null
  | value (a : α)
  | throws
deriving Repr, DecidableEq

/-- `read_file`: null when the file does not open or is empty. -/
def readFile (fs : FileSystem) (path : Path) : Option Buffer :=
  match fs path with
  | none => none
  | some content => if content.length = 0 then none else some content

/-- How the calls on the temporary file went. A failing write leaves a proper
prefix in it; a failing flush any prefix. -/
inductive TmpOutcome where
  | done
  | openFails
  | writeFails (written : Nat)
  | flushFails (written : Nat)
deriving Repr, DecidableEq

/-- The outcomes that can occur for `buf`. -/
def TmpOutcome.Possible (buf : Buffer) : TmpOutcome → Prop
  | .writeFails written => written < buf.length
  | .flushFails written => written ≤ buf.length
  | _ => True

def tmpOf (path : Path) : Path := path ++ ".tmp".toList

/-- `write_file`. The rename is made whatever happened before it. -/
def writeFile (fs : FileSystem) (path : Path) (buf : Buffer) (outcome : TmpOutcome)
    (renameOk : Bool) : FileSystem :=
  let tmp := tmpOf path
  let fs : FileSystem :=
    match outcome with
    | .done => Function.update fs tmp (some buf)
    | .openFails => fs
    | .writeFails written | .flushFails written =>
        Function.update fs tmp (some (buf.take written))
  if renameOk then fs.rename tmp path else fs

theorem tmpOf_ne (path : Path) : tmpOf path ≠ path := by
  intro h
  have hlen := congrArg List.length h
  simp [tmpOf] at hlen

/-- What the temporary file holds when the rename is made; `none` is no file. -/
def leftInTmp (fs : FileSystem) (path : Path) (buf : Buffer) : TmpOutcome → Option Buffer
  | .done => some buf
  | .openFails => fs (tmpOf path)
  | .writeFails written | .flushFails written => some (buf.take written)

theorem rename_target (fs : FileSystem) (source target : Path) :
    fs.rename source target target = (fs source).or (fs target) := by
  unfold FileSystem.rename
  cases h : fs source <;> simp

theorem writeFile_target (fs : FileSystem) (path : Path) (buf : Buffer)
    (outcome : TmpOutcome) (renameOk : Bool) :
    writeFile fs path buf outcome renameOk path =
      if renameOk then (leftInTmp fs path buf outcome).or (fs path) else fs path := by
  have hne := tmpOf_ne path
  cases renameOk <;> cases outcome <;>
    simp [writeFile, leftInTmp, rename_target, Function.update_of_ne hne.symm]

/-- Every path except the target and its temporary file is left alone. -/
theorem writeFile_other (fs : FileSystem) {path p : Path} (buf : Buffer)
    (outcome : TmpOutcome) (renameOk : Bool) (hpath : p ≠ path) (htmp : p ≠ tmpOf path) :
    writeFile fs path buf outcome renameOk p = fs p := by
  have hrename (fs : FileSystem) : fs.rename (tmpOf path) path p = fs p := by
    unfold FileSystem.rename
    cases fs (tmpOf path) <;> simp [hpath, htmp]
  cases renameOk <;> cases outcome <;> simp [writeFile, hrename, htmp]

/-- The system calls of an undisturbed `write_file`, one byte at a time. -/
def writeFileOps (path : Path) (buf : Buffer) : List FileOp :=
  FileSystem.replaceOps (tmpOf path) path buf

theorem writeFile_done (fs : FileSystem) (path : Path) (buf : Buffer) :
    writeFile fs path buf .done true = fs.applyOps (writeFileOps path buf) := by
  rw [writeFileOps, FileSystem.applyOps_replace]
  rfl

structure FileStateMgr where
  myId : Int
  myEndpoint : List Char
  dataDir : Path
  logStore : MemLogStore
  mySrvConfig : SrvConfig

namespace FileStateMgr

variable (state : ObjectFormat SrvState) (config : ObjectFormat ClusterConfig)

/-- The constructor: a new log store, nothing read from disk. `raw` is the
payload of the store's dummy entry. -/
def create (srvId : Int) (endpoint : List Char) (dataDir : Path) (raw : Buffer) :
    FileStateMgr where
  myId := srvId
  myEndpoint := endpoint
  dataDir := dataDir
  logStore := .initial raw
  mySrvConfig := ⟨srvId, endpoint⟩

def configPath (mgr : FileStateMgr) : Path := mgr.dataDir ++ "/config".toList

def statePath (mgr : FileStateMgr) : Path := mgr.dataDir ++ "/state".toList

/-- `load_config`: on the first boot the cluster is this server alone. -/
def loadConfig (mgr : FileStateMgr) (fs : FileSystem) : Loaded ClusterConfig :=
  match readFile fs mgr.configPath with
  | some buf =>
      match config.deserialize buf with
      | some conf => .value conf
      | none => .throws
  | none => .value ⟨[mgr.mySrvConfig]⟩

def saveConfig (mgr : FileStateMgr) (fs : FileSystem) (conf : ClusterConfig)
    (outcome : TmpOutcome) (renameOk : Bool) : FileSystem :=
  writeFile fs mgr.configPath (config.serialize conf) outcome renameOk

def saveState (mgr : FileStateMgr) (fs : FileSystem) (s : SrvState)
    (outcome : TmpOutcome) (renameOk : Bool) : FileSystem :=
  writeFile fs mgr.statePath (state.serialize s) outcome renameOk

def readState (mgr : FileStateMgr) (fs : FileSystem) : Loaded SrvState :=
  match readFile fs mgr.statePath with
  | some buf =>
      match state.deserialize buf with
      | some s => .value s
      | none => .throws
  | none => .null

def loadLogStore (mgr : FileStateMgr) : MemLogStore := mgr.logStore

/-- A server with its files below the working directory. -/
def localMgr : FileStateMgr := .create 1 "localhost:10001".toList "data".toList []

theorem readFile_serialize {α : Type} (fmt : ObjectFormat α) (fs : FileSystem) {path : Path}
    {a : α} (h : fs path = some (fmt.serialize a)) :
    readFile fs path = some (fmt.serialize a) := by
  have hne : (fmt.serialize a).length ≠ 0 := by
    simpa using fmt.serialize_ne_nil a
  simp [readFile, h, hne]

/-- Reading back a file that holds a serialized state. -/
theorem readState_of_content {mgr : FileStateMgr} {fs : FileSystem} {s : SrvState}
    (h : fs mgr.statePath = some (state.serialize s)) :
    mgr.readState state fs = .value s := by
  simp [readState, readFile_serialize state fs h, state.deserialize_serialize]

theorem loadConfig_of_content {mgr : FileStateMgr} {fs : FileSystem} {conf : ClusterConfig}
    (h : fs mgr.configPath = some (config.serialize conf)) :
    mgr.loadConfig config fs = .value conf := by
  simp [loadConfig, readFile_serialize config fs h, config.deserialize_serialize]

/-- Only the file a read looks at matters to it. -/
theorem readState_congr {mgr : FileStateMgr} {fs fs' : FileSystem}
    (h : fs mgr.statePath = fs' mgr.statePath) :
    mgr.readState state fs = mgr.readState state fs' := by
  simp [readState, readFile, h]

theorem loadConfig_congr {mgr : FileStateMgr} {fs fs' : FileSystem}
    (h : fs mgr.configPath = fs' mgr.configPath) :
    mgr.loadConfig config fs = mgr.loadConfig config fs' := by
  simp [loadConfig, readFile, h]

theorem statePath_ne_configPath (mgr : FileStateMgr) :
    mgr.statePath ≠ mgr.configPath ∧ mgr.statePath ≠ tmpOf mgr.configPath ∧
      mgr.configPath ≠ tmpOf mgr.statePath := by
  simp only [statePath, configPath, tmpOf, List.append_assoc, ne_eq,
    List.append_cancel_left_eq]
  decide

end FileStateMgr

end CppWorkspace.RaftRpc
