import CppWorkspace.RaftRpc.FileStateMgr

/-!
`save_state` and `save_config` when calls on the temporary file fail. The
rename is made regardless, so what decides is the content it would move over
the target.
-/

namespace CppWorkspace.RaftRpc

open Lib FileStateMgr

/-- The rename fails, or finds no temporary file, or moves the target's own
content over it. -/
def KeepsTarget (fs : FileSystem) (path : Path) (buf : Buffer) (outcome : TmpOutcome)
    (renameOk : Bool) : Prop :=
  renameOk = false ∨ leftInTmp fs path buf outcome = none ∨
    leftInTmp fs path buf outcome = fs path

theorem writeFile_keeps_iff (fs : FileSystem) (path : Path) (buf : Buffer)
    (outcome : TmpOutcome) (renameOk : Bool) :
    writeFile fs path buf outcome renameOk path = fs path ↔
      KeepsTarget fs path buf outcome renameOk := by
  rw [writeFile_target, KeepsTarget]
  cases renameOk with
  | false => simp
  | true => cases leftInTmp fs path buf outcome <;> simp

/-- One call of `save_state` or `save_config` with the outcome of its calls. -/
inductive SaveCall where
  | state (s : SrvState) (outcome : TmpOutcome) (renameOk : Bool)
  | config (conf : ClusterConfig) (outcome : TmpOutcome) (renameOk : Bool)

namespace SaveCall

variable (state : ObjectFormat SrvState) (config : ObjectFormat ClusterConfig)
  (mgr : FileStateMgr)

def outcome : SaveCall → TmpOutcome
  | .state _ outcome _ | .config _ outcome _ => outcome

def renameOk : SaveCall → Bool
  | .state _ _ renameOk | .config _ _ renameOk => renameOk

def target : SaveCall → Path
  | .state .. => mgr.statePath
  | .config .. => mgr.configPath

def data : SaveCall → Buffer
  | .state s _ _ => state.serialize s
  | .config conf _ _ => config.serialize conf

/-- The files after the call. -/
def run (fs : FileSystem) : SaveCall → FileSystem
  | .state s outcome renameOk => mgr.saveState state fs s outcome renameOk
  | .config conf outcome renameOk => mgr.saveConfig config fs conf outcome renameOk

/-- Opening, writing or flushing the temporary file failed. -/
def Failed (call : SaveCall) : Prop := call.outcome ≠ .done

def Keeps (fs : FileSystem) (call : SaveCall) : Prop :=
  KeepsTarget fs (call.target mgr) (call.data state config) call.outcome call.renameOk

theorem run_eq (fs : FileSystem) (call : SaveCall) :
    call.run state config mgr fs =
      writeFile fs (call.target mgr) (call.data state config) call.outcome call.renameOk := by
  cases call <;> rfl

end SaveCall

/-- The files of one server and what it saved successfully last. -/
structure SavedFiles where
  fs : FileSystem
  lastState : Option SrvState
  lastConfig : Option ClusterConfig

namespace SavedFiles

variable (state : ObjectFormat SrvState) (config : ObjectFormat ClusterConfig)
  (mgr : FileStateMgr)

/-- A call counts as successful when every one of its system calls is. -/
def next (files : SavedFiles) (call : SaveCall) : SavedFiles :=
  let fs := call.run state config mgr files.fs
  match call with
  | .state s .done true => { files with fs := fs, lastState := some s }
  | .config conf .done true => { files with fs := fs, lastConfig := some conf }
  | _ => { files with fs := fs }

/-- All sequences of saves, starting from any files. -/
def system : System SavedFiles SaveCall where
  init files := files.lastState = none ∧ files.lastConfig = none
  step files call files' :=
    call.outcome.Possible (call.data state config) ∧ files' = files.next state config mgr call

/-- The runs in which every failed save meets the condition. -/
def keepingSystem : System SavedFiles SaveCall :=
  (system state config mgr).restrict fun files call =>
    call.Failed → call.Keeps state config mgr files.fs

/-- Both files hold what was saved last. -/
structure Durable (files : SavedFiles) : Prop where
  state : ∀ s, files.lastState = some s → files.fs mgr.statePath = some (state.serialize s)
  config : ∀ conf, files.lastConfig = some conf →
    files.fs mgr.configPath = some (config.serialize conf)

/-- What one call does to the two files: the one it does not save keeps its
content; the one it saves holds the new data after a successful call, and its
old content after a failed call that meets the condition or whose rename
failed. -/
theorem next_fs {files : SavedFiles} {call : SaveCall}
    (hkeeps : call.Failed → call.Keeps state config mgr files.fs) :
    (files.next state config mgr call).fs (call.target mgr) =
      if call.outcome = .done ∧ call.renameOk = true then some (call.data state config)
      else files.fs (call.target mgr) := by
  have hfs : (files.next state config mgr call).fs = call.run state config mgr files.fs := by
    unfold next
    split <;> rfl
  rw [hfs, SaveCall.run_eq]
  by_cases hdone : call.outcome = .done
  · rw [writeFile_target, hdone]
    cases call.renameOk <;> simp [leftInTmp]
  · rw [if_neg (by simp [hdone])]
    exact (writeFile_keeps_iff _ _ _ _ _).mpr (hkeeps hdone)

/-- The file the call does not save keeps its content. -/
theorem next_fs_other (files : SavedFiles) (call : SaveCall) {p : Path}
    (hp : p = mgr.statePath ∨ p = mgr.configPath) (htarget : p ≠ call.target mgr) :
    (files.next state config mgr call).fs p = files.fs p := by
  have hfs : (files.next state config mgr call).fs = call.run state config mgr files.fs := by
    unfold next
    split <;> rfl
  obtain ⟨hne, hstate, hconfig⟩ := statePath_ne_configPath mgr
  rw [hfs, SaveCall.run_eq]
  apply writeFile_other _ _ _ _ htarget
  cases call with
  | state s outcome renameOk =>
      obtain rfl | rfl := hp
      · exact absurd rfl htarget
      · exact hconfig
  | config conf outcome renameOk =>
      obtain rfl | rfl := hp
      · exact hstate
      · exact absurd rfl htarget

/-- A successful call records what it saved, any other call records nothing. -/
theorem next_lastState (files : SavedFiles) (s : SrvState) (outcome : TmpOutcome)
    (renameOk : Bool) :
    (files.next state config mgr (.state s outcome renameOk)).lastState =
        (if outcome = .done ∧ renameOk = true then some s else files.lastState) ∧
      (files.next state config mgr (.state s outcome renameOk)).lastConfig =
        files.lastConfig := by
  cases outcome <;> cases renameOk <;> simp [next]

theorem next_lastConfig (files : SavedFiles) (conf : ClusterConfig) (outcome : TmpOutcome)
    (renameOk : Bool) :
    (files.next state config mgr (.config conf outcome renameOk)).lastConfig =
        (if outcome = .done ∧ renameOk = true then some conf else files.lastConfig) ∧
      (files.next state config mgr (.config conf outcome renameOk)).lastState =
        files.lastState := by
  cases outcome <;> cases renameOk <;> simp [next]

/-- One call that meets the condition keeps both files durable. -/
theorem Durable.next {files : SavedFiles} (h : files.Durable state config mgr)
    {call : SaveCall} (hkeeps : call.Failed → call.Keeps state config mgr files.fs) :
    (files.next state config mgr call).Durable state config mgr := by
  have htarget := next_fs state config mgr hkeeps
  have hother := @next_fs_other state config mgr files call
  obtain ⟨hne, -, -⟩ := statePath_ne_configPath mgr
  cases call with
  | state s outcome renameOk =>
      obtain ⟨hstate, hconfig⟩ := next_lastState state config mgr files s outcome renameOk
      constructor
      · intro s' hs'
        rw [hstate] at hs'
        refine htarget.trans ?_
        by_cases hdone : outcome = .done ∧ renameOk = true
        · rw [if_pos hdone] at hs'
          cases hs'
          exact if_pos hdone
        · rw [if_neg hdone] at hs'
          exact (if_neg hdone).trans (h.state s' hs')
      · intro conf hconf
        rw [hother (.inr rfl) hne.symm]
        exact h.config conf (hconfig ▸ hconf)
  | config conf outcome renameOk =>
      obtain ⟨hconfig, hstate⟩ := next_lastConfig state config mgr files conf outcome renameOk
      constructor
      · intro s hs
        rw [hother (.inl rfl) hne]
        exact h.state s (hstate ▸ hs)
      · intro conf' hconf'
        rw [hconfig] at hconf'
        refine htarget.trans ?_
        by_cases hdone : outcome = .done ∧ renameOk = true
        · rw [if_pos hdone] at hconf'
          cases hconf'
          exact if_pos hdone
        · rw [if_neg hdone] at hconf'
          exact (if_neg hdone).trans (h.config conf' hconf')

theorem durable_invariant :
    (keepingSystem state config mgr).Invariant (Durable state config mgr) where
  init files hinit := by
    constructor
    · intro s hs
      simp [hinit.1] at hs
    · intro conf hconf
      simp [hinit.2] at hconf
  step files call files' h hstep := by
    obtain ⟨hkeeps, -, rfl⟩ := hstep
    exact h.next state config mgr hkeeps

/-- A failed save leaves its target alone exactly when the rename fails too or
moves nothing new; and as long as every failed save does, a read returns what
was saved last. -/
theorem failed_save_keeps_iff :
    (∀ (fs : FileSystem) (call : SaveCall), call.Failed →
      call.outcome.Possible (call.data state config) →
      (call.run state config mgr fs (call.target mgr) = fs (call.target mgr) ↔
        call.Keeps state config mgr fs)) ∧
    ∀ files, (keepingSystem state config mgr).Reachable files →
      (∀ s, files.lastState = some s → mgr.readState state files.fs = .value s) ∧
      ∀ conf, files.lastConfig = some conf →
        mgr.loadConfig config files.fs = .value conf := by
  constructor
  · intro fs call hfailed hpossible
    rw [SaveCall.run_eq]
    exact writeFile_keeps_iff _ _ _ _ _
  · intro files hreach
    have hdurable := (durable_invariant state config mgr).reachable hreach
    constructor
    · intro s hs
      exact mgr.readState_of_content state (hdurable.state s hs)
    · intro conf hconf
      exact mgr.loadConfig_of_content config (hdurable.config conf hconf)

/-- A vote in term five, saved on a new disk. -/
def votedFiles : SavedFiles :=
  next srvStateFormat clusterConfigFormat localMgr ⟨fun _ => none, none, none⟩
    (.state ⟨5, some 1⟩ .done true)

theorem votedFiles_step :
    (system srvStateFormat clusterConfigFormat localMgr).step ⟨fun _ => none, none, none⟩
      (.state ⟨5, some 1⟩ .done true) votedFiles :=
  ⟨trivial, rfl⟩

/-- With no file to move, a save that cannot open its temporary file is
harmless. -/
theorem failed_save_on_new_disk :
    (SaveCall.state ⟨6, some 2⟩ .openFails true).run srvStateFormat clusterConfigFormat
        localMgr votedFiles.fs localMgr.statePath = votedFiles.fs localMgr.statePath ∧
      localMgr.readState srvStateFormat votedFiles.fs = .value ⟨5, some 1⟩ := by
  obtain ⟨hkeeps, hruns⟩ := failed_save_keeps_iff srvStateFormat clusterConfigFormat localMgr
  have hreach : (keepingSystem srvStateFormat clusterConfigFormat localMgr).Reachable
      votedFiles := by
    refine ⟨_, _, ⟨rfl, rfl⟩, .single ⟨?_, votedFiles_step⟩⟩
    intro hfailed
    exact absurd rfl hfailed
  constructor
  · apply (hkeeps votedFiles.fs (.state ⟨6, some 2⟩ .openFails true) nofun trivial).mpr
    exact Or.inr (Or.inl rfl)
  · exact (hruns votedFiles hreach).1 ⟨5, some 1⟩ rfl

/-- The disk is full when the next vote is saved: the state file is empty
afterwards and the vote is forgotten. -/
theorem full_disk_forgets_vote :
    (system srvStateFormat clusterConfigFormat localMgr).Reachable votedFiles ∧
      ¬ ∀ call : SaveCall, call.Failed →
        call.outcome.Possible (call.data srvStateFormat clusterConfigFormat) →
        let fs := call.run srvStateFormat clusterConfigFormat localMgr votedFiles.fs
        fs (call.target localMgr) = votedFiles.fs (call.target localMgr) ∧
          localMgr.readState srvStateFormat fs = .value ⟨5, some 1⟩ := by
  constructor
  · exact ⟨_, _, ⟨rfl, rfl⟩, .single votedFiles_step⟩
  · intro hall
    have hempty := (hall (.state ⟨6, some 2⟩ (.writeFails 0) true) nofun
      (List.length_pos_iff.mpr (srvStateFormat.serialize_ne_nil ⟨6, some 2⟩))).2
    have hnull : localMgr.readState srvStateFormat
        ((SaveCall.state ⟨6, some 2⟩ (.writeFails 0) true).run srvStateFormat
          clusterConfigFormat localMgr votedFiles.fs) = .null := by
      have hcontent := writeFile_target votedFiles.fs localMgr.statePath
        (srvStateFormat.serialize ⟨6, some 2⟩) (.writeFails 0) true
      simp only [leftInTmp, List.take_zero, if_pos, Option.some_or] at hcontent
      simp [FileStateMgr.readState, readFile, SaveCall.run, FileStateMgr.saveState, hcontent]
    rw [hnull] at hempty
    cases hempty

end SavedFiles

end CppWorkspace.RaftRpc
