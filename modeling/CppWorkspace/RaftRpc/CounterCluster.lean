import CppWorkspace.RaftRpc.RaftStore
import CppWorkspace.RaftRpc.VoteDurability
import CppWorkspace.RaftRpc.CounterServer

/-!
A cluster of counter servers under NuRaft. A server's disk survives a crash;
its process is rebuilt from `file_state_mgr` and a new state machine, with a
new log store. Sent messages stay available, so they may be lost, repeated and
reordered. What NuRaft does between the calls into this code is standard Raft;
the runs are those in which no server takes a snapshot, so that no log store is
compacted.
-/

namespace CppWorkspace.RaftRpc

open Lib Lib.Raft

/-- What is fixed for a cluster of `n` servers. -/
structure Setup (n : Nat) where
  state : ObjectFormat SrvState
  config : ObjectFormat ClusterConfig
  fmt : BufferFormat
  raw : Buffer
  endpoint : Fin n → List Char
  dataDir : Fin n → Path

def srvId {n : Nat} (i : Fin n) : Int := i.val + 1

theorem srvId_injective {n : Nat} : Function.Injective (@srvId n) := by
  intro i j h
  unfold srvId at h
  omega

namespace Setup

variable {n : Nat} (S : Setup n)

def mgr (i : Fin n) : FileStateMgr :=
  .create (srvId i) (S.endpoint i) (S.dataDir i) S.raw

/-- The configuration that holds every server. -/
def members : ClusterConfig := ⟨List.ofFn fun i => ⟨srvId i, S.endpoint i⟩⟩

end Setup

/-- `log_val_type::conf`. -/
def confEntry : UInt8 := 2

/-- The log entry a leader makes of a request. -/
def logEntryOf (fmt : BufferFormat) (term : Nat) : CounterEntry → LogEntry
  | .add delta => ⟨term, CounterStateMachine.encLog fmt .opAdd delta, appLog, 0⟩
  | .get => ⟨term, CounterStateMachine.encLog fmt .opGet 0, appLog, 0⟩
  | .config => ⟨term, [], confEntry, 0⟩

@[simp] theorem logEntryOf_term (fmt : BufferFormat) (term : Nat) (e : CounterEntry) :
    (logEntryOf fmt term e).term = term := by
  cases e <;> rfl

/-- Hand a stored entry to the state machine. -/
def commitLogEntry (fmt : BufferFormat) (sm : CounterStateMachine) (idx : Nat) (e : LogEntry) :
    Option (Option Buffer × CounterStateMachine) :=
  if e.valType = appLog then (sm.commit fmt idx e.buf).map fun p => (some p.1, p.2)
  else some (none, sm.commitConfig idx)

/-- A running server. -/
structure Process where
  srvState : SrvState
  config : ClusterConfig
  logStore : MemLogStore
  sm : CounterStateMachine
  role : Role
  commitIdx : Nat

structure Server where
  fs : FileSystem
  proc : Option Process

inductive Message (n : Nat) where
  | requestVote (term : Nat) (candidate : Fin n) (lastTerm lastIdx : Nat)
  | vote (term : Nat) (voter candidate : Fin n)
  | appendEntries (term : Nat) (leader : Fin n) (prevIdx prevTerm : Nat)
      (entries : List LogEntry) (commitIdx : Nat)
  | appendReply (term : Nat) (server : Fin n) (stored : Nat)
deriving DecidableEq

def Message.term {n : Nat} : Message n → Nat
  | .requestVote term .. | .vote term .. | .appendEntries term .. | .appendReply term .. => term

/-- The reply to a request that its leader has applied. -/
structure Answer where
  term : Nat
  index : Nat
  entry : LogEntry
  reply : Option Buffer
deriving DecidableEq

/-- The servers, the messages sent and the requests answered; and for each
server whether its log store has held the whole log of a leader of its term
since it was last emptied by a restart. -/
structure CounterCluster (n : Nat) where
  server : Fin n → Server
  msgs : List (Message n)
  answered : List Answer
  synced : Fin n → Bool

inductive RaftEvent (n : Nat) where
  | boot (i : Fin n)
  | crash (i : Fin n)
  | learnTerm (i : Fin n) (term : Nat)
  | timeout (i : Fin n)
  | grantVote (i candidate : Fin n) (lastTerm lastIdx : Nat)
  | becomeLeader (i : Fin n) (voters : Finset (Fin n))
  | submit (i : Fin n) (e : CounterEntry)
  | sendAppend (i : Fin n) (prevIdx stop : Nat)
  | handleAppend (i leader : Fin n) (prevIdx prevTerm : Nat) (entries : List LogEntry)
      (commitIdx : Nat)
  | advanceCommit (i : Fin n) (idx : Nat) (holders : Finset (Fin n))
  | applyNext (i : Fin n)
  | caughtUp (i leader : Fin n)

namespace Server

variable {n : Nat} (S : Setup n) (i : Fin n)

/-- The process `raft_launcher` starts: a new `file_state_mgr` reads the state
and the configuration and brings an empty log store, and the state machine is
new. There is none when a file cannot be read. -/
def bootProcess (fs : FileSystem) : Option Process :=
  match VoteNode.bootState S.state (S.mgr i) fs, (S.mgr i).loadConfig S.config fs with
  | some s, .value config =>
      some ⟨s, config, (S.mgr i).loadLogStore, .initial, .follower, 0⟩
  | _, _ => none

/-- `save_state` before anything that depends on the new state is sent. -/
def saveState (srv : Server) (p : Process) (s : SrvState) : Server where
  fs := (S.mgr i).saveState S.state srv.fs s .done true
  proc := some { p with srvState := s }

end Server

namespace Process

/-- A vote request is granted for a log that is not behind `last_entry()` and
`next_slot() - 1`. -/
def grantsVote (p : Process) (term : Nat) (candidate : Int) (lastTerm lastIdx : Nat) : Prop :=
  p.srvState.term = term ∧
    (p.srvState.votedFor = none ∨ p.srvState.votedFor = some candidate) ∧
    ∃ e, p.logStore.lastEntry = some e ∧
      (e.term < lastTerm ∨ e.term = lastTerm ∧ p.logStore.nextSlot - 1 ≤ lastIdx)

/-- The check of the entry before the ones sent. -/
def logOk (p : Process) (prevIdx prevTerm : Nat) : Prop :=
  prevIdx = 0 ∨ prevIdx < p.logStore.nextSlot ∧ p.logStore.termAt prevIdx = some prevTerm

instance (p : Process) (prevIdx prevTerm : Nat) : Decidable (p.logOk prevIdx prevTerm) :=
  inferInstanceAs (Decidable (_ ∨ _))

/-- `append_entries` on a follower. -/
def appendEntries (p : Process) (prevIdx prevTerm : Nat) (entries : List LogEntry)
    (commitIdx : Nat) : Process :=
  if p.logOk prevIdx prevTerm then
    { p with
      role := .follower
      logStore := p.logStore.storeEntries (prevIdx + 1) entries
      commitIdx := max p.commitIdx (min commitIdx (prevIdx + entries.length)) }
  else { p with role := .follower }

end Process

namespace CounterCluster

variable {n : Nat} (S : Setup n)

def setServer (cl : CounterCluster n) (i : Fin n) (srv : Server) : CounterCluster n :=
  { cl with server := Function.update cl.server i srv }

def setProcess (cl : CounterCluster n) (i : Fin n) (p : Process) : CounterCluster n :=
  cl.setServer i { cl.server i with proc := some p }

def send (cl : CounterCluster n) (msgs : List (Message n)) : CounterCluster n :=
  { cl with msgs := msgs ++ cl.msgs }

@[simp] theorem setServer_server (cl : CounterCluster n) (i : Fin n) (srv : Server) :
    (cl.setServer i srv).server i = srv := Function.update_self _ _ _

theorem setServer_other (cl : CounterCluster n) {i j : Fin n} (srv : Server) (h : j ≠ i) :
    (cl.setServer i srv).server j = cl.server j := Function.update_of_ne h _ _

@[simp] theorem setServer_synced (cl : CounterCluster n) (i : Fin n) (srv : Server) :
    (cl.setServer i srv).synced = cl.synced := rfl

@[simp] theorem setProcess_synced (cl : CounterCluster n) (i : Fin n) (p : Process) :
    (cl.setProcess i p).synced = cl.synced := rfl

@[simp] theorem send_synced (cl : CounterCluster n) (msgs : List (Message n)) :
    (cl.send msgs).synced = cl.synced := rfl

@[simp] theorem send_server (cl : CounterCluster n) (msgs : List (Message n)) :
    (cl.send msgs).server = cl.server := rfl

/-- More than half of the configured servers. -/
def Quorum (p : Process) (Q : Finset (Fin n)) : Prop := p.config.servers.length < 2 * Q.card

instance (p : Process) (Q : Finset (Fin n)) : Decidable (Quorum p Q) :=
  inferInstanceAs (Decidable (_ < _))

/-- One event of the cluster. -/
def Step (cl : CounterCluster n) (event : RaftEvent n) (cl' : CounterCluster n) : Prop :=
  match event with
  | .boot i =>
      (cl.server i).proc = none ∧ ∃ p, Server.bootProcess S i (cl.server i).fs = some p ∧
        cl' = cl.setProcess i p
  | .crash i =>
      cl' = { cl.setServer i { cl.server i with proc := none } with
        synced := Function.update cl.synced i false }
  | .learnTerm i term =>
      ∃ p, (cl.server i).proc = some p ∧ p.srvState.term < term ∧
        (∃ m ∈ cl.msgs, m.term = term) ∧
        cl' = cl.setServer i
          ((cl.server i).saveState S i { p with role := .follower } ⟨term, none⟩)
  | .timeout i =>
      ∃ p e, (cl.server i).proc = some p ∧ p.role ≠ .leader ∧ p.logStore.lastEntry = some e ∧
        let term := p.srvState.term + 1
        cl' = (cl.setServer i ((cl.server i).saveState S i { p with role := .candidate }
            ⟨term, some (srvId i)⟩)).send
          [.requestVote term i e.term (p.logStore.nextSlot - 1), .vote term i i]
  | .grantVote i candidate lastTerm lastIdx =>
      ∃ p, (cl.server i).proc = some p ∧
        .requestVote p.srvState.term candidate lastTerm lastIdx ∈ cl.msgs ∧
        p.grantsVote p.srvState.term (srvId candidate) lastTerm lastIdx ∧
        cl' = (cl.setServer i ((cl.server i).saveState S i p
            ⟨p.srvState.term, some (srvId candidate)⟩)).send
          [.vote p.srvState.term i candidate]
  | .becomeLeader i voters =>
      ∃ p, (cl.server i).proc = some p ∧ p.role = .candidate ∧ Quorum p voters ∧
        (∀ v ∈ voters, .vote p.srvState.term v i ∈ cl.msgs) ∧
        cl' = cl.setProcess i { p with role := .leader }
  | .submit i e =>
      ∃ p, (cl.server i).proc = some p ∧ p.role = .leader ∧
        cl' = cl.setProcess i { p with
          logStore := (p.logStore.append (logEntryOf S.fmt p.srvState.term e)).2 }
  | .sendAppend i prevIdx stop =>
      ∃ p prevTerm entries, (cl.server i).proc = some p ∧ p.role = .leader ∧ prevIdx ≤ stop ∧
        stop < p.logStore.nextSlot ∧ p.logStore.termAt prevIdx = some prevTerm ∧
        p.logStore.logEntries (prevIdx + 1) (stop + 1) = some entries ∧
        cl' = cl.send
          [.appendEntries p.srvState.term i prevIdx prevTerm entries p.commitIdx]
  | .handleAppend i leader prevIdx prevTerm entries commitIdx =>
      ∃ p, (cl.server i).proc = some p ∧ p.role ≠ .leader ∧
        .appendEntries p.srvState.term leader prevIdx prevTerm entries commitIdx ∈ cl.msgs ∧
        cl' = (cl.setProcess i (p.appendEntries prevIdx prevTerm entries commitIdx)).send
          (if p.logOk prevIdx prevTerm then
            [.appendReply p.srvState.term i (prevIdx + entries.length)] else [])
  | .advanceCommit i idx holders =>
      ∃ p, (cl.server i).proc = some p ∧ p.role = .leader ∧ 0 < idx ∧
        idx < p.logStore.nextSlot ∧ p.logStore.termAt idx = some p.srvState.term ∧
        Quorum p holders ∧
        (∀ v ∈ holders, v = i ∨
          ∃ stored, idx ≤ stored ∧ .appendReply p.srvState.term v stored ∈ cl.msgs) ∧
        cl' = cl.setProcess i { p with commitIdx := max p.commitIdx idx }
  | .applyNext i =>
      ∃ p e reply sm, (cl.server i).proc = some p ∧ p.sm.lastCommittedIdx < p.commitIdx ∧
        p.logStore.entryAt (p.sm.lastCommittedIdx + 1) = some e ∧
        commitLogEntry S.fmt p.sm (p.sm.lastCommittedIdx + 1) e = some (reply, sm) ∧
        cl' = { cl.setProcess i { p with sm := sm } with
          answered :=
            if p.role = .leader ∧ e.term = p.srvState.term then
              ⟨e.term, p.sm.lastCommittedIdx + 1, e, reply⟩ :: cl.answered
            else cl.answered }
  | .caughtUp i leader =>
      ∃ p q, (cl.server i).proc = some p ∧ (cl.server leader).proc = some q ∧
        q.role = .leader ∧ q.srvState.term = p.srvState.term ∧
        p.logStore.logs.entries = q.logStore.logs.entries ∧
        cl' = { cl with synced := Function.update cl.synced i true }

/-- Every server has just been started on a disk that holds the configuration
and no state. -/
def Initial (cl : CounterCluster n) : Prop :=
  (∀ i, (cl.server i).fs (S.mgr i).statePath = none ∧
    (cl.server i).fs (S.mgr i).configPath = some (S.config.serialize S.members) ∧
    (cl.server i).proc = Server.bootProcess S i (cl.server i).fs) ∧
    cl.msgs = [] ∧ cl.answered = [] ∧ cl.synced = fun _ => true

def system : System (CounterCluster n) (RaftEvent n) where
  init := Initial S
  step := Step S

/-- Only crash a server while all others are up. -/
def OneDown (cl : CounterCluster n) : RaftEvent n → Prop
  | .crash i => ∀ j, j ≠ i → (cl.server j).proc ≠ none
  | _ => True

/-- A restarted server neither stands nor votes before it has caught up. -/
def VotesSynced (cl : CounterCluster n) : RaftEvent n → Prop
  | .timeout i | .grantVote i .. => cl.synced i = true
  | _ => True

/-- The runs with at most one server down. -/
def oneDownSystem : System (CounterCluster n) (RaftEvent n) := (system S).restrict OneDown

/-- Those in which a restarted server takes no part in an election before it
has caught up. -/
def votingSystem : System (CounterCluster n) (RaftEvent n) :=
  (oneDownSystem S).restrict VotesSynced

end CounterCluster

end CppWorkspace.RaftRpc
