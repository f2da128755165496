import CppWorkspace.Lib.RaftRuns
import CppWorkspace.RaftRpc.CounterCluster

/-!
The cluster refines the replicated log: what the log stores, the state files
and the messages contain is what the abstract protocol says, step by step. The
state machine of a server holds the sum of the entries it has applied.
-/

namespace CppWorkspace.RaftRpc

open Lib Lib.Raft

/-- What a log entry adds to the counter. -/
def LogEntry.delta (fmt : BufferFormat) (e : LogEntry) : BitVec 64 :=
  if e.valType = appLog then
    match CounterStateMachine.decLog fmt e.buf with
    | some (.opAdd, delta) => delta
    | _ => 0
  else 0

/-- The counter after a log. -/
def valueAfter (fmt : BufferFormat) (log : List LogEntry) : BitVec 64 :=
  (log.map (LogEntry.delta fmt)).sum

@[simp] theorem valueAfter_append (fmt : BufferFormat) (first second : List LogEntry) :
    valueAfter fmt (first ++ second) = valueAfter fmt first + valueAfter fmt second := by
  simp [valueAfter]

/-- The reply to an entry when the counter is `value` after it. -/
def replyTo (fmt : BufferFormat) (value : BitVec 64) (e : LogEntry) : Option Buffer :=
  if e.valType = appLog then some (fmt.i64.encode value) else none

theorem commitLogEntry_eq {fmt : BufferFormat} {sm sm' : CounterStateMachine} {idx : Nat}
    {e : LogEntry} {reply : Option Buffer}
    (h : commitLogEntry fmt sm idx e = some (reply, sm')) :
    sm'.value = sm.value + e.delta fmt ∧ sm'.lastCommittedIdx = idx ∧
      reply = replyTo fmt sm'.value e := by
  unfold commitLogEntry at h
  unfold LogEntry.delta replyTo
  split at h
  · next happ =>
    simp only [if_pos happ]
    obtain ⟨⟨buf, sm₁⟩, hcommit, heq⟩ := Option.map_eq_some_iff.mp h
    cases heq
    simp only [CounterStateMachine.commit, Option.bind_eq_bind] at hcommit
    obtain ⟨⟨op, delta⟩, hdec, hrest⟩ := Option.bind_eq_some_iff.mp hcommit
    simp only [hdec]
    split at hrest
    · next hop =>
      cases hrest
      simp only at hop
      subst hop
      exact ⟨rfl, rfl, rfl⟩
    · next hop =>
      cases hrest
      refine ⟨?_, rfl, rfl⟩
      cases op with
      | opAdd => exact absurd rfl hop
      | opGet => simp
      | other raw => simp
  · next hconf =>
    cases h
    simp [if_neg hconf, CounterStateMachine.commitConfig]

abbrev AbstractWorld (n : Nat) := World (Fin n) LogEntry

/-- A running server and its abstract node. -/
structure UpNode {n : Nat} (S : Setup n) (p : Process) (m : Node (Fin n) LogEntry) : Prop where
  srvState : p.srvState = ⟨m.term, m.vote.map srvId⟩
  config : p.config = S.members
  holds : p.logStore.Holds S.raw m.log
  role : p.role = m.role
  up : m.role ≠ .down
  commitIdx : p.commitIdx = m.commit
  applied : p.sm.lastCommittedIdx ≤ m.commit
  value : p.sm.value = valueAfter S.fmt (m.log.take p.sm.lastCommittedIdx)

/-- What a message that was sent says about the history. -/
def MessageOk {n : Nat} (w : AbstractWorld n) : Message n → Prop
  | .requestVote term candidate lastTerm' lastIdx =>
      ∃ x, w.candLog term candidate = some x ∧ lastTerm LogEntry.term x = lastTerm' ∧
        x.length = lastIdx
  | .vote term voter candidate => w.votes voter term candidate
  | .appendEntries term leader prevIdx prevTerm entries commitIdx =>
      ∃ l, w.leaderLog term = some (leader, l) ∧ entries <+: l.drop prevIdx ∧
        prevIdx ≤ l.length ∧
        (∀ i, prevIdx = i + 1 → (l[i]?).map LogEntry.term = some prevTerm) ∧
        commitIdx ≤ l.length ∧ CommittedBy LogEntry.term w term (l.take commitIdx)
  | .appendReply term server stored => stored ≤ w.stored server term

/-- An answered request was committed by its leader, and the reply is the sum
of the log up to it. -/
def AnswerOk {n : Nat} (S : Setup n) (w : AbstractWorld n) (a : Answer) : Prop :=
  ∃ p, Commit LogEntry.term w a.term p ∧ p.length = a.index ∧ p.getLast? = some a.entry ∧
    a.reply = replyTo S.fmt (valueAfter S.fmt p) a.entry

structure Refines {n : Nat} (S : Setup n) (cl : CounterCluster n) (w : AbstractWorld n) :
    Prop where
  inv : Inv LogEntry.term w
  disk : ∀ i, VoteNode.bootState S.state (S.mgr i) (cl.server i).fs =
      some ⟨(w.node i).term, (w.node i).vote.map srvId⟩ ∧
    (S.mgr i).loadConfig S.config (cl.server i).fs = .value S.members
  down : ∀ i, (cl.server i).proc = none →
    (w.node i).role = .down ∧ (w.node i).log = [] ∧ (w.node i).commit = 0
  up : ∀ i p, (cl.server i).proc = some p → UpNode S p (w.node i)
  msgs : ∀ m ∈ cl.msgs, MessageOk w m
  answered : ∀ a ∈ cl.answered, AnswerOk S w a
  synced : ∀ i, cl.synced i = (w.node i).synced

section Growing

variable {n : Nat} {S : Setup n} {w w' : AbstractWorld n}

theorem MessageOk.mono {m : Message n} (h : MessageOk w m) (hgrows : Grows w w') :
    MessageOk w' m := by
  cases m with
  | requestVote term candidate lastTerm' lastIdx =>
      obtain ⟨x, hx, hrest⟩ := h
      exact ⟨x, hgrows.candLog _ _ x hx, hrest⟩
  | vote term voter candidate => exact hgrows.votes _ _ _ h
  | appendEntries term leader prevIdx prevTerm entries commitIdx =>
      obtain ⟨l, hl, hentries, hprev, hterm, hle, hby⟩ := h
      obtain ⟨l', hl', rest, rfl⟩ := hgrows.leaderLog _ _ l hl
      refine ⟨_, hl', ?_, ?_, ?_, ?_, ?_⟩
      · rw [List.drop_append_of_le_length hprev]
        exact hentries.trans (List.prefix_append _ _)
      · simp only [List.length_append]
        omega
      · intro i hi
        rw [List.getElem?_append_left (by omega)]
        exact hterm i hi
      · simp only [List.length_append]
        omega
      · rw [List.take_append_of_le_length hle]
        exact hby.mono hgrows le_rfl
  | appendReply term server stored => exact le_trans h (hgrows.stored server term)

theorem AnswerOk.mono {a : Answer} (h : AnswerOk S w a) (hgrows : Grows w w') :
    AnswerOk S w' a := by
  obtain ⟨p, hcommit, hrest⟩ := h
  exact ⟨p, hcommit.mono hgrows, hrest⟩

/-- A step that touches one server. -/
theorem Refines.update {cl cl' : CounterCluster n} (h : Refines S cl w)
    (hinv : Inv LogEntry.term w') (hgrows : Grows w w') (i : Fin n)
    (hserver : ∀ j, j ≠ i → cl'.server j = cl.server j)
    (hnode : ∀ j, j ≠ i → w'.node j = w.node j)
    (hdisk : VoteNode.bootState S.state (S.mgr i) (cl'.server i).fs =
        some ⟨(w'.node i).term, (w'.node i).vote.map srvId⟩ ∧
      (S.mgr i).loadConfig S.config (cl'.server i).fs = .value S.members)
    (hdown : (cl'.server i).proc = none →
      (w'.node i).role = .down ∧ (w'.node i).log = [] ∧ (w'.node i).commit = 0)
    (hup : ∀ p, (cl'.server i).proc = some p → UpNode S p (w'.node i))
    (hmsgs : ∀ m ∈ cl'.msgs, m ∈ cl.msgs ∨ MessageOk w' m)
    (hanswered : ∀ a ∈ cl'.answered, a ∈ cl.answered ∨ AnswerOk S w' a)
    (hsynced : ∀ j, cl'.synced j = (w'.node j).synced) : Refines S cl' w' where
  inv := hinv
  disk j := by
    by_cases hj : j = i
    · subst hj
      exact hdisk
    · rw [hserver j hj, hnode j hj]
      exact h.disk j
  down j hproc := by
    by_cases hj : j = i
    · subst hj
      exact hdown hproc
    · rw [hserver j hj] at hproc
      rw [hnode j hj]
      exact h.down j hproc
  up j p hproc := by
    by_cases hj : j = i
    · subst hj
      exact hup p hproc
    · rw [hserver j hj] at hproc
      rw [hnode j hj]
      exact h.up j p hproc
  msgs m hm := by
    rcases hmsgs m hm with hold | hnew
    · exact (h.msgs m hold).mono hgrows
    · exact hnew
  answered a ha := by
    rcases hanswered a ha with hold | hnew
    · exact (h.answered a hold).mono hgrows
    · exact hnew
  synced := hsynced

end Growing

namespace Refines

open CounterCluster

variable {n : Nat} {S : Setup n} {cl cl' : CounterCluster n} {w : AbstractWorld n}

/-- A restart of a running server: its state and the configuration come back,
with an empty log store and a new state machine. -/
theorem bootProcess_of_up (h : Refines S cl w) {i : Fin n} {p : Process}
    (hproc : (cl.server i).proc = some p) :
    Server.bootProcess S i (cl.server i).fs =
      some ⟨p.srvState, S.members, .initial S.raw, .initial, .follower, 0⟩ := by
  obtain ⟨hstate, hconfig⟩ := h.disk i
  rw [(h.up i p hproc).srvState]
  simp only [Server.bootProcess, hstate, hconfig]
  rfl

/-- After a save the disk boots into the saved state. -/
theorem disk_saveState (h : Refines S cl w) (i : Fin n) (p : Process) (s : SrvState) :
    VoteNode.bootState S.state (S.mgr i) ((cl.server i).saveState S i p s).fs = some s ∧
      (S.mgr i).loadConfig S.config ((cl.server i).saveState S i p s).fs = .value S.members := by
  obtain ⟨hne, -, hconfig⟩ := (S.mgr i).statePath_ne_configPath
  constructor
  · exact VoteNode.bootState_saveState S.state (S.mgr i) (cl.server i).fs s
  · rw [← (h.disk i).2]
    apply FileStateMgr.loadConfig_congr
    exact writeFile_other (cl.server i).fs _ .done true hne.symm hconfig

theorem bootProcess_eq (h : Refines S cl w) {i : Fin n} {p : Process}
    (hboot : Server.bootProcess S i (cl.server i).fs = some p) :
    p = ⟨⟨(w.node i).term, (w.node i).vote.map srvId⟩, S.members, .initial S.raw, .initial,
      .follower, 0⟩ := by
  obtain ⟨hstate, hconfig⟩ := h.disk i
  simp only [Server.bootProcess, hstate, hconfig, Option.some.injEq] at hboot
  exact hboot.symm

theorem boot (h : Refines S cl w) {i : Fin n} (hstep : Step S cl (.boot i) cl') :
    ∃ event w', Raft.Step LogEntry.term w event w' ∧ Refines S cl' w' := by
  obtain ⟨hproc, p, hboot, rfl⟩ := hstep
  obtain ⟨hrole, hlog, hcommit⟩ := h.down i hproc
  have hraft : Raft.Step LogEntry.term w (.restart i)
      (w.setNode i { w.node i with role := .follower }) := ⟨hrole, rfl⟩
  refine ⟨_, _, hraft, h.update (h.inv.step hraft) (hraft.grows h.inv.elections) i
    (fun j hj => setServer_other cl _ hj) (fun j hj => Function.update_of_ne hj _ _) ?_ ?_ ?_
    (fun m hm => Or.inl hm) (fun a ha => Or.inl ha) ?_⟩
  · simpa [setProcess] using h.disk i
  · simp [setProcess]
  · intro q hq
    simp only [setProcess, setServer_server, Option.some.injEq] at hq
    subst hq
    rw [h.bootProcess_eq hboot]
    constructor <;> simp [hlog, hcommit, MemLogStore.initial_holds, valueAfter,
      CounterStateMachine.initial]
  · intro j
    by_cases hj : j = i
    · subst hj
      simpa using h.synced j
    · simpa [hj] using h.synced j

theorem crash (h : Refines S cl w) {i : Fin n} (hstep : Step S cl (.crash i) cl') :
    ∃ event w', Raft.Step LogEntry.term w event w' ∧ Refines S cl' w' := by
  rw [CounterCluster.Step] at hstep
  subst hstep
  have hraft : Raft.Step LogEntry.term w (.crash i) (w.setNode i
      { w.node i with role := .down, log := [], synced := false, commit := 0 }) := rfl
  refine ⟨_, _, hraft, h.update (h.inv.step hraft) (hraft.grows h.inv.elections) i
    (fun j hj => setServer_other cl _ hj) (fun j hj => Function.update_of_ne hj _ _) ?_ ?_ ?_
    (fun m hm => Or.inl hm) (fun a ha => Or.inl ha) ?_⟩
  · simpa using h.disk i
  · simp
  · simp
  · intro j
    by_cases hj : j = i
    · subst hj
      simp
    · simpa [hj] using h.synced j

theorem learnTerm (h : Refines S cl w) {i : Fin n} {term : Nat}
    (hstep : Step S cl (.learnTerm i term) cl') :
    ∃ event w', Raft.Step LogEntry.term w event w' ∧ Refines S cl' w' := by
  obtain ⟨p, hproc, hlt, -, rfl⟩ := hstep
  have hup := h.up i p hproc
  rw [hup.srvState] at hlt
  have hraft : Raft.Step LogEntry.term w (.updateTerm i term) (w.setNode i
      { w.node i with term := term, vote := none, role := .follower }) := ⟨hup.up, hlt, rfl⟩
  refine ⟨_, _, hraft, h.update (h.inv.step hraft) (hraft.grows h.inv.elections) i
    (fun j hj => setServer_other cl _ hj) (fun j hj => Function.update_of_ne hj _ _) ?_ ?_ ?_
    (fun m hm => Or.inl hm) (fun a ha => Or.inl ha) ?_⟩
  · simpa using h.disk_saveState i { p with role := .follower } ⟨term, none⟩
  · simp [Server.saveState]
  · intro q hq
    simp only [Server.saveState, setServer_server, Option.some.injEq] at hq
    subst hq
    simp only [World.setNode_node, Function.update_self]
    exact ⟨rfl, hup.config, hup.holds, rfl, by simp, hup.commitIdx, hup.applied, hup.value⟩
  · intro j
    by_cases hj : j = i
    · subst hj
      simpa using h.synced j
    · simpa [hj] using h.synced j

theorem timeout (h : Refines S cl w) {i : Fin n} (hsync : cl.synced i = true)
    (hstep : Step S cl (.timeout i) cl') :
    ∃ event w', Raft.Step LogEntry.term w event w' ∧ Refines S cl' w' := by
  obtain ⟨p, e, hproc, hrole, hlast, rfl⟩ := hstep
  have hup := h.up i p hproc
  have hterm : p.srvState.term = (w.node i).term := by rw [hup.srvState]
  have hraft : Raft.Step LogEntry.term w (.stand i) (w.stand i) :=
    ⟨hup.up, by rw [← h.synced]; exact hsync, rfl⟩
  refine ⟨_, _, hraft, h.update (h.inv.step hraft) (hraft.grows h.inv.elections) i
    (fun j hj => setServer_other cl _ hj) (fun j hj => Function.update_of_ne hj _ _) ?_ ?_ ?_
    ?_ (fun a ha => Or.inl ha) ?_⟩
  · simpa [World.stand, hterm, send_server] using
      h.disk_saveState i { p with role := .candidate } ⟨p.srvState.term + 1, some (srvId i)⟩
  · simp [Server.saveState, send_server]
  · intro q hq
    simp only [Server.saveState, CounterCluster.send, setServer_server, Option.some.injEq] at hq
    subst hq
    simp only [World.stand, World.setNode_node, Function.update_self]
    refine ⟨?_, hup.config, hup.holds, rfl, by simp, hup.commitIdx, hup.applied, hup.value⟩
    simp [hterm]
  · intro m hm
    rcases List.mem_append.mp hm with hnew | hold
    · refine Or.inr ?_
      have hlast' := hup.holds.lastEntry
      rw [hlast] at hlast'
      rcases List.mem_cons.mp hnew with rfl | hvote
      · refine ⟨(w.node i).log, ?_, (Option.some.inj hlast').symm, ?_⟩
        · rw [hterm]
          exact World.stand_candLog_self w i
        · rw [hup.holds.nextSlot, Nat.add_sub_cancel]
      · rw [List.mem_singleton] at hvote
        subst hvote
        exact Or.inr ⟨rfl, by rw [hterm], rfl⟩
    · exact Or.inl hold
  · intro j
    by_cases hj : j = i
    · subst hj
      simpa [World.stand, send_server] using h.synced j
    · simpa [hj, send_server] using h.synced j

theorem grantVote (h : Refines S cl w) {i candidate : Fin n} {lastTerm' lastIdx : Nat}
    (hsync : cl.synced i = true)
    (hstep : Step S cl (.grantVote i candidate lastTerm' lastIdx) cl') :
    ∃ event w', Raft.Step LogEntry.term w event w' ∧ Refines S cl' w' := by
  obtain ⟨p, hproc, hmsg, ⟨-, hfree, e, hlast, hdate⟩, rfl⟩ := hstep
  have hup := h.up i p hproc
  have hterm : p.srvState.term = (w.node i).term := by rw [hup.srvState]
  have hlast' := hup.holds.lastEntry
  rw [hlast] at hlast'
  have he : e.term = lastTerm LogEntry.term (w.node i).log := Option.some.inj hlast'
  obtain ⟨x, hx, hxterm, hxlen⟩ := h.msgs _ hmsg
  have hvote : (w.node i).vote = none ∨ (w.node i).vote = some candidate := by
    rw [hup.srvState] at hfree
    cases hcast : (w.node i).vote with
    | none => exact Or.inl rfl
    | some c =>
        rw [hcast] at hfree
        rcases hfree with hnone | hsame
        · cases hnone
        · rw [srvId_injective (Option.some.inj hsame)]
          exact Or.inr rfl
  have huptodate : UpToDate LogEntry.term x (w.node i).log := by
    rw [hup.holds.nextSlot, Nat.add_sub_cancel] at hdate
    unfold UpToDate
    rw [hxterm, hxlen, ← he]
    exact hdate
  have hraft : Raft.Step LogEntry.term w (.grant i candidate) (w.grant i candidate) := by
    refine ⟨hup.up, by rw [← h.synced]; exact hsync, hvote, ⟨x, ?_, huptodate⟩, rfl⟩
    rw [← hterm]
    exact hx
  refine ⟨_, _, hraft, h.update (h.inv.step hraft) (hraft.grows h.inv.elections) i
    (fun j hj => setServer_other cl _ hj) (fun j hj => Function.update_of_ne hj _ _) ?_ ?_ ?_
    ?_ (fun a ha => Or.inl ha) ?_⟩
  · simpa [World.grant, hterm, send_server] using
      h.disk_saveState i p ⟨p.srvState.term, some (srvId candidate)⟩
  · simp [Server.saveState, send_server]
  · intro q hq
    simp only [Server.saveState, CounterCluster.send, setServer_server, Option.some.injEq] at hq
    subst hq
    simp only [World.grant, World.setNode_node, Function.update_self]
    refine ⟨?_, hup.config, hup.holds, hup.role, hup.up, hup.commitIdx, hup.applied, hup.value⟩
    simp [hterm]
  · intro m hm
    rcases List.mem_append.mp hm with hnew | hold
    · rw [List.mem_singleton] at hnew
      subst hnew
      exact Or.inr (Or.inr ⟨rfl, hterm, rfl⟩)
    · exact Or.inl hold
  · intro j
    by_cases hj : j = i
    · subst hj
      simpa [World.grant, send_server] using h.synced j
    · simpa [World.grant, hj, send_server] using h.synced j

theorem getLast?_take_succ {l : List LogEntry} {j : Nat} {e : LogEntry} (he : l[j]? = some e) :
    (l.take (j + 1)).getLast? = some e := by
  rw [List.take_add_one, he]
  simp

/-- The configured majority is the abstract one. -/
theorem majority (h : Refines S cl w) {i : Fin n} {p : Process}
    (hproc : (cl.server i).proc = some p) {Q : Finset (Fin n)} (hQ : Quorum p Q) :
    Majority Q := by
  unfold Quorum at hQ
  rw [(h.up i p hproc).config] at hQ
  simpa [Majority, Setup.members] using hQ

theorem becomeLeader (h : Refines S cl w) {i : Fin n} {voters : Finset (Fin n)}
    (hstep : Step S cl (.becomeLeader i voters) cl') :
    ∃ event w', Raft.Step LogEntry.term w event w' ∧ Refines S cl' w' := by
  obtain ⟨p, hproc, hrole, hQ, hvotes, rfl⟩ := hstep
  have hup := h.up i p hproc
  have hterm : p.srvState.term = (w.node i).term := by rw [hup.srvState]
  have hraft : Raft.Step LogEntry.term w (.elect i) (w.elect i) := by
    refine ⟨hup.role ▸ hrole, ⟨voters, h.majority hproc hQ, fun v hv => ?_⟩, rfl⟩
    rw [← hterm]
    exact h.msgs _ (hvotes v hv)
  refine ⟨_, _, hraft, h.update (h.inv.step hraft) (hraft.grows h.inv.elections) i
    (fun j hj => setServer_other cl _ hj) (fun j hj => Function.update_of_ne hj _ _) ?_ ?_ ?_
    (fun m hm => Or.inl hm) (fun a ha => Or.inl ha) ?_⟩
  · simpa [World.elect, setProcess] using h.disk i
  · simp [setProcess]
  · intro q hq
    simp only [setProcess, setServer_server, Option.some.injEq] at hq
    subst hq
    simp only [World.elect, World.setNode_node, Function.update_self]
    exact ⟨hup.srvState, hup.config, hup.holds, rfl, by simp, hup.commitIdx, hup.applied,
      hup.value⟩
  · intro j
    by_cases hj : j = i
    · subst hj
      simpa [World.elect] using h.synced j
    · simpa [World.elect, hj] using h.synced j

theorem submit (h : Refines S cl w) {i : Fin n} {e : CounterEntry}
    (hstep : Step S cl (.submit i e) cl') :
    ∃ event w', Raft.Step LogEntry.term w event w' ∧ Refines S cl' w' := by
  obtain ⟨p, hproc, hrole, rfl⟩ := hstep
  have hup := h.up i p hproc
  have hterm : p.srvState.term = (w.node i).term := by rw [hup.srvState]
  let entry := logEntryOf S.fmt p.srvState.term e
  have hraft : Raft.Step LogEntry.term w (.append i entry) (w.append i entry) :=
    ⟨hup.role ▸ hrole, (logEntryOf_term _ _ _).trans hterm, rfl⟩
  have hcommit := (h.inv.committed i).1
  refine ⟨_, _, hraft, h.update (h.inv.step hraft) (hraft.grows h.inv.elections) i
    (fun j hj => setServer_other cl _ hj) (fun j hj => Function.update_of_ne hj _ _) ?_ ?_ ?_
    (fun m hm => Or.inl hm) (fun a ha => Or.inl ha) ?_⟩
  · simpa [World.append, setProcess] using h.disk i
  · simp [setProcess]
  · intro q hq
    simp only [setProcess, setServer_server, Option.some.injEq] at hq
    subst hq
    simp only [World.append, World.setNode_node, Function.update_self]
    refine ⟨hup.srvState, hup.config, hup.holds.append entry, hup.role, hup.up, hup.commitIdx,
      hup.applied, ?_⟩
    rw [List.take_append_of_le_length (hup.applied.trans hcommit)]
    exact hup.value
  · intro j
    by_cases hj : j = i
    · subst hj
      simpa [World.append] using h.synced j
    · simpa [World.append, hj] using h.synced j

/-- Sending changes no server. What is sent is cut from the leader's log. -/
theorem sendAppend (h : Refines S cl w) {i : Fin n} {prevIdx stop : Nat}
    (hstep : Step S cl (.sendAppend i prevIdx stop) cl') : Refines S cl' w := by
  obtain ⟨p, prevTerm, entries, hproc, hrole, hle, hstop, hprev, hentries, rfl⟩ := hstep
  have hup := h.up i p hproc
  have hterm : p.srvState.term = (w.node i).term := by rw [hup.srvState]
  have hlead := h.inv.elections.leader i (hup.role ▸ hrole)
  obtain ⟨hcommit, hby⟩ := h.inv.committed i
  rw [hup.holds.nextSlot] at hstop
  rw [hup.holds.logEntries hle (by omega), Option.some.injEq] at hentries
  refine ⟨h.inv, h.disk, h.down, h.up, ?_, h.answered, h.synced⟩
  intro m hm
  rcases List.mem_append.mp hm with hnew | hold
  · rw [List.mem_singleton] at hnew
    subst hnew
    rw [hterm, hup.commitIdx]
    refine ⟨_, hlead, ?_, by omega, ?_, hcommit, hby⟩
    · rw [← hentries]
      exact List.take_prefix _ _
    · rintro j rfl
      have hlt : j < (w.node i).log.length := by omega
      rw [hup.holds.termAt (List.getElem?_eq_getElem hlt)] at hprev
      simpa [List.getElem?_eq_getElem hlt] using hprev
  · exact h.msgs m hold

/-- A request that passes the check of its previous entry comes from a log
that agrees with this one up to there. -/
theorem agree_of_logOk (h : Refines S cl w) {i leader : Fin n} {p : Process}
    (hproc : (cl.server i).proc = some p) {prevIdx prevTerm : Nat} (hok : p.logOk prevIdx prevTerm)
    {term : Nat} {l : List LogEntry} (hl : w.leaderLog term = some (leader, l))
    (hterm : ∀ j, prevIdx = j + 1 → (l[j]?).map LogEntry.term = some prevTerm) :
    prevIdx ≤ (w.node i).log.length ∧ (w.node i).log.take prevIdx = l.take prevIdx := by
  have hup := h.up i p hproc
  cases prevIdx with
  | zero => simp
  | succ j =>
      obtain ⟨e', he', heq'⟩ := Option.map_eq_some_iff.mp (hterm j rfl)
      rcases hok with hzero | ⟨hslot, hprev⟩
      · cases hzero
      · rw [hup.holds.nextSlot] at hslot
        have hlt : j < (w.node i).log.length := by omega
        have he := List.getElem?_eq_getElem hlt
        rw [hup.holds.termAt he, Option.some.injEq] at hprev
        refine ⟨by omega, ?_⟩
        have hsucc : (w.node i).log.take (j + 1) = (w.node i).log.take j ++ [(w.node i).log[j]] := by
          rw [List.take_add_one, he]
          rfl
        have hsucc' : l.take (j + 1) = l.take j ++ [e'] := by
          rw [List.take_add_one, he']
          rfl
        have hlt' : j < l.length := (List.getElem?_eq_some_iff.mp he').1
        rw [hsucc, hsucc']
        refine (h.inv.logs.node i).agree (h.inv.logs.leader term leader l hl) ?_ ?_ ?_ ?_
        · rw [← hsucc]
          exact List.take_prefix _ _
        · rw [← hsucc']
          exact List.take_prefix _ _
        · simp only [List.length_take]
          omega
        · rw [hprev, heq']

theorem handleAppend (h : Refines S cl w) {i leader : Fin n} {prevIdx prevTerm commitIdx : Nat}
    {entries : List LogEntry}
    (hstep : Step S cl (.handleAppend i leader prevIdx prevTerm entries commitIdx) cl') :
    ∃ event w', Raft.Step LogEntry.term w event w' ∧ Refines S cl' w' := by
  obtain ⟨p, hproc, hrole, hmsg, rfl⟩ := hstep
  have hup := h.up i p hproc
  have hterm : p.srvState.term = (w.node i).term := by rw [hup.srvState]
  obtain ⟨l, hl, hentries, hprevle, hprev, hcommitle, hby⟩ := h.msgs _ hmsg
  rw [hterm] at hl hby
  have hnotLeader : (w.node i).role ≠ .leader := fun hlead => hrole (hup.role.trans hlead)
  -- a rejected request offers nothing
  obtain ⟨offered, commit, hoffered, hcommit, hcby, hstore, hcommitIdx, hreply⟩ :
      ∃ offered commit, offered <+: l ∧ commit ≤ offered.length ∧
        CommittedBy LogEntry.term w (w.node i).term (offered.take commit) ∧
        (p.appendEntries prevIdx prevTerm entries commitIdx).logStore.Holds S.raw
          (takeOver (w.node i).log offered) ∧
        (p.appendEntries prevIdx prevTerm entries commitIdx).commitIdx =
          max (w.node i).commit commit ∧
        (p.logOk prevIdx prevTerm → prevIdx + entries.length = offered.length) := by
    by_cases hok : p.logOk prevIdx prevTerm
    · obtain ⟨hle, hagree⟩ := h.agree_of_logOk hproc hok hl hprev
      have hoffered : l.take prevIdx ++ entries <+: l := by
        obtain ⟨rest, hrest⟩ := hentries
        exact ⟨rest, by rw [List.append_assoc, hrest, List.take_append_drop]⟩
      have hlen : (l.take prevIdx ++ entries).length = prevIdx + entries.length := by
        simp [hprevle]
      refine ⟨l.take prevIdx ++ entries, min commitIdx (prevIdx + entries.length), hoffered,
        by omega, ?_, ?_, ?_, fun _ => hlen.symm⟩
      · apply hby.shorten
        refine prefix_of_length_le ((List.take_prefix _ _).trans hoffered)
          (List.take_prefix _ _) ?_
        simp only [List.length_take]
        omega
      · rw [← MemLogStore.mergeFrom_eq_takeOver (h.inv.logs.node i)
          (h.inv.logs.leader _ _ _ hl) hle hagree hentries]
        simpa [Process.appendEntries, hok] using hup.holds.storeEntries hle entries
      · simp [Process.appendEntries, hok, hup.commitIdx]
    · refine ⟨[], 0, List.nil_prefix, le_rfl, Or.inl rfl, ?_, ?_, fun hyes => absurd hyes hok⟩
      · rw [takeOver, if_pos List.nil_prefix]
        simpa [Process.appendEntries, hok] using hup.holds
      · simp [Process.appendEntries, hok, hup.commitIdx]
  have hsame : (p.appendEntries prevIdx prevTerm entries commitIdx).srvState = p.srvState ∧
      (p.appendEntries prevIdx prevTerm entries commitIdx).config = p.config ∧
      (p.appendEntries prevIdx prevTerm entries commitIdx).sm = p.sm ∧
      (p.appendEntries prevIdx prevTerm entries commitIdx).role = .follower := by
    unfold Process.appendEntries
    split <;> exact ⟨rfl, rfl, rfl, rfl⟩
  obtain ⟨hsrvState, hconfig, hsm, hfollower⟩ := hsame
  have hraft : Raft.Step LogEntry.term w (.accept i offered commit)
      (w.accept i offered commit) :=
    ⟨hup.up, hnotLeader, ⟨leader, l, hl, hoffered⟩, hcommit, hcby, rfl⟩
  have hkeep := h.inv.committed.takeOver_extends h.inv.complete hl hoffered
  refine ⟨_, _, hraft, h.update (h.inv.step hraft) (hraft.grows h.inv.elections) i
    (fun j hj => setServer_other cl _ hj) (fun j hj => Function.update_of_ne hj _ _) ?_ ?_ ?_
    ?_ (fun a ha => Or.inl ha) ?_⟩
  · simpa [World.accept, setProcess, send_server] using h.disk i
  · simp [setProcess, send_server]
  · intro q hq
    simp only [setProcess, send_server, setServer_server, Option.some.injEq] at hq
    subst hq
    simp only [World.accept, World.setNode_node, Function.update_self]
    refine ⟨by rw [hsrvState, hup.srvState], by rw [hconfig, hup.config], hstore, hfollower,
      by simp, hcommitIdx, ?_, ?_⟩
    · rw [hsm]
      exact hup.applied.trans (le_max_left _ _)
    · rw [hsm, hup.value]
      obtain ⟨rest, hrest⟩ := hkeep
      have hlen : p.sm.lastCommittedIdx ≤ ((w.node i).log.take (w.node i).commit).length := by
        have hle := (h.inv.committed i).1
        have happlied := hup.applied
        simp only [List.length_take]
        omega
      rw [← hrest, List.take_append_of_le_length hlen, List.take_take,
        Nat.min_eq_left hup.applied]
  · intro m hm
    rcases List.mem_append.mp hm with hnew | hold
    · split at hnew
      · next hok =>
        rw [List.mem_singleton] at hnew
        subst hnew
        refine Or.inr ?_
        have hself := World.raiseStored_self w i (w.node i).term offered.length
        rw [hterm, hreply hok]
        simp only [MessageOk, World.accept, hself]
        exact le_max_right _ _
      · simp at hnew
    · exact Or.inl hold
  · intro j
    by_cases hj : j = i
    · subst hj
      simpa [World.accept] using h.synced j
    · simpa [World.accept, hj] using h.synced j

theorem advanceCommit (h : Refines S cl w) {i : Fin n} {idx : Nat} {holders : Finset (Fin n)}
    (hstep : Step S cl (.advanceCommit i idx holders) cl') :
    ∃ event w', Raft.Step LogEntry.term w event w' ∧ Refines S cl' w' := by
  obtain ⟨p, hproc, hrole, hpos, hslot, hidx, hQ, hholders, rfl⟩ := hstep
  have hup := h.up i p hproc
  have hterm : p.srvState.term = (w.node i).term := by rw [hup.srvState]
  have hleader : (w.node i).role = .leader := hup.role ▸ hrole
  have hlead := h.inv.elections.leader i hleader
  rw [hup.holds.nextSlot] at hslot
  obtain ⟨j, rfl⟩ : ∃ j, idx = j + 1 := ⟨idx - 1, by omega⟩
  have hlt : j < (w.node i).log.length := by omega
  have he := List.getElem?_eq_getElem hlt
  rw [hup.holds.termAt he, Option.some.injEq, hterm] at hidx
  have hlen : ((w.node i).log.take (j + 1)).length = j + 1 := by
    simp only [List.length_take]
    omega
  have hcommit : Commit LogEntry.term w (w.node i).term ((w.node i).log.take (j + 1)) := by
    refine ⟨⟨i, _, hlead, List.take_prefix _ _, (w.node i).log[j], ?_, hidx⟩, holders,
      h.majority hproc hQ, ?_⟩
    · exact getLast?_take_succ he
    · intro v hv
      rw [hlen]
      rcases hholders v hv with rfl | ⟨stored, hle, hreply⟩
      · exact le_trans (by omega) (h.inv.elections.leader_stored v hleader)
      · have hstored := h.msgs _ hreply
        rw [hterm] at hstored
        exact le_trans hle hstored
  have hraft : Raft.Step LogEntry.term w (.advance i (j + 1))
      (w.setNode i { w.node i with commit := max (w.node i).commit (j + 1) }) :=
    ⟨hleader, by omega, hcommit, rfl⟩
  refine ⟨_, _, hraft, h.update (h.inv.step hraft) (hraft.grows h.inv.elections) i
    (fun j hj => setServer_other cl _ hj) (fun j hj => Function.update_of_ne hj _ _) ?_ ?_ ?_
    (fun m hm => Or.inl hm) (fun a ha => Or.inl ha) ?_⟩
  · simpa [setProcess] using h.disk i
  · simp [setProcess]
  · intro q hq
    simp only [setProcess, setServer_server, Option.some.injEq] at hq
    subst hq
    simp only [World.setNode_node, Function.update_self]
    exact ⟨hup.srvState, hup.config, hup.holds, hup.role, hup.up, by simp [hup.commitIdx],
      hup.applied.trans (le_max_left _ _), hup.value⟩
  · intro v
    by_cases hv : v = i
    · subst hv
      simpa using h.synced v
    · simpa [hv] using h.synced v

/-- What a leader has committed of its own term, a majority stored in that
term. -/
theorem commit_of_leader (h : Refines S cl w) {i : Fin n} (hrole : (w.node i).role = .leader)
    {j : Nat} (hj : j < (w.node i).commit) {e : LogEntry} (he : (w.node i).log[j]? = some e)
    (hterm : e.term = (w.node i).term) :
    Commit LogEntry.term w (w.node i).term ((w.node i).log.take (j + 1)) := by
  have hlead := h.inv.elections.leader i hrole
  have hlast := getLast?_take_succ he
  obtain ⟨hle, hby⟩ := h.inv.committed i
  have hby' := hby.shorten (q := (w.node i).log.take (j + 1)) (by
    apply prefix_of_length_le (List.take_prefix _ _) (List.take_prefix _ _)
    simp only [List.length_take]
    omega)
  rcases hby' with hnil | ⟨T, q, hT, hcommit, hpre⟩
  · rw [hnil] at hlast
    cases hlast
  · have hmem : e ∈ q := hpre.subset (List.mem_of_getLast? hlast)
    have hle := hcommit.1.term_le h.inv.logs e hmem
    obtain rfl : T = (w.node i).term := by omega
    obtain ⟨-, Q, hQ, hstored⟩ := hcommit
    refine ⟨⟨i, _, hlead, List.take_prefix _ _, e, hlast, hterm⟩, Q, hQ, fun v hv => ?_⟩
    exact hpre.length_le.trans (hstored v hv)

/-- Applying an entry changes no abstract state. -/
theorem applyNext (h : Refines S cl w) {i : Fin n} (hstep : Step S cl (.applyNext i) cl') :
    Refines S cl' w := by
  obtain ⟨p, e, reply, sm, hproc, hlt, hentry, hcommit, rfl⟩ := hstep
  have hup := h.up i p hproc
  have hterm : p.srvState.term = (w.node i).term := by rw [hup.srvState]
  obtain ⟨hvalue, hidx, hreply⟩ := commitLogEntry_eq hcommit
  rw [hup.commitIdx] at hlt
  have hlog : p.sm.lastCommittedIdx < (w.node i).log.length :=
    lt_of_lt_of_le hlt (h.inv.committed i).1
  have he := List.getElem?_eq_getElem hlog
  rw [hup.holds.entryAt he, Option.some.injEq] at hentry
  rw [hentry] at he
  have hnext : sm.value =
      valueAfter S.fmt ((w.node i).log.take (p.sm.lastCommittedIdx + 1)) := by
    rw [hvalue, hup.value, List.take_add_one, he, valueAfter_append]
    simp [valueAfter]
  refine h.update h.inv (.refl w) i (fun j hj => setServer_other cl _ hj) (fun _ _ => rfl) ?_ ?_
    ?_ (fun m hm => Or.inl hm) ?_ ?_
  · simpa [setProcess] using h.disk i
  · simp [setProcess]
  · intro q hq
    simp only [setProcess, setServer_server, Option.some.injEq] at hq
    subst hq
    refine ⟨hup.srvState, hup.config, hup.holds, hup.role, hup.up, hup.commitIdx, ?_, ?_⟩
    · rw [hidx]
      exact hlt
    · rw [hidx]
      exact hnext
  · intro a ha
    simp only at ha
    split at ha
    · next hanswers =>
      rcases List.mem_cons.mp ha with rfl | hold
      · refine Or.inr ⟨(w.node i).log.take (p.sm.lastCommittedIdx + 1), ?_, ?_, ?_, ?_⟩
        · have hown := hanswers.2.trans hterm
          simp only [hown]
          exact h.commit_of_leader (hup.role ▸ hanswers.1) hlt he hown
        · simp only [List.length_take]
          omega
        · exact getLast?_take_succ he
        · rw [hreply, hnext]
      · exact Or.inl hold
    · exact Or.inl ha
  · intro j
    simpa using h.synced j

theorem caughtUp (h : Refines S cl w) {i leader : Fin n}
    (hstep : Step S cl (.caughtUp i leader) cl') :
    ∃ event w', Raft.Step LogEntry.term w event w' ∧ Refines S cl' w' := by
  obtain ⟨p, q, hproc, hproc', hrole, hterm, hsame, rfl⟩ := hstep
  have hup := h.up i p hproc
  have hup' := h.up leader q hproc'
  rw [hup.srvState, hup'.srvState] at hterm
  have hlog : (w.node i).log = (w.node leader).log := by
    rw [hup.holds.entries, hup'.holds.entries, List.cons.injEq] at hsame
    exact IndexedLog.assocFrom_injective 1 hsame.2
  have hraft : Raft.Step LogEntry.term w (.sync i leader)
      (w.setNode i { w.node i with synced := true }) :=
    ⟨hup.up, hup'.role ▸ hrole, hterm, hlog, rfl⟩
  refine ⟨_, _, hraft, h.update (h.inv.step hraft) (hraft.grows h.inv.elections) i
    (fun _ _ => rfl) (fun j hj => Function.update_of_ne hj _ _) ?_ ?_ ?_ (fun m hm => Or.inl hm)
    (fun a ha => Or.inl ha) ?_⟩
  · simpa using h.disk i
  · intro hnone
    simp [hproc] at hnone
  · intro q' hq'
    obtain rfl : p = q' := Option.some.inj (hproc.symm.trans hq')
    simp only [World.setNode_node, Function.update_self]
    exact ⟨hup.srvState, hup.config, hup.holds, hup.role, hup.up, hup.commitIdx, hup.applied,
      hup.value⟩
  · intro j
    by_cases hj : j = i
    · subst hj
      simp
    · simpa [hj] using h.synced j

theorem initial (hinit : Initial S cl) : Refines S cl initialWorld where
  inv := inv_initialWorld
  disk i := by
    obtain ⟨hstate, hconfig, -⟩ := hinit.1 i
    constructor
    · simp [VoteNode.bootState, FileStateMgr.readState, readFile, hstate, initialWorld,
        SrvState.fresh]
    · exact FileStateMgr.loadConfig_of_content S.config hconfig
  down i hproc := by
    obtain ⟨hstate, hconfig, hboot⟩ := hinit.1 i
    rw [hboot] at hproc
    simp [Server.bootProcess, VoteNode.bootState, FileStateMgr.readState, readFile, hstate,
      FileStateMgr.loadConfig_of_content S.config hconfig] at hproc
  up i p hproc := by
    obtain ⟨hstate, hconfig, hboot⟩ := hinit.1 i
    rw [hboot] at hproc
    simp only [Server.bootProcess, VoteNode.bootState, FileStateMgr.readState, readFile, hstate,
      FileStateMgr.loadConfig_of_content S.config hconfig, Option.some.injEq] at hproc
    subst hproc
    refine ⟨rfl, rfl, MemLogStore.initial_holds S.raw, rfl, ?_, rfl, le_rfl, rfl⟩
    intro hleads
    cases hleads
  msgs := by simp [hinit.2.1]
  answered := by simp [hinit.2.2.1]
  synced i := by simp [hinit.2.2.2, initialWorld]

end Refines

namespace CounterCluster

variable {n : Nat} (S : Setup n)

/-- The cluster is a replicated log as long as only servers that have caught up
take part in elections. -/
theorem refines_simulation :
    (votingSystem S).WeakSimulation (Raft.system LogEntry.term) (Refines S) where
  init cl hinit := ⟨initialWorld, rfl, .initial hinit⟩
  step cl event cl' w h hstep := by
    obtain ⟨hsynced, -, hstep⟩ := hstep
    have hone (hmatch : ∃ event w', Raft.Step LogEntry.term w event w' ∧ Refines S cl' w') :
        ∃ events w', (Raft.system LogEntry.term).Run w events w' ∧ Refines S cl' w' := by
      obtain ⟨event, w', hraft, h'⟩ := hmatch
      exact ⟨[event], w', .single hraft, h'⟩
    cases event with
    | boot i => exact hone (h.boot hstep)
    | crash i => exact hone (h.crash hstep)
    | learnTerm i term => exact hone (h.learnTerm hstep)
    | timeout i => exact hone (h.timeout hsynced hstep)
    | grantVote i candidate lastTerm lastIdx => exact hone (h.grantVote hsynced hstep)
    | becomeLeader i voters => exact hone (h.becomeLeader hstep)
    | submit i e => exact hone (h.submit hstep)
    | sendAppend i prevIdx stop => exact ⟨[], w, .nil, h.sendAppend hstep⟩
    | handleAppend i leader prevIdx prevTerm entries commitIdx =>
        exact hone (h.handleAppend hstep)
    | advanceCommit i idx holders => exact hone (h.advanceCommit hstep)
    | applyNext i => exact ⟨[], w, .nil, h.applyNext hstep⟩
    | caughtUp i leader => exact hone (h.caughtUp hstep)

end CounterCluster

end CppWorkspace.RaftRpc
