import CppWorkspace.RaftRpc.FileStateMgr

/-!
Votes across restarts. A node persists its term and vote with `save_state`
before a vote leaves it; the process can die after any system call of that
save, and a new one boots from `read_state`.
-/

namespace CppWorkspace.RaftRpc

open Lib FileStateMgr System

namespace SrvState

/-- The state of a server that has never voted. -/
def fresh : SrvState := ⟨0, none⟩

/-- `s'` is reached from `s` by raising the term or voting in it. -/
def Extends (s s' : SrvState) : Prop :=
  s.term < s'.term ∨ s.term = s'.term ∧ (s.votedFor = none ∨ s.votedFor = s'.votedFor)

/-- The vote for `candidate` in `term` is remembered, or its term is over. -/
def Covers (s : SrvState) (term : Nat) (candidate : Int) : Prop :=
  term < s.term ∨ term = s.term ∧ s.votedFor = some candidate

theorem Extends.refl (s : SrvState) : s.Extends s := Or.inr ⟨rfl, Or.inr rfl⟩

theorem Covers.extend {s s' : SrvState} {term : Nat} {candidate : Int}
    (hcovers : s.Covers term candidate) (hextends : s.Extends s') :
    s'.Covers term candidate := by
  unfold Covers Extends at *
  rcases hextends with hless | ⟨hterm, hnone | hsame⟩
  · exact Or.inl (by omega)
  · rcases hcovers with hless | ⟨-, hvoted⟩
    · exact Or.inl (by omega)
    · simp [hnone] at hvoted
  · rw [← hterm, ← hsame]
    exact hcovers

/-- When NuRaft grants a vote. -/
def Grants (s : SrvState) (term : Nat) (candidate : Int) : Prop :=
  s.term < term ∨ s.term = term ∧ (s.votedFor = none ∨ s.votedFor = some candidate)

instance (s : SrvState) (term : Nat) (candidate : Int) :
    Decidable (s.Grants term candidate) :=
  inferInstanceAs (Decidable (_ ∨ _))

end SrvState

/-- A running process: its state in memory, the system calls of the save it is
in, and the vote it sends when they are done. -/
structure Voter where
  state : SrvState
  pending : List FileOp
  reply : Option (Nat × Int)

/-- A node: its disk, its process if one is running, and the votes that ever
left it. -/
structure VoteNode where
  fs : FileSystem
  proc : Option Voter
  sent : List (Nat × Int)

inductive VoteEvent where
  | boot
  | crash
  | request (term : Nat) (candidate : Int)
  | updateTerm (term : Nat)
  | io
  | send
deriving Repr, DecidableEq

namespace VoteNode

variable (state : ObjectFormat SrvState) (mgr : FileStateMgr)

/-- The system calls of `save_state`. -/
def saveStateOps (s : SrvState) : List FileOp :=
  writeFileOps mgr.statePath (state.serialize s)

/-- The state a process boots from; `none` when `read_state` throws. -/
def bootState (fs : FileSystem) : Option SrvState :=
  match mgr.readState state fs with
  | .null => some .fresh
  | .value s => some s
  | .throws => none

theorem saveStateOps_saveState (fs : FileSystem) (s : SrvState) :
    fs.applyOps (saveStateOps state mgr s) = mgr.saveState state fs s .done true :=
  (writeFile_done _ _ _).symm

/-- A process boots from what was saved last. -/
theorem bootState_saveState (fs : FileSystem) (s : SrvState) :
    bootState state mgr (mgr.saveState state fs s .done true) = some s := by
  have hcontent := writeFile_target fs mgr.statePath (state.serialize s) .done true
  have hread := mgr.readState_of_content state hcontent
  simp only [bootState, FileStateMgr.saveState, hread]

/-- One event. A request or a new term is looked at only between saves. -/
def next (n : VoteNode) : VoteEvent → VoteNode
  | .boot =>
      match n.proc with
      | none => { n with proc := (bootState state mgr n.fs).map fun s => ⟨s, [], none⟩ }
      | some _ => n
  | .crash => { n with proc := none }
  | .request term candidate =>
      match n.proc with
      | some ⟨s, [], none⟩ =>
          if s.Grants term candidate then
            let s' : SrvState := ⟨term, some candidate⟩
            { n with proc := some ⟨s', saveStateOps state mgr s', some (term, candidate)⟩ }
          else n
      | _ => n
  | .updateTerm term =>
      match n.proc with
      | some ⟨s, [], none⟩ =>
          if s.term < term then
            let s' : SrvState := ⟨term, none⟩
            { n with proc := some ⟨s', saveStateOps state mgr s', none⟩ }
          else n
      | _ => n
  | .io =>
      match n.proc with
      | some ⟨s, op :: rest, reply⟩ =>
          { n with fs := n.fs.applyOp op, proc := some ⟨s, rest, reply⟩ }
      | _ => n
  | .send =>
      match n.proc with
      | some ⟨s, [], some vote⟩ =>
          { n with proc := some ⟨s, [], none⟩, sent := vote :: n.sent }
      | _ => n

/-- Every sequence of events, from any disk. -/
def system : System VoteNode VoteEvent where
  init n := n.proc = none ∧ n.sent = []
  step n event n' := n' = n.next state mgr event

/-- What a disk remembers: an unreadable state file counts as nothing. -/
def remembered (fs : FileSystem) : SrvState :=
  (bootState state mgr fs).getD .fresh

/-- The save that is under way: its first `k` calls have been made on `fs₀`,
and the state it saves extends what `fs₀` remembers. -/
structure Saving (fs : FileSystem) (p : Voter) : Prop where
  progress : ∃ (fs₀ : FileSystem) (k : Nat), p.pending = (saveStateOps state mgr p.state).drop k ∧
    k < (saveStateOps state mgr p.state).length ∧
    fs = fs₀.applyOps ((saveStateOps state mgr p.state).take k)
  extends_disk : (remembered state mgr fs).Extends p.state

/-- The invariant. The disk covers every vote that left the node, and the
process is between saves with its state on disk, or in a save. -/
structure Inv (n : VoteNode) : Prop where
  covered : ∀ v ∈ n.sent, (remembered state mgr n.fs).Covers v.1 v.2
  unique : ∀ v ∈ n.sent, ∀ v' ∈ n.sent, v.1 = v'.1 → v = v'
  process : ∀ p, n.proc = some p →
    (p.pending = [] ∧ remembered state mgr n.fs = p.state) ∨ Saving state mgr n.fs p
  reply : ∀ p, n.proc = some p → ∀ v, p.reply = some v → p.state = ⟨v.1, some v.2⟩

theorem remembered_of_content {fs : FileSystem} {s : SrvState}
    (h : fs mgr.statePath = some (state.serialize s)) :
    remembered state mgr fs = s := by
  simp [remembered, bootState, mgr.readState_of_content state h]

theorem remembered_congr {fs fs' : FileSystem}
    (h : fs mgr.statePath = fs' mgr.statePath) :
    remembered state mgr fs = remembered state mgr fs' := by
  simp only [remembered, bootState, mgr.readState_congr state h]

/-- During a save the disk remembers what it did before, and after the last
call the saved state. -/
theorem remembered_saveStateOps (fs : FileSystem) (s : SrvState) (k : Nat) :
    remembered state mgr (fs.applyOps ((saveStateOps state mgr s).take k)) =
      if k < (saveStateOps state mgr s).length then remembered state mgr fs else s := by
  have hatomic := FileSystem.replace_atomic fs (tmpOf_ne mgr.statePath) (state.serialize s) k
  simp only [saveStateOps, writeFileOps, FileSystem.replaceOps_length]
  split
  · next hk =>
    rw [if_pos hk] at hatomic
    exact remembered_congr state mgr hatomic
  · next hk =>
    rw [if_neg hk] at hatomic
    exact remembered_of_content state mgr hatomic

/-- A save can start as soon as the state it saves extends the disk's. -/
theorem Saving.start {fs : FileSystem} {s : SrvState} (reply : Option (Nat × Int))
    (h : (remembered state mgr fs).Extends s) :
    Saving state mgr fs ⟨s, saveStateOps state mgr s, reply⟩ where
  progress := ⟨fs, 0, by simp, by simp [saveStateOps, writeFileOps], by simp [FileSystem.applyOps]⟩
  extends_disk := h

/-- One call of a save: the save goes on, or the state is on disk. -/
theorem Saving.io {fs : FileSystem} {s : SrvState} {op : FileOp} {rest : List FileOp}
    {reply : Option (Nat × Int)} (h : Saving state mgr fs ⟨s, op :: rest, reply⟩) :
    (rest = [] ∧ remembered state mgr (fs.applyOp op) = s) ∨
      (remembered state mgr (fs.applyOp op) = remembered state mgr fs ∧
        Saving state mgr (fs.applyOp op) ⟨s, rest, reply⟩) := by
  obtain ⟨⟨fs₀, k, hpending, hk, rfl⟩, hextends⟩ := h
  simp only at hpending hk hextends ⊢
  generalize hops : saveStateOps state mgr s = ops at *
  have hop : ops[k]? = some op := by
    rw [← List.head?_drop, ← hpending, List.head?_cons]
  have hrest : rest = ops.drop (k + 1) := by
    rw [← List.tail_drop, ← hpending, List.tail_cons]
  have hstep := FileSystem.applyOps_take_succ fs₀ hop
  have hbefore := remembered_saveStateOps state mgr fs₀ s k
  have hafter := remembered_saveStateOps state mgr fs₀ s (k + 1)
  rw [hops] at hbefore hafter
  rw [if_pos hk] at hbefore
  rw [← hstep]
  by_cases hlast : k + 1 < ops.length
  · rw [if_pos hlast] at hafter
    refine Or.inr ⟨hafter.trans hbefore.symm, ?_, ?_⟩
    · exact ⟨fs₀, k + 1, by simp [hops, hrest], by simpa [hops] using hlast, by simp [hops]⟩
    · rw [hafter, ← hbefore]
      exact hextends
  · rw [if_neg hlast] at hafter
    exact Or.inl ⟨by rw [hrest, List.drop_eq_nil_of_le (by omega)], hafter⟩

theorem boot_remembered {fs : FileSystem} {s : SrvState}
    (h : bootState state mgr fs = some s) : remembered state mgr fs = s := by
  rw [remembered, h]
  rfl

/-- A grant or a new term extends the state it starts from. -/
theorem extends_of_grants {s : SrvState} {term : Nat} {candidate : Int}
    (h : s.Grants term candidate) : s.Extends ⟨term, some candidate⟩ := h

/-- Between saves the state of the process is on disk. -/
theorem Inv.idle {n : VoteNode} (h : n.Inv state mgr) {s : SrvState}
    {reply : Option (Nat × Int)} (hproc : n.proc = some ⟨s, [], reply⟩) :
    remembered state mgr n.fs = s := by
  rcases h.process _ hproc with ⟨-, hdisk⟩ | hsaving
  · exact hdisk
  · obtain ⟨⟨fs₀, k, hpending, hk, -⟩, -⟩ := hsaving
    have hlen : 0 = (saveStateOps state mgr s).length - k := by
      simpa using congrArg List.length hpending
    simp only at hk
    omega

/-- Starting to save a state that extends the one on disk. -/
theorem Inv.startSave {n : VoteNode} (h : n.Inv state mgr) {s s' : SrvState}
    {reply : Option (Nat × Int)} (hproc : n.proc = some ⟨s, [], none⟩) (hextends : s.Extends s')
    (hreply : ∀ v, reply = some v → s' = ⟨v.1, some v.2⟩) :
    Inv state mgr { n with proc := some ⟨s', saveStateOps state mgr s', reply⟩ } where
  covered := h.covered
  unique := h.unique
  process := by
    intro p hp
    cases hp
    refine Or.inr (Saving.start state mgr reply ?_)
    rw [h.idle state mgr hproc]
    exact hextends
  reply := by
    intro p hp
    cases hp
    exact hreply

/-- One system call of a save. -/
theorem Inv.io {n : VoteNode} (h : n.Inv state mgr) {s : SrvState} {op : FileOp}
    {rest : List FileOp} {reply : Option (Nat × Int)}
    (hproc : n.proc = some ⟨s, op :: rest, reply⟩) :
    Inv state mgr { n with fs := n.fs.applyOp op, proc := some ⟨s, rest, reply⟩ } := by
  have hsaving : Saving state mgr n.fs ⟨s, op :: rest, reply⟩ := by
    rcases h.process _ hproc with ⟨hnil, -⟩ | hsaving
    · cases hnil
    · exact hsaving
  have hreply := h.reply _ hproc
  rcases hsaving.io with ⟨hnil, hdisk⟩ | ⟨hdisk, hsaving'⟩
  · constructor
    · intro v hv
      rw [hdisk]
      exact (h.covered v hv).extend hsaving.extends_disk
    · exact h.unique
    · intro p hp
      cases hp
      exact Or.inl ⟨hnil, hdisk⟩
    · intro p hp
      cases hp
      exact hreply
  · constructor
    · intro v hv
      rw [hdisk]
      exact h.covered v hv
    · exact h.unique
    · intro p hp
      cases hp
      exact Or.inr hsaving'
    · intro p hp
      cases hp
      exact hreply

/-- A vote leaves the node: its state is on disk, and the disk covers every
earlier vote. -/
theorem Inv.send {n : VoteNode} (h : n.Inv state mgr) {s : SrvState} {vote : Nat × Int}
    (hproc : n.proc = some ⟨s, [], some vote⟩) :
    Inv state mgr { n with proc := some ⟨s, [], none⟩, sent := vote :: n.sent } := by
  have hdisk := h.idle state mgr hproc
  have hs : s = ⟨vote.1, some vote.2⟩ := h.reply _ hproc vote rfl
  have hsame : ∀ v ∈ n.sent, v.1 = vote.1 → v = vote := by
    intro v hv hterm
    have hcovers := h.covered v hv
    rw [hdisk, hs] at hcovers
    rcases hcovers with hless | ⟨-, hvoted⟩
    · simp only at hless
      omega
    · exact Prod.ext hterm (Option.some.inj hvoted).symm
  constructor
  · intro v hv
    rcases List.mem_cons.mp hv with rfl | hv
    · simp only [hdisk, hs]
      exact Or.inr ⟨rfl, rfl⟩
    · exact h.covered v hv
  · intro v hv v' hv' hterm
    rcases List.mem_cons.mp hv with rfl | hold <;> rcases List.mem_cons.mp hv' with rfl | hold'
    · rfl
    · exact (hsame v' hold' hterm.symm).symm
    · exact hsame v hold hterm
    · exact h.unique v hold v' hold' hterm
  · intro p hp
    cases hp
    exact Or.inl ⟨rfl, hdisk⟩
  · intro p hp
    cases hp
    nofun

theorem inv_invariant : (system state mgr).Invariant (Inv state mgr) where
  init n hinit := by
    obtain ⟨hproc, hsent⟩ := hinit
    constructor <;> simp [hproc, hsent]
  step n event n' h hstep := by
    rw [system] at hstep
    subst hstep
    cases event with
    | boot =>
        simp only [next]
        split
        · constructor
          · exact h.covered
          · exact h.unique
          · intro p hp
            obtain ⟨s, hs, rfl⟩ := Option.map_eq_some_iff.mp hp
            exact Or.inl ⟨rfl, boot_remembered state mgr hs⟩
          · intro p hp
            obtain ⟨s, -, rfl⟩ := Option.map_eq_some_iff.mp hp
            nofun
        · exact h
    | crash => exact ⟨h.covered, h.unique, nofun, nofun⟩
    | request term candidate =>
        simp only [next]
        split
        · next s hproc =>
          split
          · next hgrants =>
            apply h.startSave state mgr hproc (extends_of_grants hgrants)
            intro v hv
            cases hv
            rfl
          · exact h
        · exact h
    | updateTerm term =>
        simp only [next]
        split
        · next s hproc =>
          split
          · next hless => exact h.startSave state mgr hproc (Or.inl hless) nofun
          · exact h
        · exact h
    | io =>
        simp only [next]
        split
        · next s op rest reply hproc => exact h.io state mgr hproc
        · exact h
    | send =>
        simp only [next]
        split
        · next s vote hproc => exact h.send state mgr hproc
        · exact h

/-- A node never sends votes for two candidates in one term, wherever its
process dies and however often it restarts. -/
theorem one_vote_per_term {n : VoteNode} (hreach : (system state mgr).Reachable n)
    {term : Nat} {candidate candidate' : Int} (hsent : (term, candidate) ∈ n.sent)
    (hsent' : (term, candidate') ∈ n.sent) : candidate = candidate' := by
  have hinv := (inv_invariant state mgr).reachable hreach
  exact congrArg Prod.snd (hinv.unique _ hsent _ hsent' rfl)

theorem run_events (n : VoteNode) (events : List VoteEvent) :
    (system state mgr).Run n events (events.foldl (next state mgr) n) := by
  induction events using List.reverseRecOn with
  | nil => exact .nil
  | append_singleton events event ih => exact ih.snoc event (by simp [system])

/-- The calls of a save one after the other. -/
theorem run_io (fs : FileSystem) (s : SrvState) (reply : Option (Nat × Int))
    (sent : List (Nat × Int)) (ops : List FileOp) :
    (system state mgr).Run ⟨fs, some ⟨s, ops, reply⟩, sent⟩ (List.replicate ops.length .io)
      ⟨fs.applyOps ops, some ⟨s, [], reply⟩, sent⟩ := by
  induction ops generalizing fs with
  | nil => exact .nil
  | cons op rest ih =>
      have hfirst : (system state mgr).Run ⟨fs, some ⟨s, op :: rest, reply⟩, sent⟩ [.io]
          ⟨fs.applyOp op, some ⟨s, rest, reply⟩, sent⟩ := .single rfl
      exact hfirst.append (ih (fs.applyOp op))

/-- On a new disk a process boots, is killed while it saves a vote for 1,
boots again, votes for 2 and is killed once more: 2 has its only vote. -/
theorem one_vote_after_two_crashes :
    ∃ n, (system srvStateFormat localMgr).Reachable n ∧
      n.proc = some ⟨⟨5, some 2⟩, [], none⟩ ∧ (5, 2) ∈ n.sent ∧
      ∀ candidate, (5, candidate) ∈ n.sent → candidate = 2 := by
  let start : VoteNode := ⟨fun _ => none, none, []⟩
  let killed : FileSystem := Function.update (fun _ => none) (tmpOf localMgr.statePath) (some [])
  let ops := saveStateOps srvStateFormat localMgr ⟨5, some 2⟩
  have hkilled : killed localMgr.statePath = none :=
    Function.update_of_ne (tmpOf_ne localMgr.statePath).symm _ _
  have hboot : bootState srvStateFormat localMgr killed = some .fresh := by
    simp [bootState, readState, readFile, hkilled]
  have hsaved : bootState srvStateFormat localMgr (killed.applyOps ops) =
      some ⟨5, some 2⟩ := by
    rw [saveStateOps_saveState, bootState_saveState]
  have hfirst := run_events srvStateFormat localMgr start [.boot, .request 5 1, .io, .crash]
  have hsecond := run_events srvStateFormat localMgr ⟨killed, none, []⟩ [.boot, .request 5 2]
  have hthird := run_events srvStateFormat localMgr
    ⟨killed.applyOps ops, some ⟨⟨5, some 2⟩, [], some (5, 2)⟩, []⟩ [.send, .crash, .boot]
  simp only [List.foldl_cons, List.foldl_nil, next, hboot, Option.map_some] at hsecond
  simp only [List.foldl_cons, List.foldl_nil, next, hsaved, Option.map_some] at hthird
  have hrun := ((hfirst.append hsecond).append
    (run_io srvStateFormat localMgr killed ⟨5, some 2⟩ (some (5, 2)) [] ops)).append hthird
  have hreach : (system srvStateFormat localMgr).Reachable _ := ⟨start, _, ⟨rfl, rfl⟩, hrun⟩
  refine ⟨_, hreach, rfl, List.mem_cons_self, ?_⟩
  intro candidate hsent
  exact one_vote_per_term srvStateFormat localMgr hreach hsent List.mem_cons_self

end VoteNode

end CppWorkspace.RaftRpc
