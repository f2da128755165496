import CppWorkspace.RaftRpc.ClusterRefinement

/-!
Requests that were answered, and restarts. The log store of a restarted server
is empty, as the comment of `file_state_mgr.hxx` says; while it is, the
server's vote does not stand for the entries it stored before.
-/

namespace CppWorkspace.RaftRpc

open Lib Lib.Raft System

namespace CounterCluster

variable {n : Nat} (S : Setup n)

/-- A run goes from a refined state to a refined state, and the history grows. -/
theorem run_refines {cl cl' : CounterCluster n} {w : AbstractWorld n}
    {events : List (RaftEvent n)} (h : Refines S cl w)
    (hrun : (votingSystem S).Run cl events cl') :
    ∃ w', Refines S cl' w' ∧ Grows w w' := by
  obtain ⟨raftEvents, w', hraft, h'⟩ := (refines_simulation S).run h hrun
  exact ⟨w', h', (run_grows h.inv hraft).1⟩

/-- A get adds nothing. -/
theorem valueAfter_get (fmt : BufferFormat) (term : Nat) :
    valueAfter fmt [logEntryOf fmt term .get] = 0 := by
  simp [valueAfter, LogEntry.delta, logEntryOf]

/-- The log of a leader of the same or a later term holds an answered entry. -/
theorem answered_in_leaderLog {cl cl' : CounterCluster n} {w w' : AbstractWorld n}
    (h : Refines S cl w) (h' : Refines S cl' w') (hgrows : Grows w w') {a : Answer}
    (ha : a ∈ cl.answered) {i : Fin n} {p : Process} (hproc : (cl'.server i).proc = some p)
    (hrole : p.role = .leader) (hterm : a.term ≤ p.srvState.term) :
    p.logStore.entryAt a.index = some a.entry := by
  obtain ⟨q, hcommit, hlen, hlast, -⟩ := h.answered a ha
  have hup := h'.up i p hproc
  rw [hup.srvState] at hterm
  have hlead := h'.inv.elections.leader i (hup.role ▸ hrole)
  have hby : CommittedBy LogEntry.term w' (w'.node i).term q :=
    Or.inr ⟨a.term, q, hterm, hcommit.mono hgrows, List.prefix_refl q⟩
  obtain ⟨rest, hrest⟩ := hby.prefix_leaderLog h'.inv.complete hlead
  obtain ⟨q₀, rfl⟩ := List.getLast?_eq_some_iff.mp hlast
  have hindex : a.index = q₀.length + 1 := by simpa using hlen.symm
  rw [hindex]
  apply hup.holds.entryAt
  rw [← hrest]
  simp

/-- What a leader has submitted stands at its place in every slot of the leader's term. -/
theorem submitted_slot {m m' : CounterCluster n} {wm wm' w' : AbstractWorld n}
    (hm : Refines S m wm) (hm' : Refines S m' wm') (hgrows : Grows wm' w') {i : Fin n}
    {p : Process} {e : CounterEntry} (hproc : (m.server i).proc = some p)
    (hstep : Step S m (.submit i e) m') {r : List LogEntry}
    (hslot : Slot LogEntry.term w' p.srvState.term r)
    (hlen : r.length = (wm.node i).log.length + 1) :
    r = (wm.node i).log ++ [logEntryOf S.fmt p.srvState.term e] := by
  obtain ⟨p', hproc', hrole, rfl⟩ := hstep
  obtain rfl : p = p' := Option.some.inj (hproc.symm.trans hproc')
  have hup := hm.up i p hproc
  have hup' := hm'.up i { p with
    logStore := (p.logStore.append (logEntryOf S.fmt p.srvState.term e)).2 } (by simp [setProcess])
  have hlog : (wm'.node i).log =
      (wm.node i).log ++ [logEntryOf S.fmt p.srvState.term e] :=
    MemLogStore.Holds.unique hup'.holds (hup.holds.append _)
  have hlead := hm'.inv.elections.leader i (hup'.role ▸ hrole)
  have hterm : (wm'.node i).term = p.srvState.term :=
    (congrArg SrvState.term hup'.srvState).symm
  obtain ⟨l', hl', hpre⟩ := hgrows.leaderLog _ _ _ hlead
  rw [hterm] at hl'
  obtain ⟨c, l, hl, hrl, -⟩ := hslot
  rw [hl'] at hl
  cases hl
  rw [hlog] at hpre
  exact (prefix_of_length_le hrl hpre (by simp [hlen])).eq_of_length (by simp [hlen])

/-- A request submitted after another was answered is answered from the log that its
leader had then, which holds the other's entry. -/
theorem later_answer {cl m m' cl' : CounterCluster n} {w wm wm' w' : AbstractWorld n}
    (h : Refines S cl w) (hm : Refines S m wm) (hm' : Refines S m' wm') (h' : Refines S cl' w')
    (hgrows : Grows w wm) (hgrows' : Grows wm wm') (hgrows'' : Grows wm' w') {a g : Answer}
    (ha : a ∈ cl.answered) (hg : g ∈ cl'.answered) {i : Fin n} {p : Process} {e : CounterEntry}
    (hproc : (m.server i).proc = some p) (hstep : Step S m (.submit i e) m')
    (hterm : g.term = p.srvState.term) (hindex : g.index = p.logStore.nextSlot) :
    g.entry = logEntryOf S.fmt g.term e ∧
      ∃ log, p.logStore.logEntries 1 p.logStore.nextSlot = some log ∧
        g.reply = replyTo S.fmt (valueAfter S.fmt (log ++ [g.entry])) g.entry ∧
        log[a.index - 1]? = some a.entry := by
  obtain ⟨q, hcommit, hlen, hlast, -⟩ := h.answered a ha
  obtain ⟨r, hcommit', hlen', hlast', hreply⟩ := h'.answered g hg
  have hup := hm.up i p hproc
  have hpterm : p.srvState.term = (wm.node i).term := by rw [hup.srvState]
  rw [hup.holds.nextSlot] at hindex
  have hr : r = (wm.node i).log ++ [logEntryOf S.fmt g.term e] := by
    rw [hterm]
    refine submitted_slot S hm hm' hgrows'' hproc hstep (hterm ▸ hcommit'.1) ?_
    omega
  have hentry : g.entry = logEntryOf S.fmt g.term e := by
    rw [hr] at hlast'
    simpa using hlast'.symm
  have hnew : ¬ Slot LogEntry.term w g.term r := by
    intro hslot
    obtain ⟨c, l, hl, hrl, -⟩ := hslot.mono hgrows
    obtain ⟨p', hproc', hrole, -⟩ := hstep
    obtain rfl : p = p' := Option.some.inj (hproc.symm.trans hproc')
    rw [hterm, hpterm, hm.inv.elections.leader i (hup.role ▸ hrole)] at hl
    cases hl
    have hle := hrl.length_le
    omega
  have hpre := commit_extends h.inv h'.inv ((hgrows.trans hgrows').trans hgrows'') hcommit
    hcommit' hnew
  -- two answers to one slot would be in one term, where the slot was free
  have hshort : q.length < r.length := by
    refine lt_of_le_of_ne hpre.length_le fun heq => hnew ?_
    obtain rfl := hpre.eq_of_length heq
    obtain ⟨-, -, -, -, last, hlast₁, hterm₁⟩ := hcommit.1
    obtain ⟨-, -, -, -, last', hlast₂, hterm₂⟩ := hcommit'.1
    obtain rfl : last = last' := Option.some.inj (hlast₁.symm.trans hlast₂)
    rw [← hterm₂, hterm₁]
    exact hcommit.1
  refine ⟨hentry, (wm.node i).log, hup.holds.logEntries_all, by rw [hreply, hr, hentry], ?_⟩
  obtain ⟨q₀, rfl⟩ := List.getLast?_eq_some_iff.mp hlast
  have hpos : a.index - 1 = q₀.length := by
    rw [← hlen]
    simp
  have hinside : q₀.length < (wm.node i).log.length := by
    rw [hr] at hshort
    simpa using hshort
  obtain ⟨rest, hrest⟩ := hpre
  have happended : (wm.node i).log[q₀.length]? =
      ((wm.node i).log ++ [logEntryOf S.fmt g.term e])[q₀.length]? :=
    (List.getElem?_append_left hinside).symm
  rw [hpos, happended, ← hr, ← hrest]
  simp

/-- Every request answered in a run stays in the log of every later leader, and
a get that is submitted afterwards is answered with the sum of the log that its leader
had then, which contains it. -/
theorem answered_adds_survive {cl : CounterCluster n} (hreach : (votingSystem S).Reachable cl)
    {a : Answer} (ha : a ∈ cl.answered) :
    (∀ events cl', (votingSystem S).Run cl events cl' → ∀ i p,
      (cl'.server i).proc = some p → p.role = .leader → a.term ≤ p.srvState.term →
        p.logStore.entryAt a.index = some a.entry) ∧
    ∀ before m i p m' after cl' g, (votingSystem S).Run cl before m →
      (m.server i).proc = some p → (votingSystem S).step m (.submit i .get) m' →
      (votingSystem S).Run m' after cl' → g ∈ cl'.answered → g.term = p.srvState.term →
      g.index = p.logStore.nextSlot →
        ∃ log, p.logStore.logEntries 1 p.logStore.nextSlot = some log ∧
          g.reply = some (S.fmt.i64.encode (log.map (LogEntry.delta S.fmt)).sum) ∧
          log[a.index - 1]? = some a.entry := by
  obtain ⟨w, -, h⟩ := (refines_simulation S).reachable hreach
  constructor
  · intro events cl' hrun i p hproc hrole hterm
    obtain ⟨w', h', hgrows⟩ := run_refines S h hrun
    exact answered_in_leaderLog S h h' hgrows ha hproc hrole hterm
  · intro before m i p m' after cl' g hbefore hproc hstep hafter hg hterm hindex
    obtain ⟨wm, hm, hgrows⟩ := run_refines S h hbefore
    obtain ⟨wm', hm', hgrows'⟩ := run_refines S hm (.single hstep)
    obtain ⟨w', h', hgrows''⟩ := run_refines S hm' hafter
    obtain ⟨hentry, log, hlog, hreply, hholds⟩ := later_answer S h hm hm' h' hgrows hgrows'
      hgrows'' ha hg hproc hstep.2.2 hterm hindex
    refine ⟨log, hlog, ?_, hholds⟩
    rw [hreply, hentry, valueAfter_append, valueAfter_get]
    simp [replyTo, logEntryOf, valueAfter]

/-- A three-server cluster with its files below the working directory. -/
def threeServers : Setup 3 where
  state := srvStateFormat
  config := clusterConfigFormat
  fmt := littleEndianFormat
  raw := []
  endpoint _ := []
  dataDir _ := "data".toList

/-- The servers after their first start. -/
def started (S : Setup 3) : CounterCluster 3 where
  server i :=
    ⟨Function.update (fun _ => none) (S.mgr i).configPath (some (S.config.serialize S.members)),
      some ⟨.fresh, S.members, .initial S.raw, .initial, .follower, 0⟩⟩
  msgs := []
  answered := []
  synced _ := true

theorem started_initial (S : Setup 3) : Initial S (started S) := by
  have hstate (i : Fin 3) : ((started S).server i).fs (S.mgr i).statePath = none := by
    simp only [started]
    rw [Function.update_of_ne (S.mgr i).statePath_ne_configPath.1]
  have hconfig (i : Fin 3) : ((started S).server i).fs (S.mgr i).configPath =
      some (S.config.serialize S.members) := by
    simp only [started, Function.update_self]
  refine ⟨fun i => ⟨hstate i, hconfig i, ?_⟩, rfl, rfl, rfl⟩
  have hread : (S.mgr i).readState S.state ((started S).server i).fs = .null := by
    simp [FileStateMgr.readState, readFile, hstate i]
  have hload := FileStateMgr.loadConfig_of_content S.config (hconfig i)
  simp only [Server.bootProcess, VoteNode.bootState, hread, hload]
  rfl

/-- The log store after `add 5` in term 1. -/
def oneEntry : MemLogStore :=
  ((MemLogStore.initial []).append (logEntryOf littleEndianFormat 1 (.add 5))).2

/-- Server 0 leads term 1 with server 1's vote, and `add 5` is answered. -/
theorem answered_run : ∃ events cl,
    (votingSystem threeServers).Run (started threeServers) events cl ∧
    (cl.server 0).proc = some ⟨⟨1, some 1⟩, threeServers.members, oneEntry,
      ⟨5, 1, .empty⟩, .leader, 1⟩ ∧
    (cl.server 1).proc = some ⟨⟨1, some 1⟩, threeServers.members, oneEntry, .initial,
      .follower, 0⟩ ∧
    (cl.server 2).proc = some ⟨.fresh, threeServers.members, .initial [], .initial,
      .follower, 0⟩ ∧
    cl.answered = [⟨1, 1, logEntryOf littleEndianFormat 1 (.add 5),
      some (littleEndianFormat.i64.encode 5)⟩] := by
  refine ⟨_, _,
    Run.cons (RaftEvent.timeout 0) ⟨rfl, trivial, _, _, rfl, nofun, rfl, rfl⟩ <|
    Run.cons (RaftEvent.learnTerm 1 1) ⟨trivial, trivial, _, rfl, by decide,
      ⟨_, List.mem_cons_self, rfl⟩, rfl⟩ <|
    Run.cons (RaftEvent.grantVote 1 0 0 0) ⟨rfl, trivial, _, rfl, by decide,
      ⟨rfl, Or.inl rfl, _, rfl, Or.inr (by decide)⟩, rfl⟩ <|
    Run.cons (RaftEvent.becomeLeader 0 {0, 1}) ⟨trivial, trivial, _, rfl, rfl, by decide,
      by decide, rfl⟩ <|
    Run.cons (RaftEvent.submit 0 (.add 5)) ⟨trivial, trivial, _, rfl, rfl, rfl⟩ <|
    Run.cons (RaftEvent.sendAppend 0 0 1) ⟨trivial, trivial, _, _, _, rfl, rfl, by decide,
      by decide, rfl, rfl, rfl⟩ <|
    Run.cons (RaftEvent.handleAppend 1 0 0 0 [logEntryOf littleEndianFormat 1 (.add 5)] 0)
      ⟨trivial, trivial, _, rfl, nofun, List.mem_cons_self, rfl⟩ <|
    Run.cons (RaftEvent.advanceCommit 0 1 {0, 1}) ⟨trivial, trivial, _, rfl, rfl, by decide,
      by decide, rfl, by decide, fun v hv => (Finset.mem_insert.mp hv).imp id fun h1 =>
        ⟨1, le_rfl, by cases Finset.mem_singleton.mp h1; exact List.mem_cons_self⟩, rfl⟩ <|
    Run.cons (RaftEvent.applyNext 0) ⟨trivial, trivial, _, _, _, _, rfl, by decide, rfl, rfl,
      rfl⟩ <|
    .nil, rfl, rfl, rfl, rfl⟩

/-- The answered `add 5` is in the log of the leader, and a get that follows it
is answered with 5. -/
theorem answered_add_survives_get : ∃ cl, (votingSystem threeServers).Reachable cl ∧
    ∃ a ∈ cl.answered, a.entry = logEntryOf littleEndianFormat 1 (.add 5) ∧
      (∃ p, (cl.server 0).proc = some p ∧ p.logStore.entryAt a.index = some a.entry) ∧
      ∃ events cl' g, (votingSystem threeServers).Run cl events cl' ∧ g ∈ cl'.answered ∧
        g.entry = logEntryOf littleEndianFormat 1 .get ∧
        g.reply = some [5, 0, 0, 0, 0, 0, 0, 0] := by
  obtain ⟨events, cl, hrun, h0, h1, h2, hanswered⟩ := answered_run
  have hreach : (votingSystem threeServers).Reachable cl :=
    ⟨_, events, started_initial _, hrun⟩
  have ha : _ ∈ cl.answered := hanswered ▸ List.mem_cons_self
  obtain ⟨hleaders, hlater⟩ := answered_adds_survive threeServers hreach ha
  refine ⟨cl, hreach, _, ha, rfl, ⟨_, h0, hleaders [] cl .nil 0 _ h0 rfl le_rfl⟩, ?_⟩
  obtain ⟨m', after, cl', g, hsubmit, hafter, hg, hentry, hterm, hindex⟩ : ∃ m' after cl' g,
      (votingSystem threeServers).step cl (.submit 0 .get) m' ∧
      (votingSystem threeServers).Run m' after cl' ∧ g ∈ cl'.answered ∧
      g.entry = logEntryOf littleEndianFormat 1 .get ∧ g.term = 1 ∧
      g.index = oneEntry.nextSlot := ⟨_, _, _, _, ⟨trivial, trivial, _, h0, rfl, rfl⟩,
    Run.cons (RaftEvent.sendAppend 0 1 2) ⟨trivial, trivial, _, _, _, rfl, rfl, by decide,
      by decide, rfl, rfl, rfl⟩ <|
    Run.cons (RaftEvent.handleAppend 1 0 1 1 [logEntryOf littleEndianFormat 1 .get] 1)
      ⟨trivial, trivial, _, h1, nofun, List.mem_cons_self, rfl⟩ <|
    Run.cons (RaftEvent.advanceCommit 0 2 {0, 1}) ⟨trivial, trivial, _, rfl, rfl, by decide,
      by decide, rfl, by decide, fun v hv => (Finset.mem_insert.mp hv).imp id fun h1 =>
        ⟨2, le_rfl, by cases Finset.mem_singleton.mp h1; exact List.mem_cons_self⟩, rfl⟩ <|
    Run.cons (RaftEvent.applyNext 0) ⟨trivial, trivial, _, _, _, _, rfl, by decide, rfl, rfl,
      rfl⟩ <|
    .nil, List.mem_cons_self, rfl, rfl, rfl⟩
  obtain ⟨log, hlog, hreply, -⟩ :=
    hlater [] cl 0 _ m' after cl' g .nil h0 hsubmit hafter hg hterm hindex
  have hone : oneEntry.logEntries 1 oneEntry.nextSlot =
      some [logEntryOf littleEndianFormat 1 (.add 5)] := by decide
  obtain rfl := Option.some.inj (hone.symm.trans hlog)
  exact ⟨_, cl', g, (Run.single hsubmit).append hafter, hg, hentry, hreply.trans (by decide)⟩

/-- Server 1 restarts with an empty log store and votes for server 2, which has
never seen the answered `add 5` and leads term 2 without it. -/
theorem answered_add_lost : ¬ ∀ cl, (oneDownSystem threeServers).Reachable cl →
    ∀ a ∈ cl.answered, ∀ events cl', (oneDownSystem threeServers).Run cl events cl' → ∀ i p,
      (cl'.server i).proc = some p → p.role = .leader → a.term ≤ p.srvState.term →
        p.logStore.entryAt a.index = some a.entry := by
  intro hclaim
  obtain ⟨events, cl, hrun, h0, h1, h2, hanswered⟩ := answered_run
  obtain ⟨w, -, h⟩ := (refines_simulation threeServers).reachable
    ⟨_, events, started_initial _, hrun⟩
  have hboot := h.bootProcess_of_up h1
  have hothers : OneDown cl (.crash 1) := fun j hj => by
    match j with
    | 0 => simp [h0]
    | 2 => simp [h2]
  obtain ⟨events', cl', hlost, p, hproc, hrole, hterm, hlog⟩ : ∃ events' cl',
      (oneDownSystem threeServers).Run cl events' cl' ∧ ∃ p, (cl'.server 2).proc = some p ∧
        p.role = .leader ∧ p.srvState.term = 2 ∧ p.logStore = .initial [] := ⟨_, _,
    Run.cons (RaftEvent.crash 1) ⟨hothers, rfl⟩ <|
    Run.cons (RaftEvent.boot 1) ⟨trivial, rfl, _, hboot, rfl⟩ <|
    Run.cons (RaftEvent.timeout 2) ⟨trivial, _, _, h2, nofun, rfl, rfl⟩ <|
    Run.cons (RaftEvent.timeout 2) ⟨trivial, _, _, rfl, nofun, rfl, rfl⟩ <|
    Run.cons (RaftEvent.learnTerm 1 2) ⟨trivial, _, rfl, by decide, ⟨_, List.mem_cons_self, rfl⟩,
      rfl⟩ <|
    Run.cons (RaftEvent.grantVote 1 2 0 0) ⟨trivial, _, rfl, List.mem_cons_self,
      ⟨rfl, Or.inl rfl, _, rfl, Or.inr (by decide)⟩, rfl⟩ <|
    Run.cons (RaftEvent.becomeLeader 2 {1, 2}) ⟨trivial, _, rfl, rfl, by decide,
      fun v hv => (Finset.mem_insert.mp hv).elim
        (fun h1 => by cases h1; exact List.mem_cons_self)
        (fun h2 => by
          cases Finset.mem_singleton.mp h2
          exact .tail _ (.tail _ List.mem_cons_self)), rfl⟩ <|
    .nil, _, rfl, rfl, rfl, rfl⟩
  have hentry := hclaim cl ⟨_, events, started_initial _, hrun.of_restrict⟩ _
    (hanswered ▸ List.mem_cons_self) events' cl' hlost 2 p hproc hrole (by rw [hterm]; decide)
  rw [hlog] at hentry
  exact absurd hentry (by decide)

end CounterCluster

end CppWorkspace.RaftRpc
