import CppWorkspace.Lib.Commuting
import CppWorkspace.Lib.RaftHistory
import CppWorkspace.RaftRpc.AckedAdds
import CppWorkspace.RaftRpc.ExactReplies

/-!
What the clients of a cluster are told. Whatever the servers have applied and whatever
they have answered is read off one log; a `local` may be behind, but it shows nothing
that is not in that log, and it does not go back while its server is up.
-/

namespace CppWorkspace.RaftRpc

open Lib Lib.Raft System

namespace CounterCluster

variable {n : Nat} (S : Setup n)

/-- The log accounts for what the servers show and for the replies they gave. -/
structure Explains (log : List LogEntry) (cl : CounterCluster n) : Prop where
  applied : ∀ i p, (cl.server i).proc = some p → p.sm.lastCommitIndex ≤ log.length ∧
    p.sm.currentValue = valueAfter S.fmt (log.take p.sm.lastCommitIndex)
  answered : ∀ a ∈ cl.answered, 0 < a.index ∧ log[a.index - 1]? = some a.entry ∧
    a.reply = replyTo S.fmt (valueAfter S.fmt (log.take a.index)) a.entry

variable {S} {cl cl' : CounterCluster n} {w w' : AbstractWorld n}

theorem Explains.mono {log log' : List LogEntry} (h : Explains S log cl) (hle : log <+: log') :
    Explains S log' cl := by
  obtain ⟨rest, rfl⟩ := hle
  constructor
  · intro i p hproc
    obtain ⟨hlength, hvalue⟩ := h.applied i p hproc
    refine ⟨hlength.trans (by simp), ?_⟩
    rw [hvalue, List.take_append_of_le_length hlength]
  · intro a ha
    obtain ⟨hpos, hentry, hreply⟩ := h.answered a ha
    obtain ⟨hlt, -⟩ := List.getElem?_eq_some_iff.mp hentry
    refine ⟨hpos, ?_, ?_⟩
    · rw [List.getElem?_append_left hlt]
      exact hentry
    · rw [hreply, List.take_append_of_le_length (by omega)]

/-- The prefix that a server has applied. -/
def appliedLog (cl : CounterCluster n) (w : AbstractWorld n) (i : Fin n) : List LogEntry :=
  match (cl.server i).proc with
  | some p => (w.node i).log.take p.sm.lastCommittedIdx
  | none => []

theorem appliedLog_chosen (h : Refines S cl w) (i : Fin n) :
    Chosen LogEntry.term w (appliedLog cl w i) := by
  unfold appliedLog
  cases hproc : (cl.server i).proc with
  | none => exact .nil
  | some p =>
      obtain ⟨hle, hby⟩ := h.inv.committed i
      refine ⟨(w.node i).term, hby.shorten ?_⟩
      apply prefix_of_length_le (List.take_prefix _ _) (List.take_prefix _ _)
      have happlied := (h.up i p hproc).applied
      simp only [List.length_take]
      omega

/-- One committed prefix accounts for a state. -/
theorem exists_explains (h : Refines S cl w) :
    ∃ log, Chosen LogEntry.term w log ∧ Explains S log cl := by
  have hanswers : ∀ a : { a // a ∈ cl.answered }, ∃ p, Chosen LogEntry.term w p ∧
      p.length = a.1.index ∧ p.getLast? = some a.1.entry ∧
      a.1.reply = replyTo S.fmt (valueAfter S.fmt p) a.1.entry := by
    rintro ⟨a, ha⟩
    obtain ⟨p, hcommit, hrest⟩ := h.answered a ha
    exact ⟨p, hcommit.chosen, hrest⟩
  choose answer hanswer using hanswers
  obtain ⟨first, hfirst, hservers⟩ := exists_chosen_above h.inv.complete (appliedLog_chosen h)
  obtain ⟨second, hsecond, hreplies⟩ :=
    exists_chosen_above h.inv.complete fun a => (hanswer a).1
  obtain ⟨log, hlog, hall⟩ := exists_chosen_above h.inv.complete
    (p := fun b => if b then first else second) (Bool.forall_bool.mpr ⟨hsecond, hfirst⟩)
  have hboth := Bool.forall_bool.mp hall
  refine ⟨log, hlog, ?_, ?_⟩
  · intro i p hproc
    have hup := h.up i p hproc
    have hpre : (w.node i).log.take p.sm.lastCommittedIdx <+: log := by
      have hserver := (hservers i).trans hboth.2
      simpa only [appliedLog, hproc] using hserver
    have hlength : ((w.node i).log.take p.sm.lastCommittedIdx).length = p.sm.lastCommittedIdx := by
      have hle := hup.applied.trans (h.inv.committed i).1
      simp only [List.length_take]
      omega
    have hsame := List.prefix_iff_eq_take.mp hpre
    rw [hlength] at hsame
    refine ⟨?_, ?_⟩
    · exact hlength.symm.le.trans hpre.length_le
    · rw [CounterStateMachine.currentValue, CounterStateMachine.lastCommitIndex, hup.value, hsame]
  · intro a ha
    obtain ⟨-, hlength, hlast, hreply⟩ := hanswer ⟨a, ha⟩
    have hpre := (hreplies ⟨a, ha⟩).trans hboth.1
    have hsame := List.prefix_iff_eq_take.mp hpre
    rw [hlength] at hsame
    obtain ⟨before, hbefore⟩ := List.getLast?_eq_some_iff.mp hlast
    have hindex : a.index = before.length + 1 := by
      rw [← hlength, hbefore]
      simp
    refine ⟨by omega, ?_, ?_⟩
    · obtain ⟨rest, rfl⟩ := hpre
      rw [hbefore, hindex]
      simp
    · rw [hreply, hsame]

/-- One log accounts for all states on the way of a run. -/
theorem exists_explains_all (h : Refines S cl w) {later : List (CounterCluster n)}
    (hlater : List.IsChain (votingSystem S).Reaches (cl :: later)) :
    ∃ w' log, Grows w w' ∧ Inv LogEntry.term w' ∧ Chosen LogEntry.term w' log ∧
      ∀ c ∈ cl :: later, Explains S log c := by
  induction later generalizing cl w with
  | nil =>
      obtain ⟨log, hlog, hexplains⟩ := exists_explains h
      refine ⟨w, log, .refl w, h.inv, hlog, ?_⟩
      intro c hc
      rw [List.mem_singleton.mp hc]
      exact hexplains
  | cons next rest ih =>
      obtain ⟨⟨events, hrun⟩, hrest⟩ := List.isChain_cons_cons.mp hlater
      obtain ⟨wn, hnext, hgrows⟩ := run_refines S h hrun
      obtain ⟨w', log, hgrows', hinv, hlog, hall⟩ := ih hnext hrest
      obtain ⟨own, hown, hexplains⟩ := exists_explains h
      have hown' := hown.mono (hgrows.trans hgrows')
      rcases hown'.comparable hinv.complete hlog with hle | hge
      · refine ⟨w', log, hgrows.trans hgrows', hinv, hlog, ?_⟩
        intro c hc
        rcases List.mem_cons.mp hc with rfl | hc
        · exact hexplains.mono hle
        · exact hall c hc
      · refine ⟨w', own, hgrows.trans hgrows', hinv, hown', ?_⟩
        intro c hc
        rcases List.mem_cons.mp hc with rfl | hc
        · exact hexplains
        · exact (hall c hc).mono hge

/-- Only a crash takes back what a server has applied. -/
theorem step_applied {event : RaftEvent n} (hstep : Step S cl event cl') {i : Fin n}
    (hevent : event ≠ .crash i) {p : Process} (hproc : (cl.server i).proc = some p) :
    ∃ p', (cl'.server i).proc = some p' ∧ p.sm.lastCommitIndex ≤ p'.sm.lastCommitIndex := by
  have hkeep : ∀ (j : Fin n) (srv : Server), (∀ q, (cl.server j).proc = some q →
      ∃ q', srv.proc = some q' ∧ q.sm.lastCommitIndex ≤ q'.sm.lastCommitIndex) →
      ∃ p', ((cl.setServer j srv).server i).proc = some p' ∧
        p.sm.lastCommitIndex ≤ p'.sm.lastCommitIndex := by
    intro j srv hsrv
    rcases eq_or_ne i j with rfl | hne
    · rw [setServer_server]
      exact hsrv p hproc
    · rw [setServer_other cl srv hne]
      exact ⟨p, hproc, le_rfl⟩
  have hsame : ∀ (j : Fin n) (q : Process), (cl.server j).proc = some q → ∀ q' : Process,
      q.sm.lastCommitIndex ≤ q'.sm.lastCommitIndex → ∀ r, (cl.server j).proc = some r →
      ∃ r', some q' = some r' ∧ r.sm.lastCommitIndex ≤ r'.sm.lastCommitIndex := by
    rintro j q hq q' hle r hr
    cases hq.symm.trans hr
    exact ⟨q', rfl, hle⟩
  cases event with
  | boot j =>
      obtain ⟨hdown, q, -, rfl⟩ := hstep
      refine hkeep j _ ?_
      intro r hr
      cases hdown.symm.trans hr
  | crash j =>
      obtain rfl := hstep
      have hne : i ≠ j := by
        rintro rfl
        exact hevent rfl
      refine ⟨p, ?_, le_rfl⟩
      simpa only [setServer_other cl _ hne] using hproc
  | learnTerm j term =>
      obtain ⟨q, hq, -, -, rfl⟩ := hstep
      exact hkeep j _ (hsame j q hq _ le_rfl)
  | timeout j =>
      obtain ⟨q, e, hq, -, -, rfl⟩ := hstep
      exact hkeep j _ (hsame j q hq _ le_rfl)
  | grantVote j candidate lastTerm lastIdx =>
      obtain ⟨q, hq, -, -, rfl⟩ := hstep
      exact hkeep j _ (hsame j q hq _ le_rfl)
  | becomeLeader j voters =>
      obtain ⟨q, hq, -, -, -, rfl⟩ := hstep
      exact hkeep j _ (hsame j q hq _ le_rfl)
  | submit j e =>
      obtain ⟨q, hq, -, rfl⟩ := hstep
      exact hkeep j _ (hsame j q hq _ le_rfl)
  | sendAppend j prevIdx stop =>
      obtain ⟨q, prevTerm, entries, -, -, -, -, -, -, rfl⟩ := hstep
      exact ⟨p, hproc, le_rfl⟩
  | handleAppend j leader prevIdx prevTerm entries commitIdx =>
      obtain ⟨q, hq, -, -, rfl⟩ := hstep
      refine hkeep j _ (hsame j q hq _ ?_)
      unfold Process.appendEntries
      split <;> exact le_rfl
  | advanceCommit j idx holders =>
      obtain ⟨q, hq, -, -, -, -, -, -, rfl⟩ := hstep
      exact hkeep j _ (hsame j q hq _ le_rfl)
  | applyNext j =>
      obtain ⟨q, e, reply, sm, hq, -, -, hcommit, rfl⟩ := hstep
      refine hkeep j _ (hsame j q hq _ ?_)
      simp only [CounterStateMachine.lastCommitIndex, (commitLogEntry_eq hcommit).2.1]
      omega
  | caughtUp j leader =>
      obtain ⟨q, r, -, -, -, -, -, rfl⟩ := hstep
      exact ⟨p, hproc, le_rfl⟩

theorem run_applied {events : List (RaftEvent n)} (hrun : (votingSystem S).Run cl events cl')
    {i : Fin n} (hevents : .crash i ∉ events) {p : Process}
    (hproc : (cl.server i).proc = some p) :
    ∃ p', (cl'.server i).proc = some p' ∧ p.sm.lastCommitIndex ≤ p'.sm.lastCommitIndex := by
  induction hrun with
  | nil => exact ⟨p, hproc, le_rfl⟩
  | snoc event _ hstep ih =>
      obtain ⟨hbefore, hevent⟩ := not_or.mp (mt List.mem_append.mpr hevents)
      obtain ⟨p', hproc', hle⟩ := ih hbefore
      obtain ⟨p'', hproc'', hle'⟩ :=
        step_applied hstep.2.2 (fun heq => hevent (List.mem_singleton.mpr heq.symm)) hproc'
      exact ⟨p'', hproc'', hle.trans hle'⟩

end CounterCluster

namespace ServerCtx

variable (fmt : BufferFormat)

/-- A reply to a command whose entry was committed and applied. -/
theorem handleCommand_answered (ctx : ServerCtx) {line : List Char} {buf : Buffer}
    (happended : (ctx.handleCommand fmt line).appended = [buf]) (value : BitVec 64) :
    ({ ctx with appendEntries := fun _ => ⟨true, cmdResultOk, some (fmt.i64.encode value)⟩
      }.handleCommand fmt line).reply = some ("OK ".toList ++ toString value.toInt) := by
  have hsome : (ctx.handleCommand fmt line).appended ≠ [] := by
    rw [happended]
    exact List.cons_ne_nil buf []
  obtain ⟨op, delta, -, hhandle⟩ := ctx.handleCommand_of_appended hsome
  rw [hhandle]
  simp [replicate]

/-- The line of a `local`. -/
theorem handleCommand_local (ctx : ServerCtx) (value : BitVec 64) :
    { ctx with currentValue := value }.handleCommand fmt "local".toList =
      ⟨some ("OK ".toList ++ toString value.toInt ++ " leader=".toList ++ toString ctx.getLeader ++
        " term=".toList ++ toString ctx.getTerm), []⟩ := rfl

end ServerCtx

namespace CounterCluster

variable {n : Nat} (S : Setup n)

/-- What the clients are told in the states `c` on the way of a run all comes from one
log: a reply to an `add` or a `get` is the sum of that log up to the command's own
entry, a `local` the sum of some beginning of it, and that beginning does not get
shorter while the server is up. -/
theorem replies_of_one_log {cl : CounterCluster n} (hreach : (votingSystem S).Reachable cl)
    {later : List (CounterCluster n)}
    (hlater : List.IsChain (votingSystem S).Reaches (cl :: later)) :
    (∃ log : List LogEntry, ∀ c ∈ cl :: later,
      (∀ a ∈ c.answered, log[a.index - 1]? = some a.entry ∧
        ∀ (ctx : ServerCtx) line, a.entry.valType = appLog →
          (ctx.handleCommand S.fmt line).appended = [a.entry.buf] →
          ({ ctx with appendEntries := fun _ => ⟨true, cmdResultOk, a.reply⟩ }.handleCommand
            S.fmt line).reply =
              some ("OK ".toList ++
                ServerCtx.toString (valueAfter S.fmt (log.take a.index)).toInt)) ∧
      ∀ i p, (c.server i).proc = some p → p.sm.lastCommitIndex ≤ log.length ∧
        ∀ ctx : ServerCtx, ({ ctx with currentValue := p.sm.currentValue }.handleCommand
          S.fmt "local".toList).reply =
            some ("OK ".toList ++ ServerCtx.toString
                (valueAfter S.fmt (log.take p.sm.lastCommitIndex)).toInt ++
              " leader=".toList ++ ServerCtx.toString ctx.getLeader ++
              " term=".toList ++ ServerCtx.toString ctx.getTerm)) ∧
    ∀ events cl' i p, (votingSystem S).Run cl events cl' → .crash i ∉ events →
      (cl.server i).proc = some p → ∃ p', (cl'.server i).proc = some p' ∧
        p.sm.lastCommitIndex ≤ p'.sm.lastCommitIndex := by
  constructor
  · obtain ⟨w, -, h⟩ := (refines_simulation S).reachable hreach
    obtain ⟨w', log, -, -, -, hall⟩ := exists_explains_all h hlater
    refine ⟨log, ?_⟩
    intro c hc
    have hexplains := hall c hc
    constructor
    · intro a ha
      obtain ⟨-, hentry, hreply⟩ := hexplains.answered a ha
      refine ⟨hentry, ?_⟩
      intro ctx line happ happended
      rw [replyTo, if_pos happ] at hreply
      rw [hreply]
      exact ctx.handleCommand_answered S.fmt happended _
    · intro i p hproc
      obtain ⟨hle, hvalue⟩ := hexplains.applied i p hproc
      refine ⟨hle, ?_⟩
      intro ctx
      rw [ctx.handleCommand_local S.fmt, hvalue]
  · intro events cl' i p hrun hevents hproc
    exact run_applied hrun hevents hproc

/-- The reply to the `add 5` that server 0 has answered. -/
theorem replies_of_one_log_add : ∃ cl, (votingSystem threeServers).Reachable cl ∧
    ∃ (log : List LogEntry) (a : Answer), a ∈ cl.answered ∧ log[a.index - 1]? = some a.entry ∧
      ({ leaderCtx 5 with appendEntries := fun _ => ⟨true, cmdResultOk, a.reply⟩ }.handleCommand
        littleEndianFormat "add 5".toList).reply = some "OK 5".toList := by
  obtain ⟨events, cl, hrun, -, -, -, hanswered⟩ := answered_run
  have hreach : (votingSystem threeServers).Reachable cl :=
    ⟨_, events, started_initial _, hrun⟩
  have ha : _ ∈ cl.answered := hanswered ▸ List.mem_cons_self
  obtain ⟨log, hall⟩ :=
    (replies_of_one_log threeServers hreach (List.isChain_singleton cl)).1
  obtain ⟨hentry, hreply⟩ := (hall cl List.mem_cons_self).1 _ ha
  have hfirst : log.take 1 = [logEntryOf littleEndianFormat 1 (.add 5)] := by
    have hhead : log[0]? = some (logEntryOf littleEndianFormat 1 (.add 5)) := hentry
    rw [List.take_add_one, hhead]
    rfl
  refine ⟨cl, hreach, log, _, ha, hentry, (hreply (leaderCtx 5) "add 5".toList rfl ?_).trans ?_⟩
  · decide
  · rw [hfirst]
    decide

end CounterCluster

end CppWorkspace.RaftRpc
