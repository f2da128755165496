import CppWorkspace.RaftRpc.CounterServer
import CppWorkspace.RaftRpc.CounterClient

/-!
One `add` of a client against the cluster. Every exchange of the call may
reach a server or not, and its reply may be lost, so the call can append more
than one entry before it sees `OK`.
-/

namespace CppWorkspace.RaftRpc

open Lib CounterClient

/-- The buffer of an application entry. -/
def CounterEntry.data (fmt : BufferFormat) : CounterEntry → Option Buffer
  | .add delta => some (CounterStateMachine.encLog fmt .opAdd delta)
  | .get => some (CounterStateMachine.encLog fmt .opGet 0)
  | .config => none

/-- An entry with the buffer of an `ADD` is that `ADD`. -/
theorem CounterEntry.data_eq_add (fmt : BufferFormat) {e : CounterEntry} {delta : BitVec 64}
    (h : e.data fmt = some (CounterStateMachine.encLog fmt .opAdd delta)) : e = .add delta := by
  have hdecode := CounterStateMachine.decLog_encLog_opAdd fmt delta
  cases e with
  | add d =>
      rw [← Option.some.inj h, CounterStateMachine.decLog_encLog_opAdd] at hdecode
      cases hdecode
      rfl
  | get =>
      rw [← Option.some.inj h, CounterStateMachine.decLog_encLog_opGet] at hdecode
      cases hdecode
  | config => cases h

/-- One exchange of a call: what the client sees of it, and the server that
handled the line, if one did. -/
structure Attempt where
  exchange : Exchange
  handledBy : Option ServerCtx

/-- A committed entry, with the exchange of the call that appended it. -/
structure Committed where
  entry : CounterEntry
  origin : Option Nat
deriving Repr, DecidableEq

namespace Attempt

variable (fmt : BufferFormat) (line : List Char)

def appended (attempt : Attempt) : List Buffer :=
  match attempt.handledBy with
  | none => []
  | some ctx => (ctx.handleCommand fmt line).appended

/-- An exchange that reaches a server appends one `ADD`. -/
theorem appended_addLine {attempt : Attempt} {ctx : ServerCtx} (delta : BitVec 64)
    (h : attempt.handledBy = some ctx) :
    attempt.appended fmt (ServerCtx.addLine delta) =
      [CounterStateMachine.encLog fmt .opAdd delta] := by
  unfold appended
  rw [h]
  simp only [ServerCtx.handleCommand_addLine]
  rfl

/-- What arrives is a part of the reply of the server that handled the line. -/
def Consistent (attempt : Attempt) : Prop :=
  ∀ chunks, attempt.exchange = .receives chunks → chunks.flatten ≠ [] →
    ∃ ctx reply, attempt.handledBy = some ctx ∧
      (ctx.handleCommand fmt line).reply = some reply ∧ chunks.flatten <+: reply ++ ['\n']

/-- A client that reads `OK` reads it from a server whose reply starts so. -/
theorem Consistent.ok {attempt : Attempt} (h : attempt.Consistent fmt line)
    (hok : "OK".toList <+: requestOnce attempt.exchange) :
    ∃ ctx reply, attempt.handledBy = some ctx ∧
      (ctx.handleCommand fmt line).reply = some reply ∧ "OK".toList <+: reply := by
  have hnonempty : ¬ "OK".toList <+: ([] : List Char) := by decide
  cases hexchange : attempt.exchange with
  | connectFails =>
      rw [hexchange] at hok
      exact absurd hok hnonempty
  | sendFails =>
      rw [hexchange] at hok
      exact absurd hok hnonempty
  | receives chunks =>
      rw [hexchange, requestOnce, recvLoop_eq, List.nil_append] at hok
      split at hok
      · next hnewline =>
        obtain ⟨ctx, reply, hctx, hreply, hpart⟩ :=
          h chunks hexchange (List.ne_nil_of_mem hnewline)
        have hwhole : "OK".toList <+: reply ++ ['\n'] :=
          (hok.trans (List.takeWhile_prefix _)).trans hpart
        refine ⟨ctx, reply, hctx, hreply, ?_⟩
        rcases List.prefix_concat_iff.mp hwhole with heq | hpre
        · have hlast := congrArg List.getLast? heq
          simp at hlast
        · exact hpre
      · exact absurd hok hnonempty

end Attempt

namespace AddRetry

variable (fmt : BufferFormat) (line : List Char)

/-- The exchanges of the call whose entry was committed. -/
def origins (log : List Committed) : List Nat := log.filterMap Committed.origin

/-- The committed entries of other callers. -/
def others (log : List Committed) : List CounterEntry :=
  (log.filter fun c => c.origin.isNone).map Committed.entry

/-- What NuRaft promises about a call that makes `made` exchanges: only
appended entries are committed, each at most once, and an append that returns
`OK` was committed. -/
structure Lawful (schedule : Nat → Attempt) (made : Nat) (log : List Committed) : Prop where
  consistent : ∀ n, (schedule n).Consistent fmt line
  appended : ∀ c ∈ log, ∀ n, c.origin = some n → n < made ∧
    ∃ data ∈ (schedule n).appended fmt line, c.entry.data fmt = some data
  once : (origins log).Nodup
  committed : ∀ n ctx, n < made → (schedule n).handledBy = some ctx →
    ∀ data ∈ (schedule n).appended fmt line, (ctx.appendEntries data).accepted = true →
      (ctx.appendEntries data).resultCode = cmdResultOk → n ∈ origins log

/-- Every committed entry of the call is its `ADD`. -/
theorem Lawful.entry_eq {delta : BitVec 64} {schedule : Nat → Attempt} {made : Nat}
    {log : List Committed} (h : Lawful fmt (ServerCtx.addLine delta) schedule made log)
    {c : Committed} (hc : c ∈ log) {n : Nat} (hn : c.origin = some n) :
    c.entry = .add delta := by
  obtain ⟨-, data, hdata, hentry⟩ := h.appended c hc n hn
  cases hctx : (schedule n).handledBy with
  | none => simp [Attempt.appended, hctx] at hdata
  | some ctx =>
      rw [Attempt.appended_addLine fmt delta hctx, List.mem_singleton] at hdata
      exact CounterEntry.data_eq_add fmt (hdata ▸ hentry)

/-- A log in which every entry of the call is `ADD delta`: the counter is what
the others make it plus `delta` for every exchange that was committed. -/
theorem counterAfter_log {delta : BitVec 64} {log : List Committed}
    (h : ∀ c ∈ log, ∀ n, c.origin = some n → c.entry = .add delta) :
    counterAfter (log.map Committed.entry) =
      counterAfter (others log) + BitVec.ofNat 64 (origins log).length * delta := by
  induction log with
  | nil => simp [counterAfter, others, origins]
  | cons c rest ih =>
      have hrest := ih fun c' hc' => h c' (List.mem_cons_of_mem c hc')
      cases horigin : c.origin with
      | none =>
          simp only [List.map_cons, counterAfter, hrest, others, origins, List.filter_cons,
            horigin, Option.isNone_none, if_true, List.filterMap_cons]
          rw [BitVec.add_assoc]
      | some n =>
          have hentry := h c List.mem_cons_self n horigin
          simp only [List.map_cons, counterAfter, hrest, others, origins, List.filter_cons,
            horigin, Option.isNone_some, List.filterMap_cons, List.length_cons, hentry,
            CounterEntry.delta, BitVec.ofNat_add, BitVec.add_mul]
          have hone : BitVec.ofNat 64 1 * delta = delta := BitVec.one_mul delta
          simp only [hone, Bool.false_eq_true, if_false]
          ac_rfl

/-- The last exchange of a call that returned `OK` committed its entry. -/
theorem Lawful.last_mem {delta : BitVec 64} {schedule : Nat → Attempt} {made : Nat}
    {log : List Committed} (h : Lawful fmt (ServerCtx.addLine delta) schedule made log)
    {endpoints : List Endpoint} {text : List Char}
    (hrequest : request (fun n _ => requestOnce (schedule n).exchange) endpoints = (text, made))
    (hok : "OK".toList <+: text) : 0 < made ∧ made - 1 ∈ origins log := by
  rcases requestRounds_reply hrequest with rfl | ⟨-, htext, hmade⟩
  · exact absurd hok (by decide)
  · rw [htext] at hok
    obtain ⟨ctx, reply, hctx, hreply, hpre⟩ := (h.consistent (made - 1)).ok fmt _ hok
    rw [ServerCtx.handleCommand_addLine] at hreply
    obtain ⟨haccepted, hcode⟩ := ctx.replicate_ok fmt .opAdd delta hreply hpre
    refine ⟨hmade, h.committed (made - 1) ctx (by omega) hctx _ ?_ haccepted hcode⟩
    rw [Attempt.appended_addLine fmt delta hctx]
    exact List.mem_singleton_self _

/-- A duplicate-free list of numbers below `bound` that contains `bound - 1`
has one element more than it has below `bound - 1`. -/
theorem length_eq_earlier {indices : List Nat} {bound : Nat} (hnodup : indices.Nodup)
    (hbound : ∀ n ∈ indices, n < bound) (hlast : bound - 1 ∈ indices) :
    indices.length = 1 + (indices.filter (· < bound - 1)).length := by
  have hsplit := List.length_eq_length_filter_add (l := indices) (· < bound - 1)
  have hrest : indices.filter (fun n => !decide (n < bound - 1)) = [bound - 1] := by
    have hsame : ∀ n ∈ indices, (!decide (n < bound - 1)) = (n == bound - 1) := by
      intro n hn
      have hlt := hbound n hn
      rcases Nat.lt_or_ge n (bound - 1) with hless | hge
      · simp [hless, Nat.ne_of_lt hless]
      · have heq : n = bound - 1 := by omega
        simp [heq]
    rw [List.filter_congr hsame, List.filter_beq, hnodup.count, if_pos hlast]
    rfl
  rw [hrest] at hsplit
  simp only [List.length_singleton] at hsplit
  omega

/-- A call that returns `OK` commits `ADD delta` at least once: once for its
last exchange and once for every earlier exchange whose entry was committed
although the client saw it fail or redirect. -/
theorem ok_reply_adds {delta : BitVec 64} {schedule : Nat → Attempt} {made : Nat}
    {log : List Committed} {endpoints : List Endpoint} {text : List Char}
    (hrequest : request (fun n _ => requestOnce (schedule n).exchange) endpoints = (text, made))
    (hlawful : Lawful fmt (ServerCtx.addLine delta) schedule made log)
    (hok : "OK".toList <+: text) :
    let earlier := (origins log).filter (· < made - 1)
    (origins log).length = 1 + earlier.length ∧
      ((origins log).length = 1 ↔ ∀ n < made - 1, n ∉ origins log) ∧
      (∀ c ∈ log, ∀ n, c.origin = some n → c.entry = .add delta) ∧
      (CounterStateMachine.initial.replay fmt 1 (log.map Committed.entry)).map
          (fun p => p.2.currentValue) =
        some (counterAfter (others log) + BitVec.ofNat 64 (1 + earlier.length) * delta) := by
  intro earlier
  obtain ⟨hmade, hlast⟩ := hlawful.last_mem fmt hrequest hok
  have hbound : ∀ n ∈ origins log, n < made := by
    intro n hn
    obtain ⟨c, hc, horigin⟩ := List.mem_filterMap.mp hn
    exact (hlawful.appended c hc n horigin).1
  have hcount : (origins log).length = 1 + earlier.length :=
    length_eq_earlier hlawful.once hbound hlast
  have hentries : ∀ c ∈ log, ∀ n, c.origin = some n → c.entry = .add delta :=
    fun c hc n hn => hlawful.entry_eq fmt hc hn
  refine ⟨hcount, ?_, hentries, ?_⟩
  · constructor
    · intro hone n hn hmem
      have hearlier : n ∈ earlier := by simpa [earlier] using ⟨hmem, hn⟩
      have hpos := List.length_pos_of_mem hearlier
      omega
    · intro hnone
      have hempty : earlier = [] := by
        apply List.filter_eq_nil_iff.mpr
        intro n hn hlt
        exact hnone n (by simpa using hlt) hn
      rw [hcount, hempty]
      rfl
  · have hreplay := CounterStateMachine.replay_eq fmt .initial 1 (log.map Committed.entry) rfl
    rw [hreplay, ← hcount]
    simp [CounterStateMachine.currentValue, CounterStateMachine.initial, counterAfter_log hentries]

/-- The reply to the first exchange is lost, the second one arrives. -/
def lostReply : Nat → Attempt
  | 0 => ⟨.receives [], some (leaderCtx 1)⟩
  | _ + 1 => ⟨.receives ["OK 2\n".toList], some (leaderCtx 2)⟩

def twoAdds : List Committed := [⟨.add 1, some 0⟩, ⟨.add 1, some 1⟩]

theorem leaderCtx_reply (value delta : BitVec 64) :
    ((leaderCtx value).handleCommand littleEndianFormat (ServerCtx.addLine delta)).reply =
      some ("OK ".toList ++ ServerCtx.toString value.toInt) := by
  have hdecode := littleEndianFormat.i64.decode_encode value []
  rw [List.append_nil] at hdecode
  rw [ServerCtx.handleCommand_addLine]
  simp [ServerCtx.replicate, leaderCtx, hdecode]

theorem lostReply_request :
    request (fun n _ => requestOnce (lostReply n).exchange) ["localhost:11001".toList] =
      ("OK 2".toList, 2) := by
  decide

theorem lostReply_lawful :
    Lawful littleEndianFormat (ServerCtx.addLine 1) lostReply 2 twoAdds where
  consistent n := by
    intro chunks hexchange hne
    cases n with
    | zero =>
        cases hexchange
        exact absurd rfl hne
    | succ n =>
        cases hexchange
        refine ⟨leaderCtx 2, _, rfl, leaderCtx_reply 2 1, ?_⟩
        decide
  appended c hc n hn := by
    have hall (n : Nat) : (lostReply n).appended littleEndianFormat (ServerCtx.addLine 1) =
        [CounterStateMachine.encLog littleEndianFormat .opAdd 1] := by
      cases n <;> exact Attempt.appended_addLine _ 1 rfl
    rw [hall]
    simp only [twoAdds, List.mem_cons, List.not_mem_nil, or_false] at hc
    rcases hc with rfl | rfl <;> cases hn <;>
      exact ⟨by omega, _, List.mem_singleton_self _, rfl⟩
  once := by decide
  committed n ctx hn _ _ _ _ _ := by
    have hcases : n = 0 ∨ n = 1 := by omega
    rcases hcases with rfl | rfl <;> decide

/-- A lost reply makes `add 1` count twice. -/
theorem lost_reply_adds_two :
    (origins twoAdds).length = 2 ∧
      (CounterStateMachine.initial.replay littleEndianFormat 1
          (twoAdds.map Committed.entry)).map (fun p => p.2.currentValue) = some 2 := by
  obtain ⟨hcount, -, -, hvalue⟩ := ok_reply_adds littleEndianFormat lostReply_request
    lostReply_lawful (by decide)
  exact ⟨hcount, hvalue⟩

/-- A call that returns `OK` can commit two entries. -/
theorem ok_reply_not_exactly_once :
    ¬ ∀ (schedule : Nat → Attempt) (made : Nat) (log : List Committed)
        (endpoints : List Endpoint) (text : List Char),
      request (fun n _ => requestOnce (schedule n).exchange) endpoints = (text, made) →
      Lawful littleEndianFormat (ServerCtx.addLine 1) schedule made log →
      "OK".toList <+: text → (origins log).length = 1 := by
  intro hall
  have hone := hall lostReply 2 twoAdds _ _ lostReply_request lostReply_lawful (by decide)
  exact absurd hone (by decide)

end AddRetry

end CppWorkspace.RaftRpc
