import CppWorkspace.Lib.SignedInt
import CppWorkspace.Lib.TextStream
import CppWorkspace.RaftRpc.CounterStateMachine

/-!
`counter_server.cpp`: how a server answers one command line. The calls into
NuRaft are fields of the server's context; what the command hands to
`append_entries` is part of the result.
-/

namespace CppWorkspace.RaftRpc

open Lib Lib.TextStream

/-- The result of `append_entries`, `add_srv` and `remove_srv`. -/
structure CmdResult where
  accepted : Bool
  resultCode : Int
  buf : Option Buffer
deriving Repr, DecidableEq

/-- `cmd_result_code::OK`. -/
def cmdResultOk : Int := 0

def kClientPortOffset : Int := 1000

/-- `server_ctx` as a command sees it: the server's id, the answers of its
Raft server and state machine, and what the calls that change the cluster
would return. -/
structure ServerCtx where
  id : Int
  getLeader : Int
  getSrvConfig : Int → Option (List Char)
  isLeader : Bool
  getTerm : Nat
  getCommittedLogIdx : Nat
  currentValue : BitVec 64
  appendEntries : Buffer → CmdResult
  addSrv : Int → List Char → CmdResult
  removeSrv : Int → CmdResult

/-- What a command does: its reply, `none` when an exception ends the server or
`int` overflows, and the entries it appends. -/
structure Handled where
  reply : Option (List Char)
  appended : List Buffer
deriving Repr, DecidableEq

namespace ServerCtx

variable (fmt : BufferFormat)

/-- `std::to_string`. -/
def toString (n : Int) : List Char := showInt n

/-- `>> int64_t`. -/
def readInt64 (input : List Char) : Option (Int × List Char) :=
  readInt (-2 ^ 63) (2 ^ 63 - 1) input

/-- `>> int`, and `std::stoi`. -/
def readInt32 (input : List Char) : Option (Int × List Char) :=
  readInt (-2 ^ 31) (2 ^ 31 - 1) input

/-- `client_endpoint_of`; `std::stoi` throws when the port is no number, and the
sum of two `int` may overflow. -/
def clientEndpointOf (ctx : ServerCtx) (srvId : Int) : Option (List Char) :=
  match ctx.getSrvConfig srvId with
  | none => some []
  | some ep =>
      match splitLast ':' ep with
      | none => some []
      | some (host, port) => do
          let (raftPort, _) ← readInt32 port
          let clientPort ← int (raftPort + kClientPortOffset)
          pure (host ++ ":".toList ++ toString clientPort)

def redirectOrErr (ctx : ServerCtx) (what : List Char) : Option (List Char) := do
  if 0 < ctx.getLeader ∧ ctx.getLeader ≠ ctx.id then
    let ep ← ctx.clientEndpointOf ctx.getLeader
    if ep ≠ [] then
      return "REDIRECT ".toList ++ ep
  return "ERR ".toList ++ what

/-- `replicate`: append one entry and wait for it. -/
def replicate (ctx : ServerCtx) (op : OpType) (delta : BitVec 64) : Handled :=
  let log := CounterStateMachine.encLog fmt op delta
  let ret := ctx.appendEntries log
  let reply :=
    if ret.accepted = false then
      ctx.redirectOrErr ("append rejected: ".toList ++ toString ret.resultCode)
    else if ret.resultCode ≠ cmdResultOk then
      ctx.redirectOrErr ("commit failed: ".toList ++ toString ret.resultCode)
    else
      match ret.buf with
      | none => some "ERR empty result".toList
      | some buf => do
          let (value, _) ← fmt.i64.decode buf
          pure ("OK ".toList ++ toString value.toInt)
  ⟨reply, [log]⟩

/-- An administrative command that only a leader carries out. -/
def admin (ctx : ServerCtx) (name : List Char) (ret : CmdResult) : Option (List Char) :=
  if ctx.isLeader = false then ctx.redirectOrErr "not leader".toList
  else if ret.accepted then some "OK".toList
  else some ("ERR ".toList ++ name ++ ": ".toList ++ toString ret.resultCode)

/-- `handle_command`. -/
def handleCommand (ctx : ServerCtx) (line : List Char) : Handled :=
  let (cmd, rest) := (readWord line).getD ([], [])
  if cmd = "add".toList then
    match readInt64 rest with
    | none => ⟨some "ERR usage: add <delta>".toList, []⟩
    | some (delta, _) => ctx.replicate fmt .opAdd (BitVec.ofInt 64 delta)
  else if cmd = "get".toList then
    ctx.replicate fmt .opGet 0
  else if cmd = "local".toList then
    ⟨some ("OK ".toList ++ toString ctx.currentValue.toInt ++ " leader=".toList ++
      toString ctx.getLeader ++ " term=".toList ++ toString ctx.getTerm), []⟩
  else if cmd = "status".toList then
    ⟨some ("OK id=".toList ++ toString ctx.id ++ " leader=".toList ++ toString ctx.getLeader ++
      " term=".toList ++ toString ctx.getTerm ++ " commit=".toList ++
      toString ctx.getCommittedLogIdx ++ " value=".toList ++
      toString ctx.currentValue.toInt), []⟩
  else if cmd = "addsrv".toList then
    match (do
      let (id, rest) ← readInt32 rest
      let (ep, _) ← readWord rest
      pure (id, ep)) with
    | none => ⟨some "ERR usage: addsrv <id> <host:raft_port>".toList, []⟩
    | some (id, ep) => ⟨ctx.admin "add_srv".toList (ctx.addSrv id ep), []⟩
  else if cmd = "rmsrv".toList then
    match readInt32 rest with
    | none => ⟨some "ERR usage: rmsrv <id>".toList, []⟩
    | some (id, _) => ⟨ctx.admin "remove_srv".toList (ctx.removeSrv id), []⟩
  else ⟨some "ERR unknown command".toList, []⟩

/-- The entry that a line appends. -/
def appends (line : List Char) : Option (OpType × BitVec 64) :=
  let (cmd, rest) := (readWord line).getD ([], [])
  if cmd = "add".toList then (readInt64 rest).map fun d => (.opAdd, BitVec.ofInt 64 d.1)
  else if cmd = "get".toList then some (.opGet, 0)
  else none

/-- The line is an `addsrv` or an `rmsrv` with its arguments. -/
def administers (line : List Char) : Bool :=
  let (cmd, rest) := (readWord line).getD ([], [])
  if cmd = "addsrv".toList then ((readInt32 rest).bind fun id => readWord id.2).isSome
  else cmd = "rmsrv".toList && (readInt32 rest).isSome

/-- `std::stoi` cannot read the port of the endpoint, or `int` does not hold it together
with the offset. -/
def PortBad (ep : List Char) : Prop :=
  ∃ host port, splitLast ':' ep = some (host, port) ∧
    ∀ raftPort rest, readInt32 port = some (raftPort, rest) →
      ¬ FitsInt (raftPort + kClientPortOffset)

/-- The leader is another server, and its endpoint has a port that is bad. -/
def LeaderPortBad (ctx : ServerCtx) : Prop :=
  (0 < ctx.getLeader ∧ ctx.getLeader ≠ ctx.id) ∧
    ∃ ep, ctx.getSrvConfig ctx.getLeader = some ep ∧ PortBad ep

/-- Nothing stands in the way of a reply: where the command is refused the leader's
port is good, and the result of a committed entry can be read. -/
def CanReply (ctx : ServerCtx) (line : List Char) : Prop :=
  (∀ op delta, appends line = some (op, delta) →
    let ret := ctx.appendEntries (CounterStateMachine.encLog fmt op delta)
    if ret.accepted = true ∧ ret.resultCode = cmdResultOk then
      ∀ buf, ret.buf = some buf → fmt.i64.decode buf ≠ none
    else ¬ ctx.LeaderPortBad) ∧
  (administers line = true → ctx.isLeader = false → ¬ ctx.LeaderPortBad)

theorem clientEndpointOf_eq_none (ctx : ServerCtx) (srvId : Int) :
    ctx.clientEndpointOf srvId = none ↔
      ∃ ep, ctx.getSrvConfig srvId = some ep ∧ PortBad ep := by
  unfold clientEndpointOf PortBad
  cases ctx.getSrvConfig srvId with
  | none => simp
  | some ep =>
      cases hsplit : splitLast ':' ep with
      | none => simp [hsplit]
      | some parts =>
          obtain ⟨host, port⟩ := parts
          cases hread : readInt32 port with
          | none => simp [hsplit, hread]
          | some p =>
              obtain ⟨raftPort, rest⟩ := p
              cases hsum : int (raftPort + kClientPortOffset) with
              | none => simp [hsplit, hread, hsum, int_eq_none.mp hsum]
              | some clientPort => simp [hsplit, hread, hsum, (int_eq_some.mp hsum).1]

/-- A refusal has no text exactly where the leader's port is bad. -/
theorem redirectOrErr_eq_none (ctx : ServerCtx) (what : List Char) :
    ctx.redirectOrErr what = none ↔ ctx.LeaderPortBad := by
  rw [LeaderPortBad, ← clientEndpointOf_eq_none, redirectOrErr]
  by_cases hother : 0 < ctx.getLeader ∧ ctx.getLeader ≠ ctx.id
  · rw [if_pos hother]
    cases ctx.clientEndpointOf ctx.getLeader with
    | none => exact iff_of_true rfl ⟨hother, rfl⟩
    | some ep =>
        refine iff_of_false ?_ fun h => nomatch h.2
        rw [Option.bind_eq_bind, Option.bind_some]
        split <;> exact Option.some_ne_none _
  · rw [if_neg hother]
    exact iff_of_false nofun fun h => hother h.1

theorem replicate_eq_none (ctx : ServerCtx) (op : OpType) (delta : BitVec 64) :
    (ctx.replicate fmt op delta).reply = none ↔
      ¬ let ret := ctx.appendEntries (CounterStateMachine.encLog fmt op delta)
        if ret.accepted = true ∧ ret.resultCode = cmdResultOk then
          ∀ buf, ret.buf = some buf → fmt.i64.decode buf ≠ none
        else ¬ ctx.LeaderPortBad := by
  simp only [replicate]
  generalize ctx.appendEntries (CounterStateMachine.encLog fmt op delta) = ret
  by_cases haccepted : ret.accepted = true
  · by_cases hcode : ret.resultCode = cmdResultOk
    · rw [if_neg (by simp [haccepted]), if_neg (by simp [hcode]), if_pos ⟨haccepted, hcode⟩]
      cases ret.buf with
      | none => simp
      | some buf => cases hdecode : fmt.i64.decode buf <;> simp [hdecode]
    · rw [if_neg (by simp [haccepted]), if_pos hcode, if_neg (by simp [hcode]), not_not]
      exact redirectOrErr_eq_none ctx _
  · rw [if_pos (by simpa using haccepted), if_neg (by simp [haccepted]), not_not]
    exact redirectOrErr_eq_none ctx _

theorem admin_eq_none (ctx : ServerCtx) (name : List Char) (ret : CmdResult) :
    ctx.admin name ret = none ↔ ctx.isLeader = false ∧ ctx.LeaderPortBad := by
  unfold admin
  split
  · next hfollower => simp [hfollower, redirectOrErr_eq_none]
  · next hleader => split <;> simp [hleader]

/-- A command is answered exactly if nothing stands in the way of its reply. -/
theorem handleCommand_reply_ne_none (ctx : ServerCtx) (line : List Char) :
    (ctx.handleCommand fmt line).reply ≠ none ↔ ctx.CanReply fmt line := by
  unfold handleCommand CanReply appends administers
  generalize (readWord line).getD ([], []) = words
  obtain ⟨cmd, rest⟩ := words
  dsimp only
  by_cases hadd : cmd = "add".toList
  · subst hadd
    cases hread : readInt64 rest with
    | none => simp
    | some d =>
        rw [if_pos rfl, if_pos rfl, ne_eq, replicate_eq_none, not_not]
        simp
  by_cases hget : cmd = "get".toList
  · subst hget
    rw [if_neg hadd, if_pos rfl, if_neg hadd, if_pos rfl, ne_eq, replicate_eq_none, not_not]
    simp
  rw [if_neg hadd, if_neg hget, if_neg hadd, if_neg hget, and_iff_right nofun]
  by_cases haddsrv : cmd = "addsrv".toList
  · subst haddsrv
    rw [if_neg (by decide), if_neg (by decide), if_pos rfl, if_pos rfl]
    cases hid : readInt32 rest with
    | none => simp
    | some id => cases hep : readWord id.2 <;> simp [hep, admin_eq_none]
  by_cases hrmsrv : cmd = "rmsrv".toList
  · subst hrmsrv
    rw [if_neg (by decide), if_neg (by decide), if_neg haddsrv, if_pos rfl, if_neg haddsrv]
    cases hid : readInt32 rest <;> simp [admin_eq_none]
  rw [if_neg haddsrv, if_neg hrmsrv, if_neg haddsrv, decide_eq_false hrmsrv]
  refine iff_of_true ?_ nofun
  split
  · exact Option.some_ne_none _
  · split <;> exact Option.some_ne_none _

/-- The line of `add d`. -/
def addLine (delta : BitVec 64) : List Char := "add ".toList ++ toString delta.toInt

theorem readWord_addLine (delta : BitVec 64) :
    readWord (addLine delta) = some ("add".toList, ' ' :: showInt delta.toInt) := by
  have hsplit : addLine delta = "add".toList ++ ' ' :: showInt delta.toInt := by
    simp [addLine, toString]
  rw [hsplit]
  apply readWord_append (by decide) (by simp [isSpace])
  intro c hc
  cases hc
  decide

theorem readInt64_toInt (delta : BitVec 64) :
    readInt64 (' ' :: showInt delta.toInt) = some (delta.toInt, []) := by
  have hlow : -2 ^ 63 ≤ delta.toInt := BitVec.le_toInt delta
  have hhigh : delta.toInt ≤ 2 ^ 63 - 1 := by
    have hlt := @BitVec.toInt_lt 64 delta
    omega
  have hread := @readInt_showInt _ _ _ [] hlow hhigh (by simp)
  rwa [List.append_nil] at hread

/-- The line is understood as it was meant. -/
theorem handleCommand_addLine (ctx : ServerCtx) (delta : BitVec 64) :
    ctx.handleCommand fmt (addLine delta) = ctx.replicate fmt .opAdd delta := by
  simp [handleCommand, readWord_addLine, readInt64_toInt]

/-- A refusal says neither `OK` nor nothing. -/
theorem redirectOrErr_not_ok (ctx : ServerCtx) (what : List Char) {reply : List Char}
    (h : ctx.redirectOrErr what = some reply) : ¬ "OK".toList <+: reply := by
  have hredirect (ep : List Char) : ¬ "OK".toList <+: "REDIRECT ".toList ++ ep := by
    intro hpre
    exact absurd (List.cons_prefix_cons.mp hpre).1 (by decide)
  have herr : ¬ "OK".toList <+: "ERR ".toList ++ what := by
    intro hpre
    exact absurd (List.cons_prefix_cons.mp hpre).1 (by decide)
  simp only [redirectOrErr, Option.pure_def, Option.bind_eq_bind] at h
  split at h
  · obtain ⟨ep, -, hrest⟩ := Option.bind_eq_some_iff.mp h
    split at hrest
    · cases hrest
      exact hredirect ep
    · cases hrest
      exact herr
  · cases h
    exact herr

/-- A reply that starts with `OK` comes from an append that was accepted and
committed. -/
theorem replicate_ok (ctx : ServerCtx) (op : OpType) (delta : BitVec 64) {reply : List Char}
    (hreply : (ctx.replicate fmt op delta).reply = some reply) (hok : "OK".toList <+: reply) :
    (ctx.appendEntries (CounterStateMachine.encLog fmt op delta)).accepted = true ∧
      (ctx.appendEntries (CounterStateMachine.encLog fmt op delta)).resultCode =
        cmdResultOk := by
  simp only [replicate] at hreply
  split at hreply
  · exact absurd hok (ctx.redirectOrErr_not_ok _ hreply)
  · next haccepted =>
    split at hreply
    · exact absurd hok (ctx.redirectOrErr_not_ok _ hreply)
    · next hcode => exact ⟨by simpa using haccepted, by simpa using hcode⟩

end ServerCtx

/-- A leader whose next append is committed and makes the counter `value`. -/
def leaderCtx (value : BitVec 64) : ServerCtx where
  id := 1
  getLeader := 1
  getSrvConfig _ := none
  isLeader := true
  getTerm := 1
  getCommittedLogIdx := 0
  currentValue := 0
  appendEntries _ := ⟨true, cmdResultOk, some (littleEndianFormat.i64.encode value)⟩
  addSrv _ _ := ⟨false, cmdResultOk, none⟩
  removeSrv _ := ⟨false, cmdResultOk, none⟩

end CppWorkspace.RaftRpc
