import CppWorkspace.RaftRpc.CounterServer

/-!
`serve_connection`: command lines out of a TCP stream. What has been received
and not yet used waits in `pending`; every newline in it ends a line.
-/

namespace CppWorkspace.RaftRpc

open Lib Lib.TextStream

/-- What a connection meets: the server as its commands find it one after the
other, whether each `send` succeeds, and `g_stop` each time it is tested. -/
structure Surroundings where
  ctxAt : ℕ → ServerCtx
  sends : ℕ → Bool
  stopped : ℕ → Bool

/-- A connection: the carry-over buffer, the lines handed to `handle_command`,
what was sent, how often the socket was closed, and whether an exception of
`handle_command` has ended the server. -/
structure Connection where
  pending : List Char := []
  handled : List (List Char) := []
  sent : List (List Char) := []
  closes : ℕ := 0
  threw : Bool := false
deriving Repr, DecidableEq

namespace Connection

variable (fmt : BufferFormat) (around : Surroundings)

/-- `::close(fd)`. -/
def close (c : Connection) : Connection := { c with closes := c.closes + 1 }

/-- A line without the carriage return at its end. -/
def popReturn (line : List Char) : List Char :=
  if line.getLast? = some '\r' then line.dropLast else line

/-- The reply to a line that is the `n`-th to be handled. -/
def replyTo (n : ℕ) (line : List Char) : Option (List Char) :=
  ((around.ctxAt n).handleCommand fmt line).reply.map fun reply => reply ++ ['\n']

/-- The inner loop: whether the function goes on, and the connection. -/
def handlePending (c : Connection) : Bool × Connection :=
  match _h : takeLine c.pending with
  | none => (true, c)
  | some (line, rest) =>
      let line := popReturn line
      if line = "quit".toList then (false, { c with pending := rest }.close)
      else
        match replyTo fmt around c.handled.length line with
        | none => (false, { c with pending := rest, handled := c.handled ++ [line], threw := true })
        | some reply =>
            let next : Connection := { c with
              pending := rest
              handled := c.handled ++ [line]
              sent := c.sent ++ [reply] }
            if around.sends c.sent.length then handlePending next else (false, next.close)
termination_by c.pending.length
decreasing_by
  have hsplit := congrArg List.length (takeLine_spec _h).1
  simp only [List.length_append, List.length_cons] at hsplit
  omega

/-- `serve_connection`. The list holds what `recv` returns until it fails or the
stream ends. -/
def serveConnection (c : Connection) (tests : ℕ) : List (List Char) → Connection
  | [] => c.close
  | chunk :: rest =>
      if around.stopped tests then c.close
      else if chunk = [] then c.close
      else
        match handlePending fmt around { c with pending := c.pending ++ chunk } with
        | (false, c) => c
        | (true, c) => serveConnection c (tests + 1) rest

variable {fmt around}

/-- The commands in a whole stream: its complete lines without their carriage
returns, up to the first `quit`. -/
def commandLines (stream : List Char) : List (List Char) :=
  ((stream.splitOn '\n').dropLast.map popReturn).takeWhile fun line => line ≠ "quit".toList

theorem commandLines_of_not_mem {stream : List Char} (h : '\n' ∉ stream) :
    commandLines stream = [] := by
  simp [commandLines, List.splitOn_eq_singleton h]

/-- A line taken from the front of the stream is its first command, or the end of
the commands. -/
theorem commandLines_takeLine {text line rest : List Char} (h : takeLine text = some (line, rest))
    (more : List Char) :
    commandLines (text ++ more) =
      if popReturn line = "quit".toList then []
      else popReturn line :: commandLines (rest ++ more) := by
  obtain ⟨rfl, hline⟩ := takeLine_spec h
  have hne := List.splitOn_ne_nil '\n' (rest ++ more)
  rw [commandLines, List.append_assoc, List.cons_append,
    List.splitOn_append_cons_self_of_not_mem hline, List.dropLast_cons_of_ne_nil hne,
    List.map_cons, List.takeWhile_cons]
  simp [commandLines]

variable (fmt around)

/-- The replies to a list of lines; `none` where `handle_command` gives none. -/
def replies (lines : List (List Char)) : List (Option (List Char)) :=
  lines.mapIdx fun n line => replyTo fmt around n line

/-- A connection that is still open, when `more` is yet to come of a stream whose
commands are `total`. -/
structure Serving (total : List (List Char)) (more : List Char) (c : Connection) : Prop where
  lines : c.handled ++ commandLines (c.pending ++ more) = total
  answered : c.sent.map some = replies fmt around c.handled
  unclosed : c.closes = 0
  alive : c.threw = false

/-- A connection that is served: everything was handled and answered and the
socket closed once, unless `handle_command` threw at the last line handled. -/
structure Served (total : List (List Char)) (c : Connection) : Prop where
  lines : c.handled <+: total
  answered : c.threw = false →
    c.handled = total ∧ c.sent.map some = replies fmt around total ∧ c.closes = 1
  thrown : c.threw = true → ∃ before line, c.handled = before ++ [line] ∧
    c.sent.map some = replies fmt around before ∧ replyTo fmt around before.length line = none

variable {fmt around} {total : List (List Char)} {more : List Char}

/-- Closing the socket of a connection that has handled every command. -/
theorem Serving.served_close {c : Connection} (h : Serving fmt around total more c)
    (hall : c.handled = total) (rest : List Char) :
    Served fmt around total { c with pending := rest }.close := by
  refine ⟨⟨[], by simp [close, hall]⟩, fun _ => ⟨hall, ?_, ?_⟩, fun hthrew => ?_⟩
  · rw [← hall]
    exact h.answered
  · simp [close, h.unclosed]
  · exact absurd (h.alive.symm.trans hthrew) (by decide)

/-- What the inner loop leaves: no complete line, or a connection that is served. -/
theorem handlePending_spec (hsends : ∀ n, around.sends n = true) (c : Connection)
    (h : Serving fmt around total more c) :
    match handlePending fmt around c with
    | (true, c') => Serving fmt around total more c' ∧ '\n' ∉ c'.pending
    | (false, c') => Served fmt around total c' := by
  fun_induction handlePending fmt around c with
  | case1 c htake => exact ⟨h, takeLine_eq_none.mp htake⟩
  | case2 c line rest htake line' hquit =>
      have hlines := h.lines
      rw [commandLines_takeLine htake, if_pos hquit, List.append_nil] at hlines
      exact h.served_close hlines rest
  | case3 c line rest htake line' hquit hreply =>
      have hlines := h.lines
      rw [commandLines_takeLine htake, if_neg hquit] at hlines
      refine ⟨⟨commandLines (rest ++ more), by simpa using hlines⟩, fun halive => ?_, fun _ => ?_⟩
      · cases halive
      · exact ⟨c.handled, line', rfl, h.answered, hreply⟩
  | case4 c line rest htake line' hquit reply hreply next hsend ih =>
      have hlines := h.lines
      rw [commandLines_takeLine htake, if_neg hquit] at hlines
      refine ih ⟨by simpa [next] using hlines, ?_, h.unclosed, h.alive⟩
      simp [next, replies, List.mapIdx_concat, h.answered, hreply]
  | case5 c line rest htake line' hquit reply hreply next hsend =>
      exact absurd (hsends _) hsend

theorem serveConnection_spec (hsends : ∀ n, around.sends n = true)
    (hstopped : ∀ n, around.stopped n = false) (chunks : List (List Char)) :
    ∀ (c : Connection) (tests : ℕ), (∀ chunk ∈ chunks, chunk ≠ []) → '\n' ∉ c.pending →
      Serving fmt around total chunks.flatten c →
      Served fmt around total (serveConnection fmt around c tests chunks) := by
  induction chunks with
  | nil =>
      intro c tests _ hpending h
      have hlines := h.lines
      rw [List.flatten_nil, List.append_nil, commandLines_of_not_mem hpending,
        List.append_nil] at hlines
      exact h.served_close hlines c.pending
  | cons chunk chunks ih =>
      intro c tests hchunks _ h
      have hne := hchunks chunk List.mem_cons_self
      have hserving : Serving fmt around total chunks.flatten
          { c with pending := c.pending ++ chunk } := by
        refine ⟨?_, h.answered, h.unclosed, h.alive⟩
        rw [← h.lines, List.flatten_cons, List.append_assoc]
      have hspec := handlePending_spec hsends _ hserving
      simp only [serveConnection, hstopped, Bool.false_eq_true, if_false, if_neg hne]
      cases hpend : handlePending fmt around { c with pending := c.pending ++ chunk } with
      | mk goes c' =>
          rw [hpend] at hspec
          cases goes with
          | false => exact hspec
          | true =>
              have hrest : ∀ chunk ∈ chunks, chunk ≠ [] :=
                fun chunk hmem => hchunks chunk (List.mem_cons_of_mem _ hmem)
              exact ih c' (tests + 1) hrest hspec.2 hspec.1

theorem served_of_chunks (chunks : List (List Char)) (hchunks : ∀ chunk ∈ chunks, chunk ≠ [])
    (hstopped : ∀ n, around.stopped n = false) (hsends : ∀ n, around.sends n = true) :
    Served fmt around (commandLines chunks.flatten) (serveConnection fmt around {} 0 chunks) :=
  serveConnection_spec hsends hstopped chunks {} 0 hchunks List.not_mem_nil ⟨rfl, rfl, rfl, rfl⟩

/-- What a connection that has got the whole stream should have done: `handle_command`
was called on the commands in order, each reply was sent with a line end, and the
socket was closed once. -/
structure Framed (fmt : BufferFormat) (around : Surroundings) (stream : List Char)
    (c : Connection) : Prop where
  handled : c.handled = commandLines stream
  answered : c.sent.map some = (commandLines stream).mapIdx fun n line =>
    ((around.ctxAt n).handleCommand fmt line).reply.map fun reply => reply ++ ['\n']
  closed : c.closes = 1

/-- A connection is framed if every command has a reply, and only then: without one
nothing can have been sent for it. -/
theorem framed_iff_replyTo {stream : List Char} {c : Connection}
    (h : Served fmt around (commandLines stream) c) :
    Framed fmt around stream c ↔
      ∀ n line, (commandLines stream)[n]? = some line → replyTo fmt around n line ≠ none := by
  constructor
  · intro hframed n line hline hnone
    have hentry := congrArg (·[n]?) hframed.answered
    simp only [List.getElem?_mapIdx, hline, Option.map_some] at hentry
    change (c.sent.map some)[n]? = some (replyTo fmt around n line) at hentry
    rw [hnone, List.getElem?_map] at hentry
    obtain ⟨reply, -, hreply⟩ := Option.map_eq_some_iff.mp hentry
    cases hreply
  · intro hreplies
    have halive : c.threw = false := by
      by_contra hthrew
      rw [Bool.not_eq_false] at hthrew
      obtain ⟨before, line, hhandled, -, hnone⟩ := h.thrown hthrew
      obtain ⟨rest, htotal⟩ := h.lines
      refine hreplies before.length line ?_ hnone
      rw [← htotal, hhandled]
      simp
    obtain ⟨hhandled, hanswered, hclosed⟩ := h.answered halive
    exact ⟨hhandled, hanswered, hclosed⟩

/-- However `recv` cuts the stream, its complete lines are handled in order up to
`quit`, each is answered once, and the socket is closed once, exactly if nothing
stands in the way of the reply to one of them. -/
theorem framing_iff (fmt : BufferFormat) (around : Surroundings) (chunks : List (List Char))
    (hchunks : ∀ chunk ∈ chunks, chunk ≠ [] ∧ chunk.length ≤ 512)
    (hstopped : ∀ n, around.stopped n = false) (hsends : ∀ n, around.sends n = true) :
    Framed fmt around chunks.flatten (serveConnection fmt around {} 0 chunks) ↔
      ∀ n line, (commandLines chunks.flatten)[n]? = some line →
        (around.ctxAt n).CanReply fmt line := by
  have hserved : Served fmt around _ _ :=
    served_of_chunks chunks (fun chunk hmem => (hchunks chunk hmem).1) hstopped hsends
  rw [framed_iff_replyTo hserved]
  refine forall_congr' fun n => forall_congr' fun line => imp_congr_right fun _ => ?_
  rw [← ServerCtx.handleCommand_reply_ne_none, replyTo, ne_eq, Option.map_eq_none_iff]

/-- A line end and `quit` cut in two, and commands behind `quit`. -/
theorem framing_of_cut_lines :
    let c := serveConnection littleEndianFormat
      ⟨fun _ => leaderCtx 5, fun _ => true, fun _ => false⟩ {} 0
      ["add 5\r".toList, "\nget\nqu".toList, "it\r\nget\n".toList]
    c.handled = ["add 5".toList, "get".toList] ∧
      c.sent = ["OK 5\n".toList, "OK 5\n".toList] ∧ c.closes = 1 := by
  have hframed := (framing_iff littleEndianFormat
    ⟨fun _ => leaderCtx 5, fun _ => true, fun _ => false⟩
    ["add 5\r".toList, "\nget\nqu".toList, "it\r\nget\n".toList]
    (by decide) (fun _ => rfl) (fun _ => rfl)).mpr fun n line _ => by
      refine ⟨fun op delta _ => ?_, fun _ hfollower => nomatch hfollower⟩
      rw [if_pos ⟨rfl, rfl⟩]
      intro buf hbuf
      cases hbuf
      decide
  have hlines : commandLines
      ["add 5\r".toList, "\nget\nqu".toList, "it\r\nget\n".toList].flatten =
        ["add 5".toList, "get".toList] := by decide
  have hsent := hframed.answered
  rw [hlines] at hsent
  refine ⟨hframed.handled.trans hlines, ?_, hframed.closed⟩
  refine List.map_injective_iff.mpr (Option.some_injective _) (hsent.trans ?_)
  decide

/-- A follower whose leader was added to the cluster as `b:raft`, and refuses. -/
def namedPortCtx : ServerCtx :=
  { leaderCtx 5 with
    getLeader := 2
    getSrvConfig := fun _ => some "b:raft".toList
    isLeader := false
    appendEntries := fun _ => ⟨false, -3, none⟩ }

/-- `std::stoi` throws on the port of the leader, and the server ends without a reply. -/
theorem framing_lost_at_named_port : ¬ ∀ around chunks,
    (∀ chunk ∈ chunks, chunk ≠ [] ∧ chunk.length ≤ 512) → (∀ n, around.stopped n = false) →
      (∀ n, around.sends n = true) →
        Framed littleEndianFormat around chunks.flatten
          (serveConnection littleEndianFormat around {} 0 chunks) := by
  intro hclaim
  have hframed := hclaim ⟨fun _ => namedPortCtx, fun _ => true, fun _ => false⟩
    ["add 1\n".toList] (by decide) (fun _ => rfl) (fun _ => rfl)
  have hreplies := (framed_iff_replyTo
    (served_of_chunks ["add 1\n".toList] (by decide) (fun _ => rfl) fun _ => rfl)).mp hframed
  exact hreplies 0 "add 1".toList (by decide) (by decide)

end Connection

end CppWorkspace.RaftRpc
