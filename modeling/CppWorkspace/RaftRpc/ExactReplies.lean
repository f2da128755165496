import CppWorkspace.RaftRpc.AddGrammar

/-!
What the replies to committed commands say. No delta is refused for its size,
and `commit` adds without a check.
-/

namespace CppWorkspace.RaftRpc

open Lib Lib.TextStream

/-- A command whose entry is committed: the index of the entry, the server that
took the line, and the line. -/
structure CommittedCommand where
  logIdx : ℕ
  ctx : ServerCtx
  line : List Char

namespace CommittedCommand

variable (fmt : BufferFormat)

/-- The command is one that starts replication. -/
def Accepted (c : CommittedCommand) : Prop := (c.ctx.handleCommand fmt c.line).appended ≠ []

/-- The entry that the command hands to `append_entries`. -/
def entry (c : CommittedCommand) : Option Buffer := (c.ctx.handleCommand fmt c.line).appended.head?

/-- What the entry adds to the counter. -/
def delta (c : CommittedCommand) : BitVec 64 :=
  match (c.entry fmt).bind (CounterStateMachine.decLog fmt) with
  | some (.opAdd, delta) => delta
  | _ => 0

/-- The reply line when `append_entries` gives back what `commit` returned. -/
def replyWith (c : CommittedCommand) (ret : Buffer) : Option (List Char) :=
  ({ c.ctx with appendEntries := fun _ => ⟨true, cmdResultOk, some ret⟩ }.handleCommand
    fmt c.line).reply

/-- Commit the entry: the reply line, and the machine after it. -/
def commit (c : CommittedCommand) (sm : CounterStateMachine) :
    Option (Option (List Char) × CounterStateMachine) := do
  let data ← c.entry fmt
  let (ret, sm) ← sm.commit fmt c.logIdx data
  pure (c.replyWith fmt ret, sm)

end CommittedCommand

section Replies

variable (fmt : BufferFormat)

/-- The machine after a list of commits. -/
def commitAll (sm : CounterStateMachine) : List CommittedCommand → Option CounterStateMachine
  | [] => some sm
  | c :: rest => do
      let (_, sm) ← c.commit fmt sm
      commitAll sm rest

/-- The sum of the deltas as integers. -/
def exactSum (commits : List CommittedCommand) : ℤ :=
  (commits.map fun c => (c.delta fmt).toInt).sum

def InInt64 (n : ℤ) : Prop := -2 ^ 63 ≤ n ∧ n ≤ 2 ^ 63 - 1

/-- The commit of `c` behind `before`: its addition stays inside `int64_t`, and
the reply is `OK` with the exact sum. -/
def RepliesExactly (before : List CommittedCommand) (c : CommittedCommand) : Prop :=
  ∃ sm sm', commitAll fmt .initial before = some sm ∧
    InInt64 (sm.value.toInt + (c.delta fmt).toInt) ∧
    c.commit fmt sm =
      some (some ("OK ".toList ++ ServerCtx.toString (exactSum fmt (before ++ [c]))), sm')

end Replies

namespace ServerCtx

variable {fmt : BufferFormat}

/-- A command that appends an entry is an `add` or a `get`, whatever its append
gives back. -/
theorem handleCommand_of_appended (ctx : ServerCtx) {line : List Char}
    (h : (ctx.handleCommand fmt line).appended ≠ []) :
    ∃ op delta, (op = .opAdd ∨ op = .opGet ∧ delta = 0) ∧ ∀ appendEntries,
      { ctx with appendEntries := appendEntries }.handleCommand fmt line =
        { ctx with appendEntries := appendEntries }.replicate fmt op delta := by
  unfold handleCommand at h ⊢
  cases hread : (readWord line).getD ([], []) with
  | mk cmd rest =>
      simp only [hread] at h ⊢
      by_cases hadd : cmd = "add".toList
      · simp only [if_pos hadd] at h ⊢
        cases hint : readInt64 rest with
        | none =>
            rw [hint] at h
            exact absurd rfl h
        | some found => exact ⟨.opAdd, BitVec.ofInt 64 found.1, Or.inl rfl, fun _ => rfl⟩
      simp only [if_neg hadd] at h ⊢
      by_cases hget : cmd = "get".toList
      · simp only [if_pos hget]
        exact ⟨.opGet, 0, Or.inr ⟨rfl, rfl⟩, fun _ => rfl⟩
      exfalso
      revert h
      simp only [if_neg hget]
      split
      · exact fun h => h rfl
      split
      · exact fun h => h rfl
      split
      · split <;> exact fun h => h rfl
      split
      · split <;> exact fun h => h rfl
      · exact fun h => h rfl

end ServerCtx

variable {fmt : BufferFormat}

/-- Everything the commit of an accepted command does. -/
theorem CommittedCommand.commit_eq {c : CommittedCommand} (hc : c.Accepted fmt)
    (sm : CounterStateMachine) :
    c.commit fmt sm =
      some (some ("OK ".toList ++ ServerCtx.toString (sm.value + c.delta fmt).toInt),
        { sm with value := sm.value + c.delta fmt, lastCommittedIdx := c.logIdx }) := by
  obtain ⟨op, delta, hop, hhandle⟩ := c.ctx.handleCommand_of_appended hc
  have hentry : c.entry fmt = some (CounterStateMachine.encLog fmt op delta) := by
    rw [entry, show c.ctx.handleCommand fmt c.line = _ from hhandle c.ctx.appendEntries]
    rfl
  have hreply : ∀ value : BitVec 64, c.replyWith fmt (fmt.i64.encode value) =
      some ("OK ".toList ++ ServerCtx.toString value.toInt) := by
    intro value
    rw [replyWith, hhandle]
    simp [ServerCtx.replicate]
  unfold commit
  rcases hop with rfl | ⟨rfl, rfl⟩
  · have hdelta : c.delta fmt = delta := by simp [CommittedCommand.delta, hentry]
    simp [hentry, hdelta, CounterStateMachine.commit, hreply]
  · have hdelta : c.delta fmt = 0 := by simp [CommittedCommand.delta, hentry]
    simp [hentry, hdelta, CounterStateMachine.commit, hreply]

@[simp] theorem exactSum_nil : exactSum fmt [] = 0 := rfl

theorem exactSum_append (first second : List CommittedCommand) :
    exactSum fmt (first ++ second) = exactSum fmt first + exactSum fmt second := by
  simp [exactSum]

theorem exactSum_singleton (c : CommittedCommand) : exactSum fmt [c] = (c.delta fmt).toInt := by
  simp [exactSum]

/-- The machine holds the exact sum cut to 64 bits. -/
theorem commitAll_value {commits : List CommittedCommand} (hcommits : ∀ c ∈ commits, c.Accepted fmt)
    (sm : CounterStateMachine) {n : ℤ} (hn : sm.value = BitVec.ofInt 64 n) :
    ∃ sm', commitAll fmt sm commits = some sm' ∧
      sm'.value = BitVec.ofInt 64 (n + exactSum fmt commits) := by
  induction commits generalizing sm n with
  | nil => exact ⟨sm, rfl, by simpa using hn⟩
  | cons c rest ih =>
      have hvalue : sm.value + c.delta fmt = BitVec.ofInt 64 (n + (c.delta fmt).toInt) := by
        rw [BitVec.ofInt_add, BitVec.ofInt_toInt, hn]
      obtain ⟨sm', hrest, hsum⟩ := ih (fun c hc => hcommits c (List.mem_cons_of_mem _ hc))
        { sm with value := sm.value + c.delta fmt, lastCommittedIdx := c.logIdx } hvalue
      refine ⟨sm', ?_, ?_⟩
      · have hfirst := CommittedCommand.commit_eq (hcommits c List.mem_cons_self) sm
        simp only [commitAll, hfirst, Option.bind_eq_bind, Option.bind_some]
        exact hrest
      · rw [hsum, ← List.singleton_append, exactSum_append, exactSum_singleton, Int.add_assoc]

theorem toInt_ofInt_iff {n : ℤ} : (BitVec.ofInt 64 n).toInt = n ↔ InInt64 n := by
  constructor
  · intro h
    have hlow : -2 ^ 63 ≤ (BitVec.ofInt 64 n).toInt := BitVec.le_toInt _
    have hhigh := @BitVec.toInt_lt 64 (BitVec.ofInt 64 n)
    exact ⟨by omega, by omega⟩
  · rintro ⟨hlow, hhigh⟩
    exact ServerCtx.toInt_ofInt_of_range hlow hhigh

/-- One commit: its reply is exact when the sums before and after it are in
range, and only if the sum after it is. -/
theorem repliesExactly_iff {before : List CommittedCommand} {c : CommittedCommand}
    (hbefore : ∀ c ∈ before, c.Accepted fmt) (hc : c.Accepted fmt)
    (hrange : InInt64 (exactSum fmt before)) :
    RepliesExactly fmt before c ↔ InInt64 (exactSum fmt (before ++ [c])) := by
  obtain ⟨sm, hcommits, hvalue⟩ := commitAll_value hbefore .initial (n := 0) rfl
  rw [Int.zero_add] at hvalue
  have hexact : sm.value.toInt + (c.delta fmt).toInt = exactSum fmt (before ++ [c]) := by
    rw [exactSum_append, exactSum_singleton, hvalue, toInt_ofInt_iff.mpr hrange]
  have hbits : sm.value + c.delta fmt = BitVec.ofInt 64 (exactSum fmt (before ++ [c])) := by
    rw [← hexact, BitVec.ofInt_add, BitVec.ofInt_toInt, BitVec.ofInt_toInt]
  constructor
  · rintro ⟨sm', -, hcommits', hin, -⟩
    obtain rfl := Option.some.inj (hcommits.symm.trans hcommits')
    rwa [hexact] at hin
  · intro hin
    have hcommit := CommittedCommand.commit_eq hc sm
    rw [hbits, toInt_ofInt_iff.mpr hin] at hcommit
    exact ⟨sm, _, hcommits, by rwa [hexact], hcommit⟩

/-- Whatever commands are committed in whatever order: no addition leaves
`int64_t` and every reply carries the exact sum, exactly if the deltas of the
first commits, however many, have a sum in range. -/
theorem exact_replies_iff (fmt : BufferFormat) (commits : List CommittedCommand)
    (hcommits : ∀ c ∈ commits, c.Accepted fmt) :
    (∀ before c after, commits = before ++ c :: after → RepliesExactly fmt before c) ↔
      ∀ before, before <+: commits → InInt64 (exactSum fmt before) := by
  have hacc : ∀ before after, commits = before ++ after → ∀ c ∈ before, c.Accepted fmt := by
    rintro before after rfl c hc
    exact hcommits c (List.mem_append_left after hc)
  constructor
  · intro h before
    induction before using List.reverseRecOn with
    | nil => exact fun _ => ⟨by norm_num, by norm_num⟩
    | append_singleton before c ih =>
        rintro ⟨after, hafter⟩
        have hsplit : commits = before ++ c :: after := by simp [← hafter]
        have hrange := ih ⟨c :: after, hsplit.symm⟩
        have hc : c.Accepted fmt := hcommits c (by rw [hsplit]; simp)
        exact (repliesExactly_iff (hacc _ _ hsplit) hc hrange).mp (h before c after hsplit)
  · intro h before c after hsplit
    have hrange := h before ⟨c :: after, hsplit.symm⟩
    have hnext := h (before ++ [c]) ⟨after, by simp [hsplit]⟩
    have hc : c.Accepted fmt := hcommits c (by rw [hsplit]; simp)
    exact (repliesExactly_iff (hacc _ _ hsplit) hc hrange).mpr hnext

/-- Any delta is accepted. -/
theorem accepted_addLine (logIdx : ℕ) (ctx : ServerCtx) (delta : BitVec 64) :
    CommittedCommand.Accepted fmt ⟨logIdx, ctx, ServerCtx.addLine delta⟩ := by
  rw [CommittedCommand.Accepted, ServerCtx.handleCommand_addLine]
  exact List.cons_ne_nil _ _

theorem delta_addLine (logIdx : ℕ) (ctx : ServerCtx) (delta : BitVec 64) :
    CommittedCommand.delta fmt ⟨logIdx, ctx, ServerCtx.addLine delta⟩ = delta := by
  have hentry : CommittedCommand.entry fmt ⟨logIdx, ctx, ServerCtx.addLine delta⟩ =
      some (CounterStateMachine.encLog fmt .opAdd delta) := by
    rw [CommittedCommand.entry, ServerCtx.handleCommand_addLine]
    rfl
  rw [CommittedCommand.delta, hentry, Option.bind_some, CounterStateMachine.decLog_encLog_opAdd]

/-- The commits of `add` lines. -/
def adds (deltas : List (BitVec 64)) : List CommittedCommand :=
  deltas.map fun delta => ⟨1, leaderCtx 0, ServerCtx.addLine delta⟩

theorem accepted_adds (deltas : List (BitVec 64)) : ∀ c ∈ adds deltas, c.Accepted fmt := by
  intro c hc
  obtain ⟨delta, -, rfl⟩ := List.mem_map.mp hc
  exact accepted_addLine _ _ _

theorem exactSum_adds (deltas : List (BitVec 64)) :
    exactSum fmt (adds deltas) = (deltas.map BitVec.toInt).sum := by
  simp [exactSum, adds, delta_addLine, Function.comp_def]

/-- The largest delta, and the smallest behind it. -/
theorem exact_replies_large_deltas : ∃ commits : List CommittedCommand,
    commits = adds [0x7fffffffffffffff#64, 0x8000000000000000#64] ∧
      ∀ before c after, commits = before ++ c :: after →
        RepliesExactly littleEndianFormat before c := by
  refine ⟨_, rfl, (exact_replies_iff littleEndianFormat _ (accepted_adds _)).mpr ?_⟩
  intro before hbefore
  obtain ⟨deltas, hdeltas, rfl⟩ := List.prefix_map_iff.mp hbefore
  have hsums : ∀ deltas ∈ List.inits [0x7fffffffffffffff#64, 0x8000000000000000#64],
      -2 ^ 63 ≤ (deltas.map BitVec.toInt).sum ∧ (deltas.map BitVec.toInt).sum ≤ 2 ^ 63 - 1 := by
    decide
  rw [InInt64, show exactSum littleEndianFormat (deltas.map _) = _ from exactSum_adds deltas]
  exact hsums deltas ((List.mem_inits _ _).mpr hdeltas)

/-- The largest delta, twice. -/
theorem exact_replies_overflow : ∃ commits : List CommittedCommand,
    (∀ c ∈ commits, c.Accepted littleEndianFormat) ∧
      ∃ before c after, commits = before ++ c :: after ∧
        ¬ RepliesExactly littleEndianFormat before c := by
  refine ⟨adds [0x7fffffffffffffff#64, 0x7fffffffffffffff#64], accepted_adds _,
    adds [0x7fffffffffffffff#64], _, [], rfl, ?_⟩
  have hfirst : InInt64 (exactSum littleEndianFormat (adds [0x7fffffffffffffff#64])) := by
    rw [InInt64, exactSum_adds]
    decide
  have hboth : ¬ InInt64 (exactSum littleEndianFormat
      (adds [0x7fffffffffffffff#64, 0x7fffffffffffffff#64])) := by
    rw [InInt64, exactSum_adds]
    decide
  exact fun h => hboth ((repliesExactly_iff (accepted_adds _) (accepted_addLine _ _ _) hfirst).mp h)

end CppWorkspace.RaftRpc
