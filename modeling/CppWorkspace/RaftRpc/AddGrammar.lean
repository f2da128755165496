import CppWorkspace.RaftRpc.CounterServer

/-!
Which lines `handle_command` takes for an `add`. Extraction from the stream
stops behind the number, and nobody looks at what is left.
-/

namespace CppWorkspace.RaftRpc

open Lib Lib.TextStream

/-- The line `add <delta>` of the protocol. -/
def AddLine (line : List Char) (delta : BitVec 64) : Prop :=
  ∃ literal, words line = ["add".toList, literal] ∧ IntLiteral literal delta.toInt

/-- An `add` with a number in range and more text behind it: other characters
directly behind the digits, or further words. -/
def AddWithRest (line : List Char) : Prop :=
  ∃ (literal junk : List Char) (more : List (List Char)) (delta : BitVec 64),
    words line = "add".toList :: (literal ++ junk) :: more ∧ IntLiteral literal delta.toInt ∧
      (∀ c, junk.head? = some c → c.isDigit = false) ∧ (junk ≠ [] ∨ more ≠ [])

namespace ServerCtx

variable (fmt : BufferFormat)

/-- A line is replicated as an `ADD` exactly when the protocol says so, and any
other line that starts with `add` is an error. -/
structure FollowsGrammar (ctx : ServerCtx) (line : List Char) : Prop where
  starts : ∀ delta, (ctx.handleCommand fmt line).appended =
      [CounterStateMachine.encLog fmt .opAdd delta] ↔ AddLine line delta
  rejects : (words line).head? = some "add".toList → (∀ delta, ¬ AddLine line delta) →
    (ctx.handleCommand fmt line).appended = [] ∧
      ∃ what, (ctx.handleCommand fmt line).reply = some ("ERR ".toList ++ what)

variable {fmt}

/-- The text behind a number and the words it belongs to. -/
theorem words_behind {junk rest : List Char} (hjunk : ∀ c ∈ junk, isSpace c = false)
    (hrest : ∀ c, rest.head? = some c → isSpace c = true) :
    words (junk ++ rest) = [] ↔ junk = [] ∧ words rest = [] := by
  by_cases hne : junk = []
  · subst hne
    simp
  · rw [words_append hne hjunk hrest]
    simp [hne]

theorem toInt_ofInt_of_range {n : ℤ} (hlow : -2 ^ 63 ≤ n) (hhigh : n ≤ 2 ^ 63 - 1) :
    (BitVec.ofInt 64 n).toInt = n := by
  rw [BitVec.toInt_ofInt]
  exact Int.bmod_eq_of_le (by omega) (by omega)

/-- A number that was read is the front of the next word. -/
theorem words_of_readInt64 {input rest : List Char} {n : ℤ}
    (h : readInt64 input = some (n, rest)) :
    ∃ literal junk more, words input = (literal ++ junk) :: more ∧ IntLiteral literal n ∧
      (∀ c, junk.head? = some c → c.isDigit = false) ∧
      (words rest = [] ↔ junk = [] ∧ more = []) := by
  obtain ⟨literal, hskip, hliteral, hdigit, -, -⟩ := readInt_spec h
  obtain ⟨hne, hliteralSpace⟩ := hliteral.not_isSpace
  have hsplit := List.takeWhile_append_dropWhile (p := fun c => !isSpace c) (l := rest)
  generalize hjunk : rest.takeWhile (fun c => !isSpace c) = junk at hsplit
  generalize htail : rest.dropWhile (fun c => !isSpace c) = tail at hsplit
  have hjunkSpace : ∀ c ∈ junk, isSpace c = false := by
    intro c hc
    rw [← hjunk] at hc
    simpa using List.mem_takeWhile_imp hc
  have htailSpace : ∀ c, tail.head? = some c → isSpace c = true := by
    intro c hc
    rw [← htail] at hc
    simpa using head_dropWhile hc
  have hwordSpace : ∀ c ∈ literal ++ junk, isSpace c = false := by
    intro c hc
    rcases List.mem_append.mp hc with hc | hc
    · exact hliteralSpace c hc
    · exact hjunkSpace c hc
  refine ⟨literal, junk, words tail, ?_, hliteral, ?_, ?_⟩
  · rw [← words_skipSpaces, hskip, ← hsplit, ← List.append_assoc]
    exact words_append (List.append_ne_nil_of_left_ne_nil hne junk) hwordSpace htailSpace
  · intro c hc
    refine hdigit c ?_
    rw [← hsplit, List.head?_append, hc]
    rfl
  · rw [← hsplit]
    exact words_behind hjunkSpace htailSpace

/-- The front of the next word is read when it is a number in range. -/
theorem readInt64_of_words {input literal junk : List Char} {more : List (List Char)}
    {delta : BitVec 64} (hwords : words input = (literal ++ junk) :: more)
    (hliteral : IntLiteral literal delta.toInt)
    (hdigit : ∀ c, junk.head? = some c → c.isDigit = false) :
    ∃ rest, readInt64 input = some (delta.toInt, rest) ∧
      (words rest = [] ↔ junk = [] ∧ more = []) := by
  cases hread : readWord input with
  | none =>
      rw [words_of_readWord_none hread] at hwords
      cases hwords
  | some found =>
      obtain ⟨word, tail⟩ := found
      rw [words_of_readWord hread] at hwords
      obtain ⟨rfl, rfl⟩ := List.cons.inj hwords
      obtain ⟨hskip, -, hword, htail⟩ := readWord_spec hread
      have hjunk : ∀ c ∈ junk, isSpace c = false :=
        fun c hc => hword c (List.mem_append_right literal hc)
      refine ⟨junk ++ tail, ?_, words_behind hjunk htail⟩
      have hlow : -2 ^ 63 ≤ delta.toInt := BitVec.le_toInt delta
      have hlt := @BitVec.toInt_lt 64 delta
      refine readInt_of_literal (by rw [hskip, List.append_assoc]) hliteral ?_ hlow (by omega)
      intro c hc
      rw [List.head?_append] at hc
      cases hhead : junk.head? with
      | some c' =>
          rw [hhead] at hc
          cases hc
          exact hdigit c hhead
      | none =>
          rw [hhead] at hc
          have hspace := htail c hc
          cases hc' : c.isDigit with
          | false => rfl
          | true => exact absurd hspace (by simp [not_isSpace_of_isDigit hc'])

/-- What the number behind `add` in range means for the bits of the delta. -/
theorem exists_delta {input rest : List Char} {n : ℤ} (h : readInt64 input = some (n, rest)) :
    ∃ delta : BitVec 64, delta.toInt = n := by
  obtain ⟨-, -, -, -, hlow, hhigh⟩ := readInt_spec h
  exact ⟨BitVec.ofInt 64 n, toInt_ofInt_of_range hlow hhigh⟩

section FirstWord

variable {line rest : List Char} {delta : BitVec 64}
  (hline : words line = "add".toList :: words rest)

include hline

theorem addLine_iff :
    AddLine line delta ↔
      ∃ behind, readInt64 rest = some (delta.toInt, behind) ∧ words behind = [] := by
  constructor
  · rintro ⟨literal, hwords, hliteral⟩
    rw [hline] at hwords
    have hrest : words rest = (literal ++ []) :: [] := by
      rw [List.append_nil]
      exact (List.cons.inj hwords).2
    obtain ⟨behind, hread, hbehind⟩ := readInt64_of_words hrest hliteral (by simp)
    exact ⟨behind, hread, hbehind.mpr ⟨rfl, rfl⟩⟩
  · rintro ⟨behind, hread, hnil⟩
    obtain ⟨literal, junk, more, hwords, hliteral, -, hbehind⟩ := words_of_readInt64 hread
    obtain ⟨rfl, rfl⟩ := hbehind.mp hnil
    exact ⟨literal, by rw [hline, hwords, List.append_nil], hliteral⟩

theorem addWithRest_iff :
    AddWithRest line ↔
      ∃ (delta : BitVec 64) (behind : List Char),
        readInt64 rest = some (delta.toInt, behind) ∧ words behind ≠ [] := by
  constructor
  · rintro ⟨literal, junk, more, delta, hwords, hliteral, hdigit, hmore⟩
    rw [hline] at hwords
    obtain ⟨behind, hread, hbehind⟩ := readInt64_of_words (List.cons.inj hwords).2 hliteral hdigit
    refine ⟨delta, behind, hread, fun hnil => ?_⟩
    obtain ⟨hjunk, hnone⟩ := hbehind.mp hnil
    exact hmore.elim (fun h => h hjunk) (fun h => h hnone)
  · rintro ⟨delta, behind, hread, hne⟩
    obtain ⟨literal, junk, more, hwords, hliteral, hdigit, hbehind⟩ := words_of_readInt64 hread
    refine ⟨literal, junk, more, delta, by rw [hline, hwords], hliteral, hdigit, ?_⟩
    by_contra hmore
    push Not at hmore
    exact hne (hbehind.mpr hmore)

end FirstWord

theorem encLog_opAdd_inj (fmt : BufferFormat) {delta delta' : BitVec 64} :
    CounterStateMachine.encLog fmt .opAdd delta = CounterStateMachine.encLog fmt .opAdd delta' ↔
      delta = delta' := by
  constructor
  · intro h
    have hdec := congrArg (CounterStateMachine.decLog fmt) h
    simpa using hdec
  · rintro rfl
    rfl

theorem encLog_opGet_ne (delta delta' : BitVec 64) :
    CounterStateMachine.encLog fmt .opGet delta ≠ CounterStateMachine.encLog fmt .opAdd delta' := by
  intro h
  have hdec := congrArg (CounterStateMachine.decLog fmt) h
  simp [CounterStateMachine.decLog, CounterStateMachine.encLog, fmt.u8.decode_encode] at hdec

/-- No command but `add` appends an `ADD`. -/
theorem not_starts_of_command (ctx : ServerCtx) {line : List Char}
    (hfirst : ((readWord line).getD ([], [])).1 ≠ "add".toList) (delta : BitVec 64) :
    (ctx.handleCommand fmt line).appended ≠ [CounterStateMachine.encLog fmt .opAdd delta] := by
  unfold handleCommand
  cases hread : (readWord line).getD ([], []) with
  | mk cmd rest =>
      rw [hread] at hfirst
      have hnone := (List.cons_ne_nil (CounterStateMachine.encLog fmt .opAdd delta) []).symm
      simp only [if_neg hfirst]
      by_cases hget : cmd = "get".toList
      · rw [if_pos hget]
        exact fun h => encLog_opGet_ne 0 delta (List.cons.inj h).1
      rw [if_neg hget]
      by_cases hlocal : cmd = "local".toList
      · rw [if_pos hlocal]
        exact hnone
      rw [if_neg hlocal]
      by_cases hstatus : cmd = "status".toList
      · rw [if_pos hstatus]
        exact hnone
      rw [if_neg hstatus]
      by_cases haddsrv : cmd = "addsrv".toList
      · rw [if_pos haddsrv]
        split <;> exact hnone
      rw [if_neg haddsrv]
      by_cases hrmsrv : cmd = "rmsrv".toList
      · rw [if_pos hrmsrv]
        split <;> exact hnone
      · rw [if_neg hrmsrv]
        exact hnone

theorem handleCommand_add (ctx : ServerCtx) (fmt : BufferFormat) {line rest : List Char}
    (hread : readWord line = some ("add".toList, rest)) :
    ctx.handleCommand fmt line =
      match readInt64 rest with
      | none => ⟨some "ERR usage: add <delta>".toList, []⟩
      | some (delta, _) => ctx.replicate fmt .opAdd (BitVec.ofInt 64 delta) := by
  simp only [handleCommand, hread, Option.getD_some]
  exact if_pos trivial

section Cases

variable (ctx : ServerCtx) {line rest behind : List Char} {delta : BitVec 64}

theorem followsGrammar_of_other (hfirst : (words line).head? ≠ some "add".toList)
    (hcommand : ((readWord line).getD ([], [])).1 ≠ "add".toList) :
    ctx.FollowsGrammar fmt line := by
  refine ⟨fun delta => iff_of_false (ctx.not_starts_of_command hcommand delta) ?_,
    fun h => absurd h hfirst⟩
  rintro ⟨literal, hwords, -⟩
  rw [hwords] at hfirst
  exact hfirst rfl

theorem followsGrammar_of_no_number (hread : readWord line = some ("add".toList, rest))
    (hint : readInt64 rest = none) : ctx.FollowsGrammar fmt line := by
  have hhandle := ctx.handleCommand_add fmt hread
  rw [hint] at hhandle
  have hline : ∀ delta, ¬ AddLine line delta := by
    intro delta h
    obtain ⟨behind, hbehind, -⟩ := (addLine_iff (words_of_readWord hread)).mp h
    cases hint.symm.trans hbehind
  constructor
  · refine fun delta => iff_of_false ?_ (hline delta)
    rw [hhandle]
    exact (List.cons_ne_nil _ _).symm
  · intro _ _
    rw [hhandle]
    exact ⟨rfl, "usage: add <delta>".toList, rfl⟩

/-- A number is replicated, whatever stands behind it. -/
theorem followsGrammar_iff_of_number (hread : readWord line = some ("add".toList, rest))
    (hint : readInt64 rest = some (delta.toInt, behind)) :
    ctx.FollowsGrammar fmt line ↔ words behind = [] := by
  have hhandle := ctx.handleCommand_add fmt hread
  rw [hint] at hhandle
  simp only [BitVec.ofInt_toInt] at hhandle
  have hstarts : ∀ delta', (ctx.handleCommand fmt line).appended =
      [CounterStateMachine.encLog fmt .opAdd delta'] ↔ delta = delta' := by
    intro delta'
    rw [hhandle, ← encLog_opAdd_inj fmt]
    exact ⟨fun h => (List.cons.inj h).1, fun h => congrArg (fun entry => [entry]) h⟩
  have hline : ∀ delta', AddLine line delta' ↔ delta = delta' ∧ words behind = [] := by
    intro delta'
    rw [addLine_iff (words_of_readWord hread), hint]
    constructor
    · rintro ⟨behind', heq, hnil⟩
      obtain ⟨hdelta, rfl⟩ := Prod.mk.inj (Option.some.inj heq)
      exact ⟨BitVec.eq_of_toInt_eq hdelta, hnil⟩
    · rintro ⟨rfl, hnil⟩
      exact ⟨behind, rfl, hnil⟩
  constructor
  · intro h
    exact ((hline delta).mp ((h.starts delta).mp ((hstarts delta).mpr rfl))).2
  · intro hnil
    refine ⟨fun delta' => ?_, fun _ hnot => ?_⟩
    · rw [hstarts, hline]
      exact (and_iff_left hnil).symm
    · exact absurd ((hline delta).mpr ⟨rfl, hnil⟩) (hnot delta)

end Cases

/-- `handle_command` follows the grammar of the protocol on a line exactly if the
line is not an `add` with a number in range and more text behind it. -/
theorem add_grammar_iff (fmt : BufferFormat) (ctx : ServerCtx) (line : List Char) :
    ctx.FollowsGrammar fmt line ↔ ¬ AddWithRest line := by
  have hother : (words line).head? ≠ some "add".toList → ¬ AddWithRest line := by
    rintro hfirst ⟨literal, junk, more, delta, hwords, -⟩
    rw [hwords] at hfirst
    exact hfirst rfl
  cases hread : readWord line with
  | none =>
      have hfirst : (words line).head? ≠ some "add".toList := by
        rw [words_of_readWord_none hread]
        simp
      exact iff_of_true (ctx.followsGrammar_of_other hfirst (by simp [hread])) (hother hfirst)
  | some found =>
      obtain ⟨word, rest⟩ := found
      have hwords := words_of_readWord hread
      by_cases hadd : word = "add".toList
      · subst hadd
        rw [addWithRest_iff hwords]
        cases hint : readInt64 rest with
        | none =>
            refine iff_of_true (ctx.followsGrammar_of_no_number hread hint) ?_
            rintro ⟨delta, behind, heq, -⟩
            cases heq
        | some found =>
            obtain ⟨n, behind⟩ := found
            obtain ⟨delta, rfl⟩ := exists_delta hint
            rw [ctx.followsGrammar_iff_of_number hread hint]
            constructor
            · rintro hnil ⟨delta', behind', heq, hne⟩
              obtain ⟨-, rfl⟩ := Prod.mk.inj (Option.some.inj heq)
              exact hne hnil
            · intro h
              by_contra hne
              exact h ⟨delta, behind, rfl, hne⟩
      · have hfirst : (words line).head? ≠ some "add".toList := by
          rw [hwords]
          exact fun h => hadd (Option.some.inj h)
        exact iff_of_true (ctx.followsGrammar_of_other hfirst (by simpa [hread] using hadd))
          (hother hfirst)

/-- `add 5x` adds five. -/
theorem add_with_rest_adds :
    ((leaderCtx 5).handleCommand littleEndianFormat "add 5x".toList).appended =
        [CounterStateMachine.encLog littleEndianFormat .opAdd 5] ∧
      words "add 5x".toList = ["add".toList, "5x".toList] ∧
      ¬ (leaderCtx 5).FollowsGrammar littleEndianFormat "add 5x".toList := by
  have hread : readWord "add 5x".toList = some ("add".toList, " 5x".toList) := by decide
  have hint : readInt64 " 5x".toList = some ((5 : BitVec 64).toInt, "x".toList) := by decide
  have hfive : readWord " 5x".toList = some ("5x".toList, []) := by decide
  have hx : readWord "x".toList = some ("x".toList, []) := by decide
  refine ⟨by decide, ?_, ?_⟩
  · rw [words_of_readWord hread, words_of_readWord hfive, words_nil]
  · rw [(leaderCtx 5).followsGrammar_iff_of_number hread hint, words_of_readWord hx]
    exact List.cons_ne_nil _ _

end ServerCtx

end CppWorkspace.RaftRpc
