import CppWorkspace.Cobalt.PipelineStreams

/-!
The runs of the pipeline: what comes out in the end, that nothing goes wrong on
the way, that some stage can go on until all have returned, and that this happens
after a bounded number of steps.
-/

namespace CppWorkspace.Cobalt.SpawnChannel

open Lib System TextStream

theorem intResult_eq_some {n : ℤ} (hlow : 0 ≤ n) (hhigh : n ≤ 2 ^ 31 - 1) :
    intResult n = some n :=
  if_pos ⟨by omega, hhigh⟩

theorem intResult_succ {a : ℕ} (hfits : (a + 1 : ℤ) ≤ 2 ^ 31 - 1) :
    intResult (a + 1) = some ((a + 1 : ℕ) : ℤ) := by
  rw [intResult_eq_some (by omega) hfits, Nat.cast_succ]

theorem numbers_eq {k a : ℕ} (hfits : (a + k : ℤ) ≤ 2 ^ 31 - 1) :
    numbers k a = some ((List.range' a k).map Nat.cast) := by
  induction k generalizing a with
  | zero => rfl
  | succ k ih =>
      have hnext := intResult_succ (a := a) (by push_cast at hfits; omega)
      have hrest := ih (a := a + 1) (by push_cast at hfits ⊢; omega)
      rw [numbers, hnext, Option.bind_some, hrest, List.range'_succ]
      rfl

theorem stageSquare_outputs {values : List ℕ}
    (hfits : ∀ i ∈ values, (i * i : ℤ) ≤ 2 ^ 31 - 1) :
    stageSquare.outputs () (values.map Nat.cast) = some (values.map fun i => (i * i : ℤ)) := by
  induction values with
  | nil => rfl
  | cons i rest ih =>
      have hemit : stageSquare.emit () i = some (i * i : ℤ) :=
        intResult_eq_some (by positivity) (hfits i List.mem_cons_self)
      exact Stage.outputs_cons hemit rfl (ih fun j hj => hfits j (List.mem_cons_of_mem i hj))

theorem stageFormat_next (idx : ℤ) : stageFormat.next idx = intResult (idx + 1) := rfl

theorem stageFormat_outputs {k a : ℕ} (hfits : (a + k : ℤ) ≤ 2 ^ 31 - 1) :
    stageFormat.outputs a ((List.range' a k).map fun i => (i * i : ℤ)) =
      some ((List.range' a k).map squareLine) := by
  induction k generalizing a with
  | zero => rfl
  | succ k ih =>
      have hnext : stageFormat.next a = some ((a + 1 : ℕ) : ℤ) := by
        rw [stageFormat_next]
        exact intResult_succ (by push_cast at hfits; omega)
      have hrest := ih (a := a + 1) (by push_cast at hfits ⊢; omega)
      rw [List.range'_succ]
      exact Stage.outputs_cons rfl hnext hrest

section Start

variable {count : ℤ} (hsquares : ∀ i, 1 ≤ i → i ≤ count → i * i ≤ 2 ^ 31 - 1)

include hsquares

/-- A count whose squares fit is far from the end of `int` itself. -/
theorem count_fits : (1 + count.toNat : ℤ) ≤ 2 ^ 31 - 1 := by
  rcases lt_or_ge count 1 with hnone | hsome
  · omega
  · have hlast := hsquares count hsome (le_refl count)
    have hself : count * 2 ≤ count * count ∨ count = 1 := by
      rcases eq_or_lt_of_le hsome with hone | htwo
      · exact Or.inr hone.symm
      · exact Or.inl (mul_le_mul_of_nonneg_left htwo (by omega))
    omega

/-- At the start all the lines are still to be printed. -/
theorem whole_started (numsCapacity squaresCapacity linesCapacity : ℕ) :
    (started numsCapacity squaresCapacity linesCapacity).whole count =
      some (printedLines count) := by
  have hcount := count_fits hsquares
  have hgen : numbers count.toNat 1 = some ((List.range' 1 count.toNat).map Nat.cast) :=
    numbers_eq (a := 1) hcount
  have hfits : ∀ i ∈ List.range' 1 count.toNat, (i * i : ℤ) ≤ 2 ^ 31 - 1 := by
    intro i hi
    obtain ⟨hlow, hhigh⟩ := List.mem_range'_1.mp hi
    exact hsquares i (by omega) (by omega)
  have hsquare := stageSquare_outputs hfits
  have hformat := stageFormat_outputs (a := 1) hcount
  have hsquareStart : (started numsCapacity squaresCapacity linesCapacity).toSquare count =
      some ((List.range' 1 count.toNat).map Nat.cast) := by
    rw [State.toSquare, Channel.toCome_of_empty rfl, ← hgen]
    exact congrArg (fun k => numbers k 1) (by omega)
  have hformatStart : (started numsCapacity squaresCapacity linesCapacity).toFormat count =
      some ((List.range' 1 count.toNat).map fun i => (i * i : ℤ)) := by
    rw [State.toFormat, Channel.toCome_of_empty rfl, hsquareStart]
    exact hsquare
  have hsinkStart : (started numsCapacity squaresCapacity linesCapacity).toSink count =
      some ((List.range' 1 count.toNat).map squareLine) := by
    rw [State.toSink, Channel.toCome_of_empty rfl, hformatStart]
    exact hformat
  rw [State.whole, hsinkStart, printedLines]
  simp [started]

end Start

section Progress

variable {count : ℤ} {s s' : State}

theorem whole_eq_some {lines : List Text} (hwhole : s.whole count = some lines) :
    (∃ rest, s.toSink count = some rest) ∧ (∃ values, s.toFormat count = some values) ∧
      (∃ values, s.toSquare count = some values) := by
  obtain ⟨rest, hsink, -⟩ := Option.map_eq_some_iff.mp hwhole
  obtain ⟨lines, hlines⟩ := Channel.toCome_eq_some hsink
  obtain ⟨⟨values, hformat⟩, -⟩ := Stage.toCome_eq_some hlines
  obtain ⟨squares, hsquares⟩ := Channel.toCome_eq_some hformat
  exact ⟨⟨rest, hsink⟩, ⟨values, hformat⟩, (Stage.toCome_eq_some hsquares).1⟩

/-- What comes out in the end is defined only if nothing has gone wrong. -/
theorem Control.sound (h : Control s) {lines : List Text} (hwhole : s.whole count = some lines) :
    s.Sound count := by
  obtain ⟨⟨rest, hsink⟩, ⟨values, hformat⟩, ⟨numbers, hsquare⟩⟩ := whole_eq_some hwhole
  obtain ⟨later, hlater⟩ := Channel.toCome_eq_some hsquare
  constructor
  · constructor
    · intro hthrew
      rw [hthrew] at hlater
      cases hlater
    · intro hundefined
      rw [hundefined] at hlater
      cases hlater
  · obtain ⟨squares, hsquares⟩ := Channel.toCome_eq_some hformat
    exact (Stage.toCome_eq_some hsquares).2
  · obtain ⟨formatted, hformatted⟩ := Channel.toCome_eq_some hsink
    exact (Stage.toCome_eq_some hformatted).2
  · exact h.nums_open
  · exact h.squares_open
  · exact h.lines_open

/-- Some stage can go on. -/
def CanStep (count : ℤ) (s : State) : Prop := ∃ act s', s.step count act = some s'

/-- `stage_gen` goes on when `stage_square` waits for it. -/
theorem Control.gen_steps (h : Control s) (hsound : s.Sound count) (hmeets : s.nums.Meets)
    (hready : ∀ val, ∃ square, stageSquare.accept s.square val = some square) :
    CanStep count s := by
  cases hgen : s.gen with
  | looping i =>
      by_cases hle : i ≤ count
      · have hoffer : s.gen.offer count = some (i, .afterWrite i) := by
          rw [hgen]
          exact if_pos hle
        obtain ⟨square, hhand⟩ := Channel.hand_of_meets hmeets hoffer hready
        exact ⟨.genHands, _, Option.map_eq_some_iff.mpr ⟨_, hhand, rfl⟩⟩
      · refine ⟨.genCloses, { s with gen := .returned, nums := s.nums.close }, ?_⟩
        simp only [State.step, hgen]
        exact if_neg hle
  | returned => cases (h.nums.mpr hgen).symm.trans hmeets.1
  | threw => exact absurd hgen hsound.gen.1
  | undefined => exact absurd hgen hsound.gen.2

/-- When `stage_format` waits for `stage_square`, that one or `stage_gen` goes on. -/
theorem Control.square_steps (h : Control s) (hsound : s.Sound count) (hmeets : s.squares.Meets)
    (hready : ∀ val, ∃ format, stageFormat.accept s.format val = some format) :
    CanStep count s := by
  cases hsquare : s.square with
  | reading locals =>
      have hwaits : ∀ val, ∃ square, stageSquare.accept s.square val = some square :=
        Stage.accept_ready hsquare
      rcases Channel.reader_cases s.nums hwaits with ⟨square, nums, hread⟩ | hends | hnums
      · exact ⟨.squareReads, _, Option.map_eq_some_iff.mpr ⟨_, hread, rfl⟩⟩
      · refine ⟨.squareCloses, { s with square := .returned, squares := s.squares.close }, ?_⟩
        simp only [State.step, hsquare]
        exact if_pos hends
      · exact h.gen_steps hsound hnums hwaits
  | writing locals val =>
      obtain ⟨format, hhand⟩ :=
        Channel.hand_of_meets hmeets (Stage.offer_of_writing hsquare) hready
      exact ⟨.squareHands, _, Option.map_eq_some_iff.mpr ⟨_, hhand, rfl⟩⟩
  | returned => cases (h.squares.mpr hsquare).symm.trans hmeets.1
  | threw => exact absurd hsquare hsound.square.1
  | undefined => exact absurd hsquare hsound.square.2

/-- When `stage_sink` waits for `stage_format`, that one or a stage before it goes on. -/
theorem Control.format_steps (h : Control s) (hsound : s.Sound count) (hmeets : s.lines.Meets)
    (hready : ∀ line, ∃ sink, s.sink.accept s.output line = some sink) : CanStep count s := by
  cases hformat : s.format with
  | reading idx =>
      have hwaits : ∀ val, ∃ format, stageFormat.accept s.format val = some format :=
        Stage.accept_ready hformat
      rcases Channel.reader_cases s.squares hwaits with ⟨format, squares, hread⟩ | hends | hsquares
      · exact ⟨.formatReads, _, Option.map_eq_some_iff.mpr ⟨_, hread, rfl⟩⟩
      · refine ⟨.formatCloses, { s with format := .returned, lines := s.lines.close }, ?_⟩
        simp only [State.step, hformat]
        exact if_pos hends
      · exact h.square_steps hsound hsquares hwaits
  | writing idx line =>
      obtain ⟨sink, hhand⟩ :=
        Channel.hand_of_meets hmeets (Stage.offer_of_writing hformat) hready
      exact ⟨.formatHands, _, Option.map_eq_some_iff.mpr ⟨_, hhand, rfl⟩⟩
  | returned => cases (h.lines.mpr hformat).symm.trans hmeets.1
  | threw => exact absurd hformat hsound.format.1
  | undefined => exact absurd hformat hsound.format.2

/-- When the sink has returned, all have. -/
theorem Control.finished (h : Control s) (hsink : s.sink = .returned) : s.Finished := by
  have hformat := h.sink hsink
  have hsquare := h.format hformat
  exact ⟨h.square hsquare, hsquare, hformat, hsink⟩

theorem Control.can_step (h : Control s) (hsound : s.Sound count) (hunfinished : ¬ s.Finished) :
    CanStep count s := by
  cases hsink : s.sink with
  | reading =>
      have hwaits : ∀ line, ∃ sink, s.sink.accept s.output line = some sink := by
        intro line
        rw [hsink]
        exact ⟨_, rfl⟩
      rcases Channel.reader_cases s.lines hwaits with ⟨sink, lines, hread⟩ | hends | hmeets
      · exact ⟨.sinkReads, _, Option.map_eq_some_iff.mpr ⟨_, hread, rfl⟩⟩
      · refine ⟨.sinkEnds, { s with sink := .returned }, ?_⟩
        simp only [State.step, hsink]
        exact if_pos hends
      · exact h.format_steps hsound hmeets hwaits
  | returned => exact absurd (h.finished hsink) hunfinished

/-- At the end nothing is left to be printed. -/
theorem Control.complete (h : Control s) {lines : List Text}
    (hwhole : s.whole count = some lines) (hfinished : s.Finished) : s.output = lines := by
  obtain ⟨hgen, hsquare, hformat, hsink⟩ := hfinished
  have hnothing : s.toSink count = some [] := by
    rw [State.toSink, Channel.toCome_of_empty (h.drained hsink), hformat, State.toFormat, hsquare,
      State.toSquare, hgen]
    rfl
  rw [State.whole, hnothing] at hwhole
  simpa using hwhole

end Progress

/-- Operations that are left for the values that `stage_gen` has still to write: a
read and a write in each stage. -/
def GenPc.work (count : ℤ) : GenPc → ℕ
  | .looping i => 6 * (count + 1 - i).toNat + 1
  | .returned | .threw | .undefined => 0

def SinkPc.work : SinkPc → ℕ
  | .reading => 1
  | .returned => 0

/-- The operations that are left, for the values on their way and for the returns. -/
def State.work (count : ℤ) (s : State) : ℕ :=
  s.gen.work count + 5 * s.nums.buffer.length + s.square.work 4 + 3 * s.squares.buffer.length +
    s.format.work 2 + s.lines.buffer.length + s.sink.work

section Work

variable {count : ℤ} {s s' : State}

theorem genOffer_work {gen gen' : GenPc} {value : ℤ}
    (h : gen.offer count = some (value, gen')) : gen'.work count + 6 ≤ gen.work count := by
  obtain ⟨rfl, hle, rfl⟩ := genOffer_spec h
  unfold GenPc.afterWrite intResult
  split_ifs
  · simp only [GenPc.work]
    omega
  · simp only [GenPc.work]
    omega

theorem work_started (numsCapacity squaresCapacity linesCapacity : ℕ) :
    (started numsCapacity squaresCapacity linesCapacity).work count = 6 * count.toNat + 4 := by
  simp [started, State.work, GenPc.work, StagePc.work, SinkPc.work]

/-- Every step does some of the work. -/
theorem Control.work_lt (h : Control s) (hmoves : Moves count s s') :
    s'.work count < s.work count := by
  cases hmoves with
  | genWrites hwrite =>
      obtain ⟨value, hoffer, -⟩ := Channel.write_spec hwrite
      have hgen := genOffer_work hoffer
      have hlength := Channel.write_length hwrite
      simp only [State.work]
      omega
  | genHands hhand =>
      obtain ⟨-, value, hoffer, haccept⟩ := Channel.hand_spec hhand
      have hgen := genOffer_work hoffer
      have hsquare := Stage.accept_work 4 haccept
      simp only [State.work]
      omega
  | genFails hoffer hclosed => cases hclosed.symm.trans (h.nums_open hoffer)
  | genCloses hgen _ =>
      simp only [State.work, hgen, GenPc.work, Channel.close_buffer]
      omega
  | squareReads hread =>
      obtain ⟨value, -, haccept⟩ := Channel.read_spec hread
      have hsquare := Stage.accept_work 4 haccept
      have hlength := Channel.read_length hread
      simp only [State.work]
      omega
  | squareWrites hwrite =>
      obtain ⟨value, hoffer, -⟩ := Channel.write_spec hwrite
      have hsquare := Stage.offer_work 4 hoffer
      have hlength := Channel.write_length hwrite
      simp only [State.work]
      omega
  | squareHands hhand =>
      obtain ⟨-, value, hoffer, haccept⟩ := Channel.hand_spec hhand
      have hsquare := Stage.offer_work 4 hoffer
      have hformat := Stage.accept_work 2 haccept
      simp only [State.work]
      omega
  | squareFails hoffer hclosed => cases hclosed.symm.trans (h.squares_open hoffer)
  | squareCloses hsquare _ =>
      simp only [State.work, hsquare, StagePc.work, Channel.close_buffer]
      omega
  | formatReads hread =>
      obtain ⟨value, -, haccept⟩ := Channel.read_spec hread
      have hformat := Stage.accept_work 2 haccept
      have hlength := Channel.read_length hread
      simp only [State.work]
      omega
  | formatWrites hwrite =>
      obtain ⟨line, hoffer, -⟩ := Channel.write_spec hwrite
      have hformat := Stage.offer_work 2 hoffer
      have hlength := Channel.write_length hwrite
      simp only [State.work]
      omega
  | formatHands hhand =>
      obtain ⟨-, line, hoffer, haccept⟩ := Channel.hand_spec hhand
      obtain ⟨hreads, rfl, -⟩ := sinkAccept_spec haccept
      have hformat := Stage.offer_work 2 hoffer
      simp only [State.work, hreads]
      omega
  | formatFails hoffer hclosed => cases hclosed.symm.trans (h.lines_open hoffer)
  | formatCloses hformat _ =>
      simp only [State.work, hformat, StagePc.work, Channel.close_buffer]
      omega
  | sinkReads hread =>
      obtain ⟨line, -, haccept⟩ := Channel.read_spec hread
      obtain ⟨hreads, rfl, -⟩ := sinkAccept_spec haccept
      have hlength := Channel.read_length hread
      simp only [State.work, hreads]
      omega
  | sinkEnds hsink _ =>
      simp only [State.work, hsink, SinkPc.work]
      omega

end Work

section Runs

variable {count : ℤ} {numsCapacity squaresCapacity linesCapacity : ℕ} {acts : List Act} {s : State}

theorem run_invariant
    (hrun : (pipelineSystem count numsCapacity squaresCapacity linesCapacity).Run
      (started numsCapacity squaresCapacity linesCapacity) acts s) :
    Control s ∧
      s.whole count = (started numsCapacity squaresCapacity linesCapacity).whole count := by
  refine hrun.preserves (I := fun s => Control s ∧
    s.whole count = (started numsCapacity squaresCapacity linesCapacity).whole count) ?_
    ⟨control_started _ _ _, rfl⟩
  rintro s act s' ⟨hcontrol, hwhole⟩ hstep
  have hmoves := step_moves hstep
  exact ⟨hcontrol.step hmoves, (hcontrol.whole_step hmoves).trans hwhole⟩

end Runs

/-- For any count whose squares fit into `int` and any capacities, and whatever the
order in which the stages go on: the lines printed are the first of those for 1 to
`count`, no stage throws, overflows or writes to a closed channel, some stage can go
on until all have returned, which they have after a bounded number of steps, and
then all the lines are printed and the three channels are closed. -/
theorem pipeline_prints_squares {count : ℤ}
    (hsquares : ∀ i, 1 ≤ i → i ≤ count → i * i ≤ 2 ^ 31 - 1)
    {numsCapacity squaresCapacity linesCapacity : ℕ} {acts : List Act} {s : State}
    (hrun : (pipelineSystem count numsCapacity squaresCapacity linesCapacity).Run
      (started numsCapacity squaresCapacity linesCapacity) acts s) :
    s.output <+: printedLines count ∧ s.Sound count ∧
      (¬ s.Finished → ∃ act s', s.step count act = some s') ∧
      acts.length ≤ 6 * count.toNat + 4 ∧
      (s.Finished → s.output = printedLines count ∧
        s.nums.closed = true ∧ s.squares.closed = true ∧ s.lines.closed = true) := by
  obtain ⟨hcontrol, hwhole⟩ := run_invariant hrun
  rw [whole_started hsquares] at hwhole
  have hsound := hcontrol.sound hwhole
  refine ⟨?_, hsound, hcontrol.can_step hsound, ?_, fun hfinished => ?_⟩
  · obtain ⟨lines, -, heq⟩ := Option.map_eq_some_iff.mp hwhole
    exact ⟨_, heq⟩
  · have hstep : ∀ s act s', Control s → s.step count act = some s' →
        Control s' ∧ s'.work count < s.work count := by
      intro s act s' hs hstep
      have hmoves := step_moves hstep
      exact ⟨hs.step hmoves, hs.work_lt hmoves⟩
    have hsteps := hrun.length_le hstep (control_started _ _ _)
    rw [work_started] at hsteps
    omega
  · refine ⟨hcontrol.complete hwhole hfinished, ?_, ?_, ?_⟩
    · exact hcontrol.nums.mpr hfinished.1
    · exact hcontrol.squares.mpr hfinished.2.1
    · exact hcontrol.lines.mpr hfinished.2.2.1

/-- Two numbers, with no room in the second channel. -/
def twoNumbers : List Act :=
  [.genWrites, .squareReads, .genWrites, .squareHands, .genCloses, .formatWrites, .squareReads,
    .sinkReads, .squareHands, .squareCloses, .formatHands, .formatCloses, .sinkEnds]

theorem pipeline_prints_two_squares : ∃ s,
    (pipelineSystem 2 1 0 1).Run (started 1 0 1) twoNumbers s ∧ s.Finished ∧
      s.output = ["  [sink] 1^2 = 1\n".toList, "  [sink] 2^2 = 4\n".toList] ∧
      s.output = printedLines 2 ∧
      s.nums.closed = true ∧ s.squares.closed = true ∧ s.lines.closed = true := by
  have hend : (twoNumbers.foldlM (State.step 2) (started 1 0 1)).map
      (fun s => (decide s.Finished, s.output)) =
        some (true, ["  [sink] 1^2 = 1\n".toList, "  [sink] 2^2 = 4\n".toList]) := by decide
  obtain ⟨s, hexec, hs⟩ := Option.map_eq_some_iff.mp hend
  obtain ⟨hreturned, houtput⟩ := Prod.mk.inj hs
  have hsquares : ∀ i : ℤ, 1 ≤ i → i ≤ 2 → i * i ≤ 2 ^ 31 - 1 := by
    intro i hlow hhigh
    interval_cases i <;> decide
  have hrun := Run.of_foldlM (S := pipelineSystem 2 1 0 1) (fun _ _ _ h => h) hexec
  have hfinished := of_decide_eq_true hreturned
  obtain ⟨-, -, -, -, hall⟩ := pipeline_prints_squares hsquares hrun
  exact ⟨s, hrun, hfinished, houtput, hall hfinished⟩

end CppWorkspace.Cobalt.SpawnChannel
