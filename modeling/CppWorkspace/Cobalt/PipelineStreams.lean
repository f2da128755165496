import CppWorkspace.Cobalt.Pipeline

/-!
What is still to come out at each place of the pipeline. Whatever a stage does,
what has been printed together with what is still to be printed remains the same,
so that it is always what the loops make of the numbers up to `count`.
-/

namespace CppWorkspace.Cobalt.SpawnChannel

open Lib TextStream

/-- The values that `stage_gen` writes in `k` rounds from `i` on. -/
def numbers : ℕ → ℤ → Option (List ℤ)
  | 0, _ => some []
  | k + 1, i => (intResult (i + 1)).bind fun next => (numbers k next).map (i :: ·)

/-- What is still to come out of `stage_gen`. -/
def GenPc.toCome (count : ℤ) : GenPc → Option (List ℤ)
  | .looping i => numbers (count + 1 - i).toNat i
  | .returned => some []
  | .threw | .undefined => none

namespace State

/-- What `stage_square` has still to read. -/
def toSquare (count : ℤ) (s : State) : Option (List ℤ) := s.nums.toCome (s.gen.toCome count)

/-- What `stage_format` has still to read. -/
def toFormat (count : ℤ) (s : State) : Option (List ℤ) :=
  s.squares.toCome (stageSquare.toCome (s.toSquare count) s.square)

/-- What `stage_sink` has still to read. -/
def toSink (count : ℤ) (s : State) : Option (List Text) :=
  s.lines.toCome (stageFormat.toCome (s.toFormat count) s.format)

/-- What has been printed and what is still to be printed. -/
def whole (count : ℤ) (s : State) : Option (List Text) :=
  (s.toSink count).map fun lines => s.output ++ lines.map sinkText

end State

section Ends

variable {count : ℤ} {gen gen' : GenPc}

theorem genOffer_spec {value : ℤ} (h : gen.offer count = some (value, gen')) :
    gen = .looping value ∧ value ≤ count ∧ gen' = .afterWrite value := by
  cases gen with
  | looping i =>
      obtain ⟨hle, heq⟩ := Option.ite_none_right_eq_some.mp h
      cases heq
      exact ⟨rfl, hle, rfl⟩
  | returned | threw | undefined => cases h

theorem afterWrite_ne_returned (i : ℤ) : GenPc.afterWrite i ≠ .returned := by
  unfold GenPc.afterWrite
  split <;> simp

theorem genOffer_ne_returned {value : ℤ} (h : gen.offer count = some (value, gen')) :
    gen ≠ .returned ∧ gen' ≠ .returned := by
  obtain ⟨rfl, -, rfl⟩ := genOffer_spec h
  exact ⟨by simp, afterWrite_ne_returned value⟩

theorem genOffer_toCome {value : ℤ} (h : gen.offer count = some (value, gen')) :
    gen.toCome count = (gen'.toCome count).map (value :: ·) := by
  obtain ⟨rfl, hle, rfl⟩ := genOffer_spec h
  have hrounds : (count + 1 - value).toNat = (count + 1 - (value + 1)).toNat + 1 := by omega
  rw [GenPc.toCome, hrounds, numbers]
  unfold GenPc.afterWrite intResult
  split_ifs
  · rfl
  · rfl

theorem sinkAccept_spec {sink sink' : SinkPc} {output output' : List Text} {line : Text}
    (h : sink.accept output line = some (sink', output')) :
    sink = .reading ∧ sink' = .reading ∧ output' = output ++ [sinkText line] := by
  cases sink with
  | reading =>
      cases h
      exact ⟨rfl, rfl, rfl⟩
  | returned => cases h

end Ends

/-- What the steps are, one case for each. -/
inductive Moves (count : ℤ) (s : State) : State → Prop
  | genWrites {gen nums} (h : s.nums.write (s.gen.offer count) = some (gen, nums)) :
      Moves count s { s with gen, nums }
  | genHands {gen square}
      (h : s.nums.hand (s.gen.offer count) (stageSquare.accept s.square) = some (gen, square)) :
      Moves count s { s with gen, square }
  | genFails (hoffer : (s.gen.offer count).isSome) (hclosed : s.nums.closed) :
      Moves count s { s with gen := .threw }
  | genCloses {i} (hgen : s.gen = .looping i) (hdone : ¬ i ≤ count) :
      Moves count s { s with gen := .returned, nums := s.nums.close }
  | squareReads {square nums}
      (h : s.nums.read (stageSquare.accept s.square) = some (square, nums)) :
      Moves count s { s with square, nums }
  | squareWrites {square squares}
      (h : s.squares.write (stageSquare.offer s.square) = some (square, squares)) :
      Moves count s { s with square, squares }
  | squareHands {square format}
      (h : s.squares.hand (stageSquare.offer s.square) (stageFormat.accept s.format) =
        some (square, format)) :
      Moves count s { s with square, format }
  | squareFails (hoffer : (stageSquare.offer s.square).isSome) (hclosed : s.squares.closed) :
      Moves count s { s with square := .threw }
  | squareCloses {locals} (hsquare : s.square = .reading locals) (hends : s.nums.Exhausted) :
      Moves count s { s with square := .returned, squares := s.squares.close }
  | formatReads {format squares}
      (h : s.squares.read (stageFormat.accept s.format) = some (format, squares)) :
      Moves count s { s with format, squares }
  | formatWrites {format lines}
      (h : s.lines.write (stageFormat.offer s.format) = some (format, lines)) :
      Moves count s { s with format, lines }
  | formatHands {format sink output}
      (h : s.lines.hand (stageFormat.offer s.format) (s.sink.accept s.output) =
        some (format, sink, output)) :
      Moves count s { s with format, sink, output }
  | formatFails (hoffer : (stageFormat.offer s.format).isSome) (hclosed : s.lines.closed) :
      Moves count s { s with format := .threw }
  | formatCloses {locals} (hformat : s.format = .reading locals) (hends : s.squares.Exhausted) :
      Moves count s { s with format := .returned, lines := s.lines.close }
  | sinkReads {sink output lines}
      (h : s.lines.read (s.sink.accept s.output) = some ((sink, output), lines)) :
      Moves count s { s with sink, output, lines }
  | sinkEnds (hsink : s.sink = .reading) (hends : s.lines.Exhausted) :
      Moves count s { s with sink := .returned }

theorem step_moves {count : ℤ} {s s' : State} {act : Act} (hstep : s.step count act = some s') :
    Moves count s s' := by
  cases act with
  | genWrites =>
      obtain ⟨_, h, rfl⟩ := Option.map_eq_some_iff.mp hstep
      exact .genWrites h
  | genHands =>
      obtain ⟨_, h, rfl⟩ := Option.map_eq_some_iff.mp hstep
      exact .genHands h
  | genFails =>
      obtain ⟨⟨hoffer, hclosed⟩, heq⟩ := Option.ite_none_right_eq_some.mp hstep
      cases heq
      exact .genFails hoffer hclosed
  | genCloses =>
      cases hgen : s.gen with
      | looping i =>
          simp only [State.step, hgen] at hstep
          obtain ⟨hdone, heq⟩ := Option.ite_none_left_eq_some.mp hstep
          cases heq
          exact .genCloses hgen hdone
      | returned | threw | undefined => simp [State.step, hgen] at hstep
  | squareReads =>
      obtain ⟨_, h, rfl⟩ := Option.map_eq_some_iff.mp hstep
      exact .squareReads h
  | squareWrites =>
      obtain ⟨_, h, rfl⟩ := Option.map_eq_some_iff.mp hstep
      exact .squareWrites h
  | squareHands =>
      obtain ⟨_, h, rfl⟩ := Option.map_eq_some_iff.mp hstep
      exact .squareHands h
  | squareFails =>
      obtain ⟨⟨hoffer, hclosed⟩, heq⟩ := Option.ite_none_right_eq_some.mp hstep
      cases heq
      exact .squareFails hoffer hclosed
  | squareCloses =>
      cases hsquare : s.square with
      | reading locals =>
          simp only [State.step, hsquare] at hstep
          obtain ⟨hends, heq⟩ := Option.ite_none_right_eq_some.mp hstep
          cases heq
          exact .squareCloses hsquare hends
      | writing _ _ | returned | threw | undefined => simp [State.step, hsquare] at hstep
  | formatReads =>
      obtain ⟨_, h, rfl⟩ := Option.map_eq_some_iff.mp hstep
      exact .formatReads h
  | formatWrites =>
      obtain ⟨_, h, rfl⟩ := Option.map_eq_some_iff.mp hstep
      exact .formatWrites h
  | formatHands =>
      obtain ⟨_, h, rfl⟩ := Option.map_eq_some_iff.mp hstep
      exact .formatHands h
  | formatFails =>
      obtain ⟨⟨hoffer, hclosed⟩, heq⟩ := Option.ite_none_right_eq_some.mp hstep
      cases heq
      exact .formatFails hoffer hclosed
  | formatCloses =>
      cases hformat : s.format with
      | reading locals =>
          simp only [State.step, hformat] at hstep
          obtain ⟨hends, heq⟩ := Option.ite_none_right_eq_some.mp hstep
          cases heq
          exact .formatCloses hformat hends
      | writing _ _ | returned | threw | undefined => simp [State.step, hformat] at hstep
  | sinkReads =>
      obtain ⟨_, h, rfl⟩ := Option.map_eq_some_iff.mp hstep
      exact .sinkReads h
  | sinkEnds =>
      cases hsink : s.sink with
      | reading =>
          simp only [State.step, hsink] at hstep
          obtain ⟨hends, heq⟩ := Option.ite_none_right_eq_some.mp hstep
          cases heq
          exact .sinkEnds hsink hends
      | returned => simp [State.step, hsink] at hstep

/-- A channel is closed when its writer has returned, and a stage returns once the one
before it has. The sink leaves nothing in its channel. -/
structure Control (s : State) : Prop where
  nums : s.nums.closed = true ↔ s.gen = .returned
  squares : s.squares.closed = true ↔ s.square = .returned
  lines : s.lines.closed = true ↔ s.format = .returned
  square : s.square = .returned → s.gen = .returned
  format : s.format = .returned → s.square = .returned
  sink : s.sink = .returned → s.format = .returned
  drained : s.sink = .returned → s.lines.buffer = []

theorem control_started (numsCapacity squaresCapacity linesCapacity : ℕ) :
    Control (started numsCapacity squaresCapacity linesCapacity) := by
  constructor <;> simp [started]

section Steps

variable {count : ℤ} {s s' : State}

/-- A step in which no stage returns. -/
theorem Control.frame (h : Control s) (hgen : s'.gen = .returned ↔ s.gen = .returned)
    (hsquare : s'.square = .returned ↔ s.square = .returned)
    (hformat : s'.format = .returned ↔ s.format = .returned) (hsink : s'.sink = s.sink)
    (hnums : s'.nums.closed = s.nums.closed) (hsquares : s'.squares.closed = s.squares.closed)
    (hlines : s'.lines.closed = s.lines.closed)
    (hdrained : s'.sink = .returned → s'.lines.buffer = []) : Control s' where
  nums := by rw [hnums, hgen, h.nums]
  squares := by rw [hsquares, hsquare, h.squares]
  lines := by rw [hlines, hformat, h.lines]
  square := by
    rw [hsquare, hgen]
    exact h.square
  format := by
    rw [hformat, hsquare]
    exact h.format
  sink := by
    rw [hsink, hformat]
    exact h.sink
  drained := hdrained

theorem Control.genCloses (h : Control s) :
    Control { s with gen := .returned, nums := s.nums.close } where
  nums := by simp
  squares := h.squares
  lines := h.lines
  square := fun _ => rfl
  format := h.format
  sink := h.sink
  drained := h.drained

theorem Control.squareCloses (h : Control s) (hends : s.nums.Exhausted) :
    Control { s with square := .returned, squares := s.squares.close } where
  nums := h.nums
  squares := by simp
  lines := h.lines
  square := fun _ => h.nums.mp hends.1
  format := fun _ => rfl
  sink := h.sink
  drained := h.drained

theorem Control.formatCloses (h : Control s) (hends : s.squares.Exhausted) :
    Control { s with format := .returned, lines := s.lines.close } where
  nums := h.nums
  squares := h.squares
  lines := by simp
  square := h.square
  format := fun _ => h.squares.mp hends.1
  sink := fun _ => rfl
  drained := h.drained

theorem Control.sinkEnds (h : Control s) (hends : s.lines.Exhausted) :
    Control { s with sink := .returned } where
  nums := h.nums
  squares := h.squares
  lines := h.lines
  square := h.square
  format := h.format
  sink := fun _ => h.lines.mp hends.1
  drained := fun _ => hends.2

/-- No write finds its channel closed. -/
theorem Control.nums_open (h : Control s) (hoffer : (s.gen.offer count).isSome) :
    s.nums.closed = false := by
  obtain ⟨⟨value, gen⟩, hsome⟩ := Option.isSome_iff_exists.mp hoffer
  exact Bool.eq_false_iff.mpr fun hclosed => (genOffer_ne_returned hsome).1 (h.nums.mp hclosed)

theorem Control.squares_open (h : Control s) (hoffer : (stageSquare.offer s.square).isSome) :
    s.squares.closed = false := by
  obtain ⟨⟨value, square⟩, hsome⟩ := Option.isSome_iff_exists.mp hoffer
  exact Bool.eq_false_iff.mpr fun hclosed =>
    (Stage.offer_ne_returned hsome).1 (h.squares.mp hclosed)

theorem Control.lines_open (h : Control s) (hoffer : (stageFormat.offer s.format).isSome) :
    s.lines.closed = false := by
  obtain ⟨⟨line, format⟩, hsome⟩ := Option.isSome_iff_exists.mp hoffer
  exact Bool.eq_false_iff.mpr fun hclosed =>
    (Stage.offer_ne_returned hsome).1 (h.lines.mp hclosed)

theorem Control.step (h : Control s) (hmoves : Moves count s s') : Control s' := by
  cases hmoves with
  | genWrites hwrite =>
      obtain ⟨value, hoffer, -⟩ := Channel.write_spec hwrite
      obtain ⟨hbefore, hafter⟩ := genOffer_ne_returned hoffer
      exact h.frame (iff_of_false hafter hbefore) Iff.rfl Iff.rfl rfl
        (Channel.write_closed hwrite) rfl rfl h.drained
  | genHands hhand =>
      obtain ⟨-, value, hoffer, haccept⟩ := Channel.hand_spec hhand
      obtain ⟨hbefore, hafter⟩ := genOffer_ne_returned hoffer
      obtain ⟨hreads, hread⟩ := Stage.accept_ne_returned haccept
      exact h.frame (iff_of_false hafter hbefore) (iff_of_false hread hreads) Iff.rfl rfl rfl rfl
        rfl h.drained
  | genFails hoffer hclosed => cases hclosed.symm.trans (h.nums_open hoffer)
  | genCloses _ _ => exact h.genCloses
  | squareReads hread =>
      obtain ⟨value, -, haccept⟩ := Channel.read_spec hread
      obtain ⟨hbefore, hafter⟩ := Stage.accept_ne_returned haccept
      exact h.frame Iff.rfl (iff_of_false hafter hbefore) Iff.rfl rfl (Channel.read_closed hread)
        rfl rfl h.drained
  | squareWrites hwrite =>
      obtain ⟨value, hoffer, -⟩ := Channel.write_spec hwrite
      obtain ⟨hbefore, hafter⟩ := Stage.offer_ne_returned hoffer
      exact h.frame Iff.rfl (iff_of_false hafter hbefore) Iff.rfl rfl rfl
        (Channel.write_closed hwrite) rfl h.drained
  | squareHands hhand =>
      obtain ⟨-, value, hoffer, haccept⟩ := Channel.hand_spec hhand
      obtain ⟨hbefore, hafter⟩ := Stage.offer_ne_returned hoffer
      obtain ⟨hreads, hread⟩ := Stage.accept_ne_returned haccept
      exact h.frame Iff.rfl (iff_of_false hafter hbefore) (iff_of_false hread hreads) rfl rfl rfl
        rfl h.drained
  | squareFails hoffer hclosed => cases hclosed.symm.trans (h.squares_open hoffer)
  | squareCloses _ hends => exact h.squareCloses hends
  | formatReads hread =>
      obtain ⟨value, -, haccept⟩ := Channel.read_spec hread
      obtain ⟨hbefore, hafter⟩ := Stage.accept_ne_returned haccept
      exact h.frame Iff.rfl Iff.rfl (iff_of_false hafter hbefore) rfl rfl
        (Channel.read_closed hread) rfl h.drained
  | formatWrites hwrite =>
      obtain ⟨line, hoffer, -⟩ := Channel.write_spec hwrite
      obtain ⟨hbefore, hafter⟩ := Stage.offer_ne_returned hoffer
      exact h.frame Iff.rfl Iff.rfl (iff_of_false hafter hbefore) rfl rfl rfl
        (Channel.write_closed hwrite) fun hsink => absurd (h.sink hsink) hbefore
  | formatHands hhand =>
      obtain ⟨-, line, hoffer, haccept⟩ := Channel.hand_spec hhand
      obtain ⟨hbefore, hafter⟩ := Stage.offer_ne_returned hoffer
      obtain ⟨hreads, hread, -⟩ := sinkAccept_spec haccept
      exact h.frame Iff.rfl Iff.rfl (iff_of_false hafter hbefore) (hread.trans hreads.symm) rfl
        rfl rfl fun hsink => absurd (h.sink (hreads.trans (hread.symm.trans hsink))) hbefore
  | formatFails hoffer hclosed => cases hclosed.symm.trans (h.lines_open hoffer)
  | formatCloses _ hends => exact h.formatCloses hends
  | sinkReads hread =>
      obtain ⟨line, -, haccept⟩ := Channel.read_spec hread
      obtain ⟨hbefore, hafter, -⟩ := sinkAccept_spec haccept
      refine h.frame Iff.rfl Iff.rfl Iff.rfl (hafter.trans hbefore.symm) rfl rfl
        (Channel.read_closed hread) fun hsink => ?_
      cases hafter.symm.trans hsink
  | sinkEnds _ hends => exact h.sinkEnds hends

/-- The sink prints the next of the lines that it has still to read. -/
theorem whole_print (lines : Option (List Text)) (line : Text) (output : List Text) :
    (lines.map (line :: ·)).map (fun lines => output ++ lines.map sinkText) =
      lines.map fun lines => output ++ [sinkText line] ++ lines.map sinkText := by
  cases lines with
  | none => rfl
  | some lines => simp

/-- Nothing is still to come through a channel that is at its end. -/
theorem Control.toSquare_nil (h : Control s) (hends : s.nums.Exhausted) :
    s.toSquare count = some [] := by
  rw [State.toSquare, Channel.toCome_of_empty hends.2, h.nums.mp hends.1]
  rfl

theorem Control.toFormat_nil (h : Control s) (hends : s.squares.Exhausted) :
    s.toFormat count = some [] := by
  have hsquare := h.squares.mp hends.1
  rw [State.toFormat, Channel.toCome_of_empty hends.2, hsquare, State.toSquare, h.square hsquare]
  rfl

/-- No step changes what comes out at the end. -/
theorem Control.whole_step (h : Control s) (hmoves : Moves count s s') :
    s'.whole count = s.whole count := by
  cases hmoves with
  | @genWrites gen nums hwrite =>
      have hsame : nums.toCome (gen.toCome count) = s.nums.toCome (s.gen.toCome count) := by
        obtain ⟨value, hoffer, hput⟩ := Channel.write_spec hwrite
        rw [Channel.put_toCome hput, genOffer_toCome hoffer]
      simp only [State.whole, State.toSink, State.toFormat, State.toSquare, hsame]
  | @genHands gen square hhand =>
      have hsame := Stage.hand_toCome hhand fun _ hoffer => genOffer_toCome hoffer
      simp only [State.whole, State.toSink, State.toFormat, State.toSquare, hsame]
  | genFails hoffer hclosed => cases hclosed.symm.trans (h.nums_open hoffer)
  | genCloses hgen hdone =>
      have hrounds : ∀ i, ¬ i ≤ count → (count + 1 - i).toNat = 0 := by omega
      have hsame : s.gen.toCome count = GenPc.returned.toCome count := by
        rw [hgen, GenPc.toCome, hrounds _ hdone]
        rfl
      simp only [State.whole, State.toSink, State.toFormat, State.toSquare, hsame]
      rfl
  | squareReads hread =>
      have hsame := Stage.read_toCome hread (s.gen.toCome count)
      simp only [State.whole, State.toSink, State.toFormat, State.toSquare, hsame]
  | squareWrites hwrite =>
      have hsame := Stage.write_toCome hwrite (s.toSquare count)
      simp only [State.toSquare] at hsame
      simp only [State.whole, State.toSink, State.toFormat, State.toSquare, hsame]
  | squareHands hhand =>
      have hsame := Stage.hand_toCome hhand fun _ hoffer =>
        Stage.offer_toCome hoffer (s.toSquare count)
      simp only [State.toSquare] at hsame
      simp only [State.whole, State.toSink, State.toFormat, State.toSquare, hsame]
  | squareFails hoffer hclosed => cases hclosed.symm.trans (h.squares_open hoffer)
  | squareCloses hsquare hends =>
      have hsame : s.toSquare count = some [] := h.toSquare_nil hends
      simp only [State.toSquare] at hsame
      simp only [State.whole, State.toSink, State.toFormat, State.toSquare, hsame, hsquare]
      rfl
  | formatReads hread =>
      have hsame := Stage.read_toCome hread (stageSquare.toCome (s.toSquare count) s.square)
      simp only [State.toSquare] at hsame
      simp only [State.whole, State.toSink, State.toFormat, State.toSquare, hsame]
  | formatWrites hwrite =>
      have hsame := Stage.write_toCome hwrite (s.toFormat count)
      simp only [State.toFormat, State.toSquare] at hsame
      simp only [State.whole, State.toSink, State.toFormat, State.toSquare, hsame]
  | formatHands hhand =>
      obtain ⟨hmeets, line, hoffer, haccept⟩ := Channel.hand_spec hhand
      obtain ⟨-, -, rfl⟩ := sinkAccept_spec haccept
      have hcomes := Stage.offer_toCome hoffer (s.toFormat count)
      simp only [State.whole, State.toSink, Channel.toCome_of_empty hmeets.2, hcomes, whole_print]
      rfl
  | formatFails hoffer hclosed => cases hclosed.symm.trans (h.lines_open hoffer)
  | formatCloses hformat hends =>
      have hsame : s.toFormat count = some [] := h.toFormat_nil hends
      simp only [State.toFormat, State.toSquare] at hsame
      simp only [State.whole, State.toSink, State.toFormat, State.toSquare, hsame, hformat]
      rfl
  | sinkReads hread =>
      obtain ⟨line, htake, haccept⟩ := Channel.read_spec hread
      obtain ⟨-, -, rfl⟩ := sinkAccept_spec haccept
      simp only [State.whole, State.toSink, Channel.take_toCome htake, whole_print]
      rfl
  | sinkEnds _ _ => rfl

end Steps

end CppWorkspace.Cobalt.SpawnChannel
