import CppWorkspace.Lib.Stage
import CppWorkspace.Lib.TextStream
import CppWorkspace.Lib.Transition

/-!
`pipeline_demo` of `spawn_channel.cpp`: `stage_gen` writes the numbers from one
to `count`, `stage_square` their squares, `stage_format` a line for each, and
`stage_sink` prints the lines. Each stage closes its own output, so that the end
passes down the pipeline. The count and the capacities of the three channels are
parameters.
-/

namespace CppWorkspace.Cobalt.SpawnChannel

open Lib TextStream

abbrev Text := List Char

/-- The result of an `int` operation; `none` where it overflows, which is
undefined. -/
def intResult (n : ℤ) : Option ℤ := if -2 ^ 31 ≤ n ∧ n ≤ 2 ^ 31 - 1 then some n else none

inductive GenPc where
  /-- At the head of the loop. -/
  | looping (i : ℤ)
  | returned
  | threw
  | undefined
deriving DecidableEq, Repr

def GenPc.afterWrite (i : ℤ) : GenPc :=
  match intResult (i + 1) with
  | some i => .looping i
  | none => .undefined

/-- `stage_gen`: the value of its next write, and where it goes on. -/
def GenPc.offer (count : ℤ) : GenPc → Option (ℤ × GenPc)
  | .looping i => if i ≤ count then some (i, .afterWrite i) else none
  | _ => none

/-- `stage_square`. -/
def stageSquare : Stage Unit ℤ ℤ where
  emit _ val := intResult (val * val)
  next := some

/-- `stage_format`, with `idx` as its local. -/
def stageFormat : Stage ℤ ℤ Text where
  emit idx val := some (showInt idx ++ "^2 = ".toList ++ showInt val)
  next idx := intResult (idx + 1)

inductive SinkPc where
  | reading
  | returned
deriving DecidableEq, Repr

def sinkText (line : Text) : Text := "  [sink] ".toList ++ line ++ ['\n']

/-- `stage_sink`: it prints the line and reads again. -/
def SinkPc.accept (output : List Text) (sink : SinkPc) (line : Text) :
    Option (SinkPc × List Text) :=
  match sink with
  | .reading => some (.reading, output ++ [sinkText line])
  | .returned => none

structure State where
  nums : Channel ℤ
  squares : Channel ℤ
  lines : Channel Text
  gen : GenPc := .looping 1
  square : StagePc Unit ℤ := .reading ()
  format : StagePc ℤ Text := .reading 1
  sink : SinkPc := .reading
  /-- What has been printed. -/
  output : List Text := []

inductive Act where
  | genWrites
  /-- `stage_square` waits for the value. -/
  | genHands
  | genFails
  | genCloses
  | squareReads
  | squareWrites
  | squareHands
  | squareFails
  | squareCloses
  | formatReads
  | formatWrites
  | formatHands
  | formatFails
  | formatCloses
  | sinkReads
  | sinkEnds
deriving DecidableEq, Repr

namespace State

/-- One step of a stage, up to its next operation on a channel. -/
def step (count : ℤ) (s : State) : Act → Option State
  | .genWrites =>
      (s.nums.write (s.gen.offer count)).map fun (gen, nums) => { s with gen, nums }
  | .genHands =>
      (s.nums.hand (s.gen.offer count) (stageSquare.accept s.square)).map fun (gen, square) =>
        { s with gen, square }
  | .genFails =>
      if (s.gen.offer count).isSome ∧ s.nums.closed then some { s with gen := .threw } else none
  | .genCloses =>
      match s.gen with
      | .looping i =>
          if i ≤ count then none else some { s with gen := .returned, nums := s.nums.close }
      | _ => none
  | .squareReads =>
      (s.nums.read (stageSquare.accept s.square)).map fun (square, nums) => { s with square, nums }
  | .squareWrites =>
      (s.squares.write (stageSquare.offer s.square)).map fun (square, squares) =>
        { s with square, squares }
  | .squareHands =>
      (s.squares.hand (stageSquare.offer s.square) (stageFormat.accept s.format)).map
        fun (square, format) => { s with square, format }
  | .squareFails =>
      if (stageSquare.offer s.square).isSome ∧ s.squares.closed then
        some { s with square := .threw }
      else none
  | .squareCloses =>
      match s.square with
      | .reading _ =>
          if s.nums.Exhausted then some { s with square := .returned, squares := s.squares.close }
          else none
      | _ => none
  | .formatReads =>
      (s.squares.read (stageFormat.accept s.format)).map fun (format, squares) =>
        { s with format, squares }
  | .formatWrites =>
      (s.lines.write (stageFormat.offer s.format)).map fun (format, lines) =>
        { s with format, lines }
  | .formatHands =>
      (s.lines.hand (stageFormat.offer s.format) (s.sink.accept s.output)).map
        fun (format, sink, output) => { s with format, sink, output }
  | .formatFails =>
      if (stageFormat.offer s.format).isSome ∧ s.lines.closed then
        some { s with format := .threw }
      else none
  | .formatCloses =>
      match s.format with
      | .reading _ =>
          if s.squares.Exhausted then some { s with format := .returned, lines := s.lines.close }
          else none
      | _ => none
  | .sinkReads =>
      (s.lines.read (s.sink.accept s.output)).map fun ((sink, output), lines) =>
        { s with sink, output, lines }
  | .sinkEnds =>
      match s.sink with
      | .reading => if s.lines.Exhausted then some { s with sink := .returned } else none
      | .returned => none

/-- All four stages have returned. -/
def Finished (s : State) : Prop :=
  s.gen = .returned ∧ s.square = .returned ∧ s.format = .returned ∧ s.sink = .returned

instance (s : State) : Decidable s.Finished := inferInstanceAs (Decidable (_ ∧ _))

/-- No stage has thrown or come to an undefined operation, and no stage is about to
write to a closed channel. -/
structure Sound (count : ℤ) (s : State) : Prop where
  gen : s.gen ≠ .threw ∧ s.gen ≠ .undefined
  square : s.square ≠ .threw ∧ s.square ≠ .undefined
  format : s.format ≠ .threw ∧ s.format ≠ .undefined
  nums : (s.gen.offer count).isSome → s.nums.closed = false
  squares : (stageSquare.offer s.square).isSome → s.squares.closed = false
  lines : (stageFormat.offer s.format).isSome → s.lines.closed = false

end State

/-- The four stages at their start, on channels of these capacities. -/
def started (numsCapacity squaresCapacity linesCapacity : ℕ) : State where
  nums := .make numsCapacity
  squares := .make squaresCapacity
  lines := .make linesCapacity

def pipelineSystem (count : ℤ) (numsCapacity squaresCapacity linesCapacity : ℕ) :
    System State Act where
  init s := s = started numsCapacity squaresCapacity linesCapacity
  step s act s' := s.step count act = some s'

/-- The line for `i`. -/
def squareLine (i : ℕ) : Text := showInt i ++ "^2 = ".toList ++ showInt (i * i)

/-- What the pipeline should print. -/
def printedLines (count : ℤ) : List Text :=
  (List.range' 1 count.toNat).map fun i => sinkText (squareLine i)

end CppWorkspace.Cobalt.SpawnChannel
