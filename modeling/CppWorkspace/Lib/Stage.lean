import CppWorkspace.Lib.Channel

/-!
Stages of a pipeline over channels. A stage reads a value, writes what it makes
of it and reads again; when its input ends it closes its output. What is still to
come out of a stage is computed from what is still to come into it, and no
operation on a channel changes what comes out at its far end.
-/

namespace CppWorkspace.Lib

universe u

namespace Channel

variable {α ω ρ : Type u}

instance (c : Channel α) : Decidable c.Exhausted := inferInstanceAs (Decidable (_ ∧ _))

instance (c : Channel α) : Decidable c.Meets := inferInstanceAs (Decidable (_ ∧ _))

/-- A process that offers a value at its write puts it and goes on. -/
def write (c : Channel α) (offer : Option (α × ω)) : Option (ω × Channel α) := do
  let (value, writer) ← offer
  let c ← c.put value
  return (writer, c)

/-- A process at its read takes a value and goes on with it. -/
def read (c : Channel α) (accept : α → Option ρ) : Option (ρ × Channel α) := do
  let (value, c) ← c.take
  let reader ← accept value
  return (reader, c)

/-- The value of a writer goes to a reader that waits for it. -/
def hand (c : Channel α) (offer : Option (α × ω)) (accept : α → Option ρ) : Option (ω × ρ) :=
  if c.Meets then do
    let (value, writer) ← offer
    let reader ← accept value
    return (writer, reader)
  else none

/-- What is still to come out of a channel into which this is still to come; `none`
where a computation has failed. -/
def toCome (c : Channel α) (input : Option (List α)) : Option (List α) :=
  input.map (c.buffer ++ ·)

variable {c c' : Channel α} {offer : Option (α × ω)} {accept : α → Option ρ} {writer : ω}
  {reader : ρ}

theorem write_spec (h : c.write offer = some (writer, c')) :
    ∃ value, offer = some (value, writer) ∧ c.put value = some c' := by
  obtain ⟨⟨value, writer'⟩, hoffer, hrest⟩ := Option.bind_eq_some_iff.mp h
  obtain ⟨c'', hput, heq⟩ := Option.bind_eq_some_iff.mp hrest
  cases heq
  exact ⟨value, hoffer, hput⟩

theorem read_spec (h : c.read accept = some (reader, c')) :
    ∃ value, c.take = some (value, c') ∧ accept value = some reader := by
  obtain ⟨⟨value, c''⟩, htake, hrest⟩ := Option.bind_eq_some_iff.mp h
  obtain ⟨reader', haccept, heq⟩ := Option.bind_eq_some_iff.mp hrest
  cases heq
  exact ⟨value, htake, haccept⟩

theorem hand_spec (h : c.hand offer accept = some (writer, reader)) :
    c.Meets ∧ ∃ value, offer = some (value, writer) ∧ accept value = some reader := by
  obtain ⟨hmeets, hrest⟩ := Option.ite_none_right_eq_some.mp h
  obtain ⟨⟨value, writer'⟩, hoffer, hrest⟩ := Option.bind_eq_some_iff.mp hrest
  obtain ⟨reader', haccept, heq⟩ := Option.bind_eq_some_iff.mp hrest
  cases heq
  exact ⟨hmeets, value, hoffer, haccept⟩

theorem write_closed (h : c.write offer = some (writer, c')) : c'.closed = c.closed := by
  obtain ⟨value, -, hput⟩ := write_spec h
  obtain ⟨hopen, -, -, hopen', -⟩ := put_spec hput
  exact hopen'.trans hopen.symm

theorem write_length (h : c.write offer = some (writer, c')) :
    c'.buffer.length = c.buffer.length + 1 := by
  obtain ⟨value, -, hput⟩ := write_spec h
  obtain ⟨-, -, hbuffer, -, -⟩ := put_spec hput
  rw [hbuffer, List.length_append, List.length_singleton]

theorem read_closed (h : c.read accept = some (reader, c')) : c'.closed = c.closed := by
  obtain ⟨value, htake, -⟩ := read_spec h
  exact (take_spec htake).2.1

theorem read_length (h : c.read accept = some (reader, c')) :
    c.buffer.length = c'.buffer.length + 1 := by
  obtain ⟨value, htake, -⟩ := read_spec h
  rw [(take_spec htake).1, List.length_cons]

theorem put_toCome {value : α} (h : c.put value = some c') (input : Option (List α)) :
    c'.toCome input = c.toCome (input.map (value :: ·)) := by
  obtain ⟨-, -, hbuffer, -, -⟩ := put_spec h
  cases input with
  | none => rfl
  | some values => simp [toCome, hbuffer]

theorem take_toCome {value : α} (h : c.take = some (value, c')) (input : Option (List α)) :
    c.toCome input = (c'.toCome input).map (value :: ·) := by
  obtain ⟨hbuffer, -, -⟩ := take_spec h
  cases input with
  | none => rfl
  | some values => simp [toCome, hbuffer]

theorem toCome_of_empty (h : c.buffer = []) (input : Option (List α)) : c.toCome input = input := by
  cases input with
  | none => rfl
  | some values => simp [toCome, h]

theorem toCome_eq_some {input : Option (List α)} {values : List α}
    (h : c.toCome input = some values) : ∃ later, input = some later := by
  obtain ⟨later, hinput, -⟩ := Option.map_eq_some_iff.mp h
  exact ⟨later, hinput⟩

/-- What a reader that waits finds: a value with which it goes on, the end, or the need
of a writer. -/
theorem reader_cases (c : Channel α) (hready : ∀ value, ∃ reader, accept value = some reader) :
    (∃ reader c', c.read accept = some (reader, c')) ∨ c.Exhausted ∨ c.Meets := by
  rcases receiver_cases c with ⟨value, c', htake⟩ | hends
  · obtain ⟨reader, haccept⟩ := hready value
    refine Or.inl ⟨reader, c', ?_⟩
    rw [read, htake]
    change (accept value).bind _ = _
    rw [haccept]
    rfl
  · exact Or.inr hends

/-- A writer goes on when it meets a reader that waits. -/
theorem hand_of_meets {value : α} (hmeets : c.Meets) (hoffer : offer = some (value, writer))
    (hready : ∀ value, ∃ reader, accept value = some reader) :
    ∃ reader, c.hand offer accept = some (writer, reader) := by
  obtain ⟨reader, haccept⟩ := hready value
  refine ⟨reader, ?_⟩
  rw [hand, if_pos hmeets, hoffer]
  change (accept value).bind _ = _
  rw [haccept]
  rfl

end Channel

/-- What a stage makes of a value and its next local state, after the write; `none`
is an evaluation without a defined result. -/
structure Stage (σ α β : Type u) where
  emit : σ → α → Option β
  next : σ → Option σ

inductive StagePc (σ β : Type*) where
  | reading (locals : σ)
  | writing (locals : σ) (value : β)
  | returned
  /-- A write found its channel closed. -/
  | threw
  | undefined
deriving DecidableEq, Repr

/-- The work that is left for a stage, when a value that it holds counts for `cost`. -/
def StagePc.work {σ β : Type*} (cost : ℕ) : StagePc σ β → ℕ
  | .reading _ => 1
  | .writing _ _ => cost + 1
  | .returned | .threw | .undefined => 0

namespace Stage

variable {σ α β : Type u} (stage : Stage σ α β)

def afterWrite (locals : σ) : StagePc σ β :=
  match stage.next locals with
  | some locals => .reading locals
  | none => .undefined

/-- The value of a stage at its write, and where it goes on. -/
def offer : StagePc σ β → Option (β × StagePc σ β)
  | .writing locals value => some (value, stage.afterWrite locals)
  | _ => none

/-- Where a stage at its read goes on with the value. -/
def accept (pc : StagePc σ β) (value : α) : Option (StagePc σ β) :=
  match pc with
  | .reading locals =>
      match stage.emit locals value with
      | some out => some (.writing locals out)
      | none => some .undefined
  | _ => none

/-- All that the loop writes for these inputs. -/
def outputs (locals : σ) : List α → Option (List β)
  | [] => some []
  | value :: rest => do
      let out ← stage.emit locals value
      let locals ← stage.next locals
      let later ← outputs locals rest
      return out :: later

/-- What is still to come out of a stage, from what is still to come into it. -/
def toCome (input : Option (List α)) : StagePc σ β → Option (List β)
  | .reading locals => input.bind (stage.outputs locals)
  | .writing locals value =>
      (stage.next locals).bind fun locals =>
        (input.bind (stage.outputs locals)).map (value :: ·)
  | .returned => input.bind fun _ => some []
  | .threw | .undefined => none

variable {stage} {pc pc' : StagePc σ β}

theorem offer_spec {value : β} (h : stage.offer pc = some (value, pc')) :
    ∃ locals, pc = .writing locals value ∧ pc' = stage.afterWrite locals := by
  cases pc with
  | writing locals value =>
      cases h
      exact ⟨locals, rfl, rfl⟩
  | reading _ | returned | threw | undefined => cases h

theorem accept_spec {value : α} (h : stage.accept pc value = some pc') :
    ∃ locals, pc = .reading locals ∧
      ((∃ out, stage.emit locals value = some out ∧ pc' = .writing locals out) ∨
        (stage.emit locals value = none ∧ pc' = .undefined)) := by
  cases pc with
  | reading locals =>
      refine ⟨locals, rfl, ?_⟩
      unfold accept at h
      dsimp only at h
      split at h
      · next out hemit =>
        cases h
        exact Or.inl ⟨out, hemit, rfl⟩
      · next hemit =>
        cases h
        exact Or.inr ⟨hemit, rfl⟩
  | writing _ _ | returned | threw | undefined => cases h

theorem afterWrite_ne_returned (locals : σ) : stage.afterWrite locals ≠ .returned := by
  unfold afterWrite
  split <;> simp

theorem offer_ne_returned {value : β} (h : stage.offer pc = some (value, pc')) :
    pc ≠ .returned ∧ pc' ≠ .returned := by
  obtain ⟨locals, rfl, rfl⟩ := offer_spec h
  exact ⟨by simp, afterWrite_ne_returned locals⟩

theorem accept_ne_returned {value : α} (h : stage.accept pc value = some pc') :
    pc ≠ .returned ∧ pc' ≠ .returned := by
  obtain ⟨locals, rfl, ⟨out, -, rfl⟩ | ⟨-, rfl⟩⟩ := accept_spec h
  · exact ⟨by simp, by simp⟩
  · exact ⟨by simp, by simp⟩

/-- A stage at its read goes on with any value. -/
theorem accept_ready {locals : σ} (hpc : pc = .reading locals) (value : α) :
    ∃ pc', stage.accept pc value = some pc' := by
  rw [hpc]
  unfold accept
  dsimp only
  split
  · exact ⟨_, rfl⟩
  · exact ⟨_, rfl⟩

theorem offer_of_writing {locals : σ} {value : β} (hpc : pc = .writing locals value) :
    stage.offer pc = some (value, stage.afterWrite locals) := by
  rw [hpc]
  rfl

theorem offer_work {value : β} (cost : ℕ) (h : stage.offer pc = some (value, pc')) :
    pc'.work cost + cost ≤ pc.work cost := by
  obtain ⟨locals, rfl, rfl⟩ := offer_spec h
  unfold afterWrite
  split
  · simp [StagePc.work, Nat.add_comm]
  · simp [StagePc.work]

theorem accept_work {value : α} (cost : ℕ) (h : stage.accept pc value = some pc') :
    pc'.work cost ≤ pc.work cost + cost := by
  obtain ⟨locals, rfl, ⟨out, -, rfl⟩ | ⟨-, rfl⟩⟩ := accept_spec h
  · simp [StagePc.work, Nat.add_comm]
  · simp [StagePc.work]

/-- What a stage writes came out of it. -/
theorem offer_toCome {value : β} (h : stage.offer pc = some (value, pc'))
    (input : Option (List α)) :
    stage.toCome input pc = (stage.toCome input pc').map (value :: ·) := by
  obtain ⟨locals, rfl, rfl⟩ := offer_spec h
  cases hnext : stage.next locals with
  | none => simp [toCome, afterWrite, hnext]
  | some locals' => simp [toCome, afterWrite, hnext]

/-- What a stage reads came into it. -/
theorem accept_toCome {value : α} (h : stage.accept pc value = some pc')
    (input : Option (List α)) :
    stage.toCome (input.map (value :: ·)) pc = stage.toCome input pc' := by
  obtain ⟨locals, rfl, ⟨out, hemit, rfl⟩ | ⟨hemit, rfl⟩⟩ := accept_spec h
  · cases hnext : stage.next locals with
    | none => cases input <;> simp [toCome, outputs, hemit, hnext]
    | some locals' =>
        cases input with
        | none => simp [toCome, hnext]
        | some values =>
            cases hrest : stage.outputs locals' values <;>
              simp [toCome, outputs, hemit, hnext, hrest]
  · cases input <;> simp [toCome, outputs, hemit]

theorem toCome_eq_some {input : Option (List α)} {out : List β}
    (h : stage.toCome input pc = some out) :
    (∃ values, input = some values) ∧ pc ≠ .threw ∧ pc ≠ .undefined := by
  cases input with
  | some values =>
      refine ⟨⟨values, rfl⟩, ?_, ?_⟩
      · rintro rfl
        cases h
      · rintro rfl
        cases h
  | none =>
      cases pc with
      | writing locals value => simp [toCome] at h
      | reading _ | returned | threw | undefined => cases h

theorem outputs_cons {locals locals' : σ} {value : α} {rest : List α} {out : β} {later : List β}
    (hemit : stage.emit locals value = some out) (hnext : stage.next locals = some locals')
    (hrest : stage.outputs locals' rest = some later) :
    stage.outputs locals (value :: rest) = some (out :: later) := by
  simp [outputs, hemit, hnext, hrest]

/-- The stage takes a value from its channel. -/
theorem read_toCome {c c' : Channel α} (h : c.read (stage.accept pc) = some (pc', c'))
    (input : Option (List α)) :
    stage.toCome (c'.toCome input) pc' = stage.toCome (c.toCome input) pc := by
  obtain ⟨value, htake, haccept⟩ := Channel.read_spec h
  rw [Channel.take_toCome htake, accept_toCome haccept]

/-- The stage gets a value from a writer, out of which it comes. -/
theorem hand_toCome {ω : Type u} {c : Channel α} {offer : Option (α × ω)} {writer : ω}
    {before after : Option (List α)}
    (h : c.hand offer (stage.accept pc) = some (writer, pc'))
    (hcomes : ∀ value, offer = some (value, writer) → before = after.map (value :: ·)) :
    stage.toCome (c.toCome after) pc' = stage.toCome (c.toCome before) pc := by
  obtain ⟨hmeets, value, hoffer, haccept⟩ := Channel.hand_spec h
  rw [Channel.toCome_of_empty hmeets.2, Channel.toCome_of_empty hmeets.2, hcomes value hoffer,
    accept_toCome haccept]

/-- The stage puts a value into its channel. -/
theorem write_toCome {c c' : Channel β} (h : c.write (stage.offer pc) = some (pc', c'))
    (input : Option (List α)) :
    c'.toCome (stage.toCome input pc') = c.toCome (stage.toCome input pc) := by
  obtain ⟨value, hoffer, hput⟩ := Channel.write_spec h
  rw [offer_toCome hoffer, Channel.put_toCome hput]

end Stage

end CppWorkspace.Lib
