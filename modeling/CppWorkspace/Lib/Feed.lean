import CppWorkspace.Lib.ProcessNetwork

/-!
Two processes and a bounded channel. One writes value after value and closes the channel
behind the last one, the other one takes in what it reads until it finds the end. What
the reader has at the end is the fold of the values, whatever the schedule and the room in
the channel; when taking in a value is undefined, the reader does not come to the end.
-/

namespace CppWorkspace.Lib

open NetState

universe u

/-- What the two processes do: `next` is the value that is written and where the writer goes
on, `take` what the reader makes of a value. -/
structure Feed (α τ σ : Type u) where
  next : τ → Option (α × τ)
  closed : τ → τ
  take : σ → α → Option σ
  ended : σ → σ

namespace Feed

inductive Side where
  | writer
  | reader
deriving DecidableEq, Repr

inductive WriterPc (τ : Type u) where
  | writing (t : τ)
  | returned (t : τ)
  | threw (t : τ)

inductive ReaderPc (σ : Type u) where
  | reading (acc : σ)
  | returned (acc : σ)
  | undefined

variable {α τ σ : Type u}

abbrev Locals (τ σ : Type u) : Side → Type u
  | .writer => WriterPc τ
  | .reader => ReaderPc σ

variable (F : Feed α τ σ)

def writer : WriterPc τ → Action (fun _ : Unit => α) (WriterPc τ)
  | .writing t =>
      match F.next t with
      | some (value, t') => .use () (.send value (.writing t') (.threw t))
      | none => .use () (.close (.returned (F.closed t)))
  | .returned _ | .threw _ => .stop

/-- The reader with a value. -/
def received (acc : σ) (value : α) : ReaderPc σ :=
  match F.take acc value with
  | some acc => .reading acc
  | none => .undefined

def reader : ReaderPc σ → Action (fun _ : Unit => α) (ReaderPc σ)
  | .reading acc => .use () (.receive (F.received acc) (.returned (F.ended acc)))
  | .returned _ | .undefined => .stop

def program : (side : Side) → Locals τ σ side → Action (fun _ : Unit => α) (Locals τ σ side)
  | .writer => F.writer
  | .reader => F.reader

abbrev State (α τ σ : Type u) := NetState (fun _ : Unit => α) (Locals τ σ)

def state (writer : WriterPc τ) (reader : ReaderPc σ) (c : Channel α) : State α τ σ where
  channel _ := c
  process
    | .writer => writer
    | .reader => reader

/-- The network, from a writer and a reader at their beginning. -/
def system (t : τ) (acc : σ) (capacity : ℕ) : System (State α τ σ) (Label Side) :=
  network F.program (state (.writing t) (.reading acc) (.make capacity))

/-- The writer that is at `t` writes these values and is then at `t'`. -/
inductive Writes : τ → List α → τ → Prop
  | last {t : τ} : F.next t = none → Writes t [] t
  | next {t t' t'' : τ} {value : α} {values : List α} : F.next t = some (value, t') →
      Writes t' values t'' → Writes t (value :: values) t''

variable {F} {t t' : τ} {acc acc' : σ} {values : List α} {capacity : ℕ}
  {first first' : WriterPc τ} {second second' : ReaderPc σ} {c c' : Channel α}

@[simp] theorem state_setWriter :
    (state first second c).setProcess .writer first' = state first' second c := by
  simp only [setProcess, state, NetState.mk.injEq, true_and]
  funext side
  cases side <;> rfl

@[simp] theorem state_setReader :
    (state first second c).setProcess .reader second' = state first second' c := by
  simp only [setProcess, state, NetState.mk.injEq, true_and]
  funext side
  cases side <;> rfl

@[simp] theorem state_setChannel :
    (state first second c).setChannel () c' = state first second c' := by
  simp only [setChannel, state, NetState.mk.injEq, and_true]
  funext u
  cases u
  rfl

theorem writer_uses {what : Use α (WriterPc τ)} (h : F.writer first = .use () what) :
    what.Writes := by
  cases first with
  | writing t =>
      simp only [writer] at h
      split at h
      · cases h
        exact trivial
      · cases h
        exact trivial
  | returned _ | threw _ => cases h

theorem reader_uses {what : Use α (ReaderPc σ)} (h : F.reader second = .use () what) :
    ¬ what.Writes := by
  cases second with
  | reading acc =>
      cases h
      exact id
  | returned _ | undefined => cases h

theorem program_wired (F : Feed α τ σ) :
    Wired F.program (fun _ => Side.writer) (fun _ => Side.reader) where
  writes {side locals u what} h hwrites := by
    cases side with
    | writer => rfl
    | reader => exact absurd hwrites (reader_uses h)
  reads {side locals u what} h hreads := by
    cases side with
    | writer => exact absurd (writer_uses h) hreads
    | reader => rfl

section Schedule

variable {S : State α τ σ}

/-- A value goes through the channel. -/
theorem value_through {value : α} (hnext : F.next t = some (value, t')) (hmeets : c.Meets) :
    (network F.program S).Reaches (state (.writing t) (.reading acc) c)
      (state (.writing t') (F.received acc value) c) := by
  have hwriter : F.program .writer (.writing t) =
      .use () (.send value (.writing t') (.threw t)) := by
    simp only [program, writer, hnext]
  have hthrough : (network F.program S).Reaches _ _ := reaches_transfer
    (s := state (.writing t) (.reading acc) c) (p := .writer) (q := .reader) (c := ()) hwriter rfl
    hmeets
  simpa only [state_setWriter, state_setReader] using hthrough

/-- The values go through the channel one after the other. -/
theorem values_through (hwrites : F.Writes t values t')
    (hfold : values.foldlM F.take acc = some acc') (hmeets : c.Meets) :
    (network F.program S).Reaches (state (.writing t) (.reading acc) c)
      (state (.writing t') (.reading acc') c) := by
  induction hwrites generalizing acc with
  | last hlast =>
      cases hfold
      exact .refl _
  | @next t t₁ t' value values hnext _ ih =>
      obtain ⟨acc₁, htake, hrest⟩ := Option.bind_eq_some_iff.mp hfold
      have hvalue := @value_through _ _ _ F t t₁ acc c S value hnext hmeets
      rw [received, htake] at hvalue
      exact hvalue.trans (ih hrest)

/-- A value that cannot be taken in comes to the reader. -/
theorem undefined_through (hwrites : F.Writes t values t')
    (hfold : values.foldlM F.take acc = none) (hmeets : c.Meets) :
    ∃ t'' rest, F.Writes t'' rest t' ∧
      (network F.program S).Reaches (state (.writing t) (.reading acc) c)
        (state (.writing t'') .undefined c) := by
  induction hwrites generalizing acc with
  | last hlast => cases hfold
  | @next t t₁ t' value values hnext hrest ih =>
      have hvalue := @value_through _ _ _ F t t₁ acc c S value hnext hmeets
      rw [List.foldlM_cons] at hfold
      cases htake : F.take acc value with
      | none =>
          rw [received, htake] at hvalue
          exact ⟨t₁, values, hrest, hvalue⟩
      | some acc₁ =>
          rw [htake, Option.bind_eq_bind, Option.bind_some] at hfold
          rw [received, htake] at hvalue
          obtain ⟨t'', rest, hwrites, hreaches⟩ := ih hfold
          exact ⟨t'', rest, hwrites, hvalue.trans hreaches⟩

/-- Nobody reads any more: the writer goes on until the channel is full, or it is done. -/
theorem writer_alone (hwrites : F.Writes t values t') (hopen : c.closed = false) :
    ∃ first c', (network F.program S).Reaches
        (state (.writing t) (.undefined : ReaderPc σ) c) (state first .undefined c') ∧
      (network F.program S).Stuck (state first .undefined c') := by
  induction hwrites generalizing c with
  | @last t hlast =>
      have hwriter : F.program .writer (.writing t) = .use () (.close (.returned (F.closed t))) := by
        simp only [program, writer, hlast]
      have hcloses : (network F.program S).Reaches _ _ := reaches_close
        (s := state (.writing t) .undefined c) (p := .writer) (c := ()) hwriter
      rw [state_setChannel, state_setWriter] at hcloses
      refine ⟨_, _, hcloses, stuck_of_stopped fun side => ?_⟩
      cases side <;> rfl
  | @next t t₁ t' value values hnext hrest ih =>
      have hwriter : F.program .writer (.writing t) =
          .use () (.send value (.writing t₁) (.threw t)) := by
        simp only [program, writer, hnext]
      rcases Nat.lt_or_ge c.buffer.length c.capacity with hroom | hfull
      · obtain ⟨c₁, hput⟩ := Channel.put_of_room hopen hroom value
        have hsends : (network F.program S).Reaches (state (.writing t) .undefined c)
            (state (.writing t₁) .undefined c₁) := by
          have hmove := Moves.uses (s := state (.writing t) (.undefined : ReaderPc σ) c)
            (p := .writer) hwriter (Use.run_send_put hput)
          rw [state_setChannel, state_setWriter] at hmove
          exact .single (step_of_moves hmove)
        obtain ⟨first, c', hreaches, hstuck⟩ := ih (Channel.put_spec hput).2.2.2.1
        exact ⟨first, c', hsends.trans hreaches, hstuck⟩
      · refine ⟨_, c, .refl _, fun label s' hstep => ?_⟩
        have hput : c.put value = none := dif_neg fun hroom => absurd hroom.2 (Nat.not_lt.mpr hfull)
        cases moves_of_step hstep with
        | @uses side u what next after hprogram hrun =>
            cases side with
            | writer =>
                cases hwriter.symm.trans hprogram
                simp only [Use.run, hput, hopen, state, Bool.false_eq_true, if_false,
                  Option.map_none] at hrun
                cases hrun
            | reader => cases hprogram
        | @goes side next hprogram =>
            cases side with
            | writer => cases hwriter.symm.trans hprogram
            | reader => cases hprogram
        | @hands sender receiver u value' sent refused got ended hsend hreceive _ _ =>
            cases receiver with
            | writer => cases hwriter.symm.trans hreceive
            | reader => cases hreceive

theorem end_through (hwrites : F.Writes t values t') (hmeets : c.Meets) :
    (network F.program S).Reaches (state (.writing t') (.reading acc) c)
      (state (.returned (F.closed t')) (.returned (F.ended acc)) c.close) := by
  have hlast : F.next t' = none := by
    induction hwrites with
    | last hlast => exact hlast
    | next _ _ ih => exact ih
  have hwriter : F.program .writer (.writing t') = .use () (.close (.returned (F.closed t'))) := by
    simp only [program, writer, hlast]
  have hcloses : (network F.program S).Reaches _ _ := reaches_close
    (s := state (.writing t') (.reading acc) c) (p := .writer) (c := ()) hwriter
  have hends : (network F.program S).Reaches _ _ := reaches_ended
    (s := state (.returned (F.closed t')) (.reading acc) c.close) (p := .reader) (c := ()) rfl
    ⟨rfl, hmeets.2⟩
  simp only [state_setWriter, state_setReader, state_setChannel] at hcloses hends
  exact hcloses.trans hends

end Schedule

/-- Every schedule leads to the end, where the reader has the fold of the values. -/
theorem leadsTo (hwrites : F.Writes t values t') (hfold : values.foldlM F.take acc = some acc')
    (capacity : ℕ) :
    (F.system t acc capacity).LeadsTo (state (.writing t) (.reading acc) (.make capacity))
      (state (.returned (F.closed t')) (.returned (F.ended acc'))
        (Channel.make capacity).close) := by
  refine (F.program_wired.commutes _).leadsTo (stuck_of_stopped ?_) ?_
  · intro side
    cases side <;> rfl
  · have hmeets : (Channel.make capacity : Channel α).Meets := Channel.make_meets capacity
    exact (values_through hwrites hfold hmeets).trans (end_through hwrites hmeets)

/-- When a value cannot be taken in, every schedule leads to the reader that takes it in. -/
theorem leadsTo_undefined (hwrites : F.Writes t values t')
    (hfold : values.foldlM F.take acc = none) (capacity : ℕ) :
    ∃ first c, (F.system t acc capacity).LeadsTo
      (state (.writing t) (.reading acc) (.make capacity)) (state first .undefined c) := by
  have hmeets : (Channel.make capacity : Channel α).Meets := Channel.make_meets capacity
  obtain ⟨t'', rest, hrest, hundefined⟩ := undefined_through
    (S := state (.writing t) (.reading acc) (.make capacity)) hwrites hfold hmeets
  obtain ⟨first, c, halone, hstuck⟩ := writer_alone
    (S := state (.writing t) (.reading acc) (.make capacity)) hrest hmeets.1
  exact ⟨first, c, (F.program_wired.commutes _).leadsTo hstuck (hundefined.trans halone)⟩

/-- When a value cannot be taken in, the reader returns in no schedule. -/
theorem not_returned (hwrites : F.Writes t values t') (hfold : values.foldlM F.take acc = none)
    {s : State α τ σ} (hs : (F.system t acc capacity).Reachable s) (last : σ) :
    s.process .reader ≠ .returned last := by
  obtain ⟨start, labels, rfl, hrun⟩ := hs
  intro hreturned
  obtain ⟨first, c, hleads⟩ := leadsTo_undefined hwrites hfold capacity
  have hstop : F.program .reader (s.process .reader) = .stop := by
    rw [hreturned]
    rfl
  have hsame := stopped_of_leadsTo hleads hrun hstop
  cases hreturned.symm.trans hsame

/-! ## Every state -/

/-- The writer that was at `t` has written these values and is now at `t'`. -/
inductive Wrote (F : Feed α τ σ) (t : τ) : List α → τ → Prop
  | start : Wrote F t [] t
  | next {t' t'' : τ} {value : α} {written : List α} : Wrote F t written t' →
      F.next t' = some (value, t'') → Wrote F t (written ++ [value]) t''

def WriterOk (F : Feed α τ σ) (t : τ) (written : List α) (c : Channel α) : WriterPc τ → Prop
  | .writing t' => Wrote F t written t' ∧ c.closed = false
  | .returned t'' => (∃ t', Wrote F t written t' ∧ F.next t' = none ∧ t'' = F.closed t') ∧
      c.closed = true
  | .threw _ => False

def ReaderOk (F : Feed α τ σ) (acc : σ) (read : List α) (c : Channel α) : ReaderPc σ → Prop
  | .reading acc' => read.foldlM F.take acc = some acc'
  | .returned last => (∃ acc', read.foldlM F.take acc = some acc' ∧ last = F.ended acc') ∧
      c.Exhausted
  | .undefined => read.foldlM F.take acc = none

/-- What has been written has been read or is in the channel. -/
structure Inv (F : Feed α τ σ) (t : τ) (acc : σ) (capacity : ℕ) (written read : List α)
    (s : State α τ σ) : Prop where
  capacity : (s.channel ()).capacity = capacity
  books : written = read ++ (s.channel ()).buffer
  writer : WriterOk F t written (s.channel ()) (s.process .writer)
  reader : ReaderOk F acc read (s.channel ()) (s.process .reader)

section Steps

variable {written read : List α} {value : α}

theorem inv_start (F : Feed α τ σ) (t : τ) (acc : σ) (capacity : ℕ) :
    Inv F t acc capacity [] [] (state (.writing t) (.reading acc) (.make capacity)) where
  capacity := rfl
  books := rfl
  writer := ⟨.start, rfl⟩
  reader := rfl

theorem ReaderOk.of_open {c : Channel α} (h : ReaderOk F acc read c second)
    (hmore : ¬ c.Exhausted) : ReaderOk F acc read c' second := by
  cases second with
  | reading acc' => exact h
  | returned last => exact absurd h.2 hmore
  | undefined => exact h

theorem WriterOk.of_closed {c : Channel α} (h : WriterOk F t written c first)
    (hsame : c'.closed = c.closed) : WriterOk F t written c' first := by
  cases first with
  | writing t' => exact ⟨h.1, hsame.trans h.2⟩
  | returned t'' => exact ⟨h.1, hsame.trans h.2⟩
  | threw t' => exact h

/-- The reader takes in one more value. -/
theorem readerOk_received (h : read.foldlM F.take acc = some acc') (value : α) :
    ReaderOk F acc (read ++ [value]) c (F.received acc' value) := by
  have hfold : (read ++ [value]).foldlM F.take acc = F.take acc' value := by
    rw [List.foldlM_append, h, Option.bind_eq_bind, Option.bind_some, List.foldlM_cons]
    simp
  unfold received
  cases htake : F.take acc' value with
  | some acc'' => exact hfold.trans htake
  | none => exact hfold.trans htake

theorem Inv.writes (h : Inv F t acc capacity written read (state (.writing t') second c))
    {t'' : τ} (hnext : F.next t' = some (value, t'')) (hput : c.put value = some c') :
    Inv F t acc capacity (written ++ [value]) read (state (.writing t'') second c') := by
  obtain ⟨hopen, -, hbuffer, hstill, hcapacity⟩ := Channel.put_spec hput
  exact
    { capacity := hcapacity.trans h.capacity
      books := by
        have hbooks : written = read ++ c.buffer := h.books
        change _ = read ++ c'.buffer
        rw [hbuffer, hbooks, List.append_assoc]
      writer := ⟨h.writer.1.next hnext, hstill⟩
      reader := h.reader.of_open (Channel.not_exhausted_of_open hopen) }

theorem Inv.closes (h : Inv F t acc capacity written read (state (.writing t') second c))
    (hnext : F.next t' = none) :
    Inv F t acc capacity written read (state (.returned (F.closed t')) second c.close) where
  capacity := h.capacity
  books := h.books
  writer := ⟨⟨t', h.writer.1, hnext, rfl⟩, rfl⟩
  reader := h.reader.of_open (Channel.not_exhausted_of_open h.writer.2)

theorem Inv.reads (h : Inv F t acc capacity written read (state first (.reading acc') c))
    (htake : c.take = some (value, c')) :
    Inv F t acc capacity written (read ++ [value]) (state first (F.received acc' value) c') := by
  obtain ⟨hbuffer, hclosed, hcapacity⟩ := Channel.take_spec htake
  exact
    { capacity := hcapacity.trans h.capacity
      books := by
        have hbooks : written = read ++ c.buffer := h.books
        change _ = read ++ [value] ++ c'.buffer
        rw [hbooks, hbuffer, List.append_assoc, List.singleton_append]
      writer := h.writer.of_closed hclosed
      reader := readerOk_received h.reader value }

theorem Inv.ends (h : Inv F t acc capacity written read (state first (.reading acc') c))
    (hends : c.Exhausted) :
    Inv F t acc capacity written read (state first (.returned (F.ended acc')) c) where
  capacity := h.capacity
  books := h.books
  writer := h.writer
  reader := ⟨⟨acc', h.reader, rfl⟩, hends⟩

/-- The writer meets the reader. -/
theorem Inv.hands
    (h : Inv F t acc capacity written read (state (.writing t') (.reading acc') c)) {t'' : τ}
    (hnext : F.next t' = some (value, t'')) (hempty : c.buffer = []) :
    Inv F t acc capacity (written ++ [value]) (read ++ [value])
      (state (.writing t'') (F.received acc' value) c) where
  capacity := h.capacity
  books := by
    have hbooks : written = read ++ c.buffer := h.books
    change _ = read ++ [value] ++ c.buffer
    rw [hbooks, hempty, List.append_nil, List.append_nil]
  writer := ⟨h.writer.1.next hnext, h.writer.2⟩
  reader := readerOk_received h.reader value

theorem exists_state (s : State α τ σ) : ∃ first second c, s = state first second c := by
  obtain ⟨channel, process⟩ := s
  refine ⟨process .writer, process .reader, channel (), ?_⟩
  simp only [state, NetState.mk.injEq, true_and]
  funext side
  cases side <;> rfl

theorem writer_send {t'' threw : WriterPc τ}
    (h : F.writer first = .use () (.send value t'' threw)) :
    ∃ t₁ t₂, first = .writing t₁ ∧ F.next t₁ = some (value, t₂) ∧ t'' = .writing t₂ := by
  cases first with
  | writing t₁ =>
      simp only [writer] at h
      split at h
      · next value' t₂ hnext =>
        cases h
        exact ⟨t₁, t₂, rfl, hnext, rfl⟩
      · cases h
  | returned _ | threw _ => cases h

theorem writer_close {t'' : WriterPc τ} (h : F.writer first = .use () (.close t'')) :
    ∃ t₁, first = .writing t₁ ∧ F.next t₁ = none ∧ t'' = .returned (F.closed t₁) := by
  cases first with
  | writing t₁ =>
      simp only [writer] at h
      split at h
      · cases h
      · next hnext =>
        cases h
        exact ⟨t₁, rfl, hnext, rfl⟩
  | returned _ | threw _ => cases h

theorem reader_receive {got : α → ReaderPc σ} {ended : ReaderPc σ}
    (h : F.reader second = .use () (.receive got ended)) :
    ∃ acc₁, second = .reading acc₁ ∧ got = F.received acc₁ ∧ ended = .returned (F.ended acc₁) := by
  cases second with
  | reading acc₁ =>
      cases h
      exact ⟨acc₁, rfl, rfl, rfl⟩
  | returned _ | undefined => cases h

theorem writer_not_go : F.writer first ≠ .go first' := by
  cases first with
  | writing t₁ =>
      simp only [writer]
      split <;> simp
  | returned _ | threw _ => simp [writer]

theorem reader_not_go : F.reader second ≠ .go second' := by
  cases second <;> simp [reader]

theorem Inv.step {s s' : State α τ σ} {label : Label Side} (h : Inv F t acc capacity written read s)
    (hmove : s.Moves F.program label s') :
    ∃ written' read', Inv F t acc capacity written' read' s' := by
  obtain ⟨first, second, c, rfl⟩ := exists_state s
  cases hmove with
  | @uses side u what next after hprogram hrun =>
      cases side with
      | writer =>
          rw [state_setChannel, state_setWriter]
          cases what with
          | send value sent refused =>
              obtain ⟨t₁, t₂, hfirst, hnext, rfl⟩ := writer_send hprogram
              obtain rfl : first = .writing t₁ := hfirst
              rcases Use.run_send hrun with ⟨hclosed, -⟩ | ⟨-, rfl, hput⟩
              · cases h.writer.2.symm.trans hclosed
              · exact ⟨_, _, h.writes hnext hput⟩
          | close last =>
              obtain ⟨t₁, hfirst, hnext, rfl⟩ := writer_close hprogram
              obtain rfl : first = .writing t₁ := hfirst
              cases hrun
              exact ⟨_, _, h.closes hnext⟩
          | receive _ _ => exact absurd (writer_uses hprogram) id
      | reader =>
          rw [state_setChannel, state_setReader]
          cases what with
          | receive got ended =>
              obtain ⟨acc₁, hsecond, rfl, rfl⟩ := reader_receive hprogram
              obtain rfl : second = .reading acc₁ := hsecond
              rcases Use.run_receive hrun with ⟨value, htake, rfl⟩ | ⟨htake, hclosed, rfl, rfl⟩
              · exact ⟨_, _, h.reads htake⟩
              · exact ⟨_, _, h.ends ⟨hclosed, Channel.take_eq_none.mp htake⟩⟩
          | send _ _ _ => exact absurd trivial (reader_uses hprogram)
          | close _ => exact absurd trivial (reader_uses hprogram)
  | @goes side next hprogram =>
      cases side with
      | writer => exact absurd hprogram writer_not_go
      | reader => exact absurd hprogram reader_not_go
  | @hands p q u value sent refused got ended hsend hreceive hcapacity hopen =>
      obtain rfl : p = .writer := F.program_wired.writes hsend trivial
      obtain rfl : q = .reader := F.program_wired.reads hreceive id
      obtain ⟨t₁, t₂, hfirst, hnext, rfl⟩ := writer_send hsend
      obtain ⟨acc₁, hsecond, rfl, rfl⟩ := reader_receive hreceive
      obtain rfl : first = .writing t₁ := hfirst
      obtain rfl : second = .reading acc₁ := hsecond
      rw [state_setWriter, state_setReader]
      have hempty : c.buffer = [] := by
        have hfits : c.buffer.length ≤ c.capacity := c.fits
        have hnone : c.capacity = 0 := hcapacity
        exact List.eq_nil_of_length_eq_zero (by omega)
      exact ⟨_, _, h.hands hnext hempty⟩

theorem inv_of_reachable {s : State α τ σ} (hs : (F.system t acc capacity).Reachable s) :
    ∃ written read, Inv F t acc capacity written read s := by
  obtain ⟨_, labels, rfl, hrun⟩ := hs
  refine hrun.preserves (I := fun s => ∃ written read, Inv F t acc capacity written read s) ?_
    ⟨[], [], inv_start F t acc capacity⟩
  rintro s label s' ⟨written, read, h⟩ hstep
  exact h.step (moves_of_step hstep)

/-- The writer is ahead of the reader by no more than the channel holds. -/
theorem Inv.ahead_le {s : State α τ σ} (h : Inv F t acc capacity written read s) :
    read <+: written ∧ written.length ≤ read.length + capacity := by
  have hfits := (s.channel ()).fits
  rw [h.capacity] at hfits
  rw [h.books, List.length_append]
  exact ⟨List.prefix_append _ _, by omega⟩

end Steps

end Feed

end CppWorkspace.Lib
