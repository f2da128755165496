import CppWorkspace.Asio.ActorPipeline

/-!
The runs of the pipeline. One schedule, in which every item goes through to the sink
before the next one is sent, tells where all lead to; what is in the channels and at the
stage in between bounds how far the producer is ahead.
-/

namespace CppWorkspace.Asio.ActorPipeline

open Lib System NetState

section State

variable {producer producer' : Coroutine ProducerPc} {squareStage squareStage' : Coroutine SquarePc}
  {sink sink' : Coroutine SinkPc} {stage1 stage2 c : Channel ℤ}

@[simp] theorem state_setProducer :
    (state producer squareStage sink stage1 stage2).setProcess .producer producer' =
      state producer' squareStage sink stage1 stage2 := by
  simp only [setProcess, state, NetState.mk.injEq, true_and]
  funext a
  cases a <;> rfl

@[simp] theorem state_setSquareStage :
    (state producer squareStage sink stage1 stage2).setProcess .squareStage squareStage' =
      state producer squareStage' sink stage1 stage2 := by
  simp only [setProcess, state, NetState.mk.injEq, true_and]
  funext a
  cases a <;> rfl

@[simp] theorem state_setSink :
    (state producer squareStage sink stage1 stage2).setProcess .sink sink' =
      state producer squareStage sink' stage1 stage2 := by
  simp only [setProcess, state, NetState.mk.injEq, true_and]
  funext a
  cases a <;> rfl

@[simp] theorem state_setStage1 :
    (state producer squareStage sink stage1 stage2).setChannel .stage1 c =
      state producer squareStage sink c stage2 := by
  simp only [setChannel, state, NetState.mk.injEq, and_true]
  funext m
  cases m <;> rfl

@[simp] theorem state_setStage2 :
    (state producer squareStage sink stage1 stage2).setChannel .stage2 c =
      state producer squareStage sink stage1 c := by
  simp only [setChannel, state, NetState.mk.injEq, and_true]
  funext m
  cases m <;> rfl

theorem state_eta (s : State) :
    s = state (s.process .producer) (s.process .squareStage) (s.process .sink) (s.channel .stage1)
      (s.channel .stage2) := by
  obtain ⟨channel, process⟩ := s
  simp only [state, NetState.mk.injEq]
  refine ⟨funext fun m => ?_, funext fun a => ?_⟩
  · cases m <;> rfl
  · cases a <;> rfl

end State

def Mailbox.writer : Mailbox → Actor
  | .stage1 => .producer
  | .stage2 => .squareStage

def Mailbox.reader : Mailbox → Actor
  | .stage1 => .squareStage
  | .stage2 => .sink

section Wired

variable {itemCount : ℕ} {m : Mailbox}

theorem producer_uses {locals : Coroutine ProducerPc} {what : Use ℤ (Coroutine ProducerPc)}
    (h : producer itemCount locals = .use m what) : m = .stage1 ∧ what.Writes := by
  obtain ⟨pc, out⟩ := locals
  cases pc with
  | looping value =>
      simp only [producer] at h
      split at h
      · cases h
        exact ⟨rfl, trivial⟩
      · cases h
        exact ⟨rfl, trivial⟩
  | returned | threw => cases h

theorem squareStage_uses {locals : Coroutine SquarePc} {what : Use ℤ (Coroutine SquarePc)}
    (h : squareStage locals = .use m what) :
    (m = .stage1 ∧ ¬ what.Writes) ∨ (m = .stage2 ∧ what.Writes) := by
  obtain ⟨pc, out⟩ := locals
  cases pc with
  | receiving =>
      cases h
      exact .inl ⟨rfl, id⟩
  | sending value square =>
      cases h
      exact .inr ⟨rfl, trivial⟩
  | closing =>
      cases h
      exact .inr ⟨rfl, trivial⟩
  | working _ | returned | threw | undefined _ => cases h

theorem sink_uses {locals : Coroutine SinkPc} {what : Use ℤ (Coroutine SinkPc)}
    (h : sink locals = .use m what) : m = .stage2 ∧ ¬ what.Writes := by
  obtain ⟨pc, out⟩ := locals
  cases pc with
  | receiving =>
      cases h
      exact ⟨rfl, id⟩
  | returned => cases h

theorem program_wired (itemCount : ℕ) :
    Wired (program itemCount) Mailbox.writer Mailbox.reader where
  writes {a locals m what} h hwrites := by
    cases a with
    | producer =>
        obtain ⟨rfl, -⟩ := producer_uses h
        rfl
    | squareStage =>
        rcases squareStage_uses h with ⟨-, hreads⟩ | ⟨rfl, -⟩
        · exact absurd hwrites hreads
        · rfl
    | sink => exact absurd hwrites (sink_uses h).2
  reads {a locals m what} h hreads := by
    cases a with
    | producer => exact absurd (producer_uses h).2 hreads
    | squareStage =>
        rcases squareStage_uses h with ⟨rfl, -⟩ | ⟨-, hwrites⟩
        · rfl
        · exact absurd hwrites hreads
    | sink =>
        obtain ⟨rfl, -⟩ := sink_uses h
        rfl

end Wired

section Schedule

variable {itemCount capacity1 capacity2 value : ℕ} {out1 out2 out3 : List Text}
  {stage1 stage2 : Channel ℤ}

/-- One item goes through the pipeline. -/
theorem item_through (hvalue : value ≤ itemCount) (hfits : FitsInt ((value : ℤ) * value))
    (hstage1 : stage1.Meets) (hstage2 : stage2.Meets) :
    (actorPipeline itemCount capacity1 capacity2).Reaches
      (state ⟨.looping value, out1⟩ ⟨.receiving, out2⟩ ⟨.receiving, out3⟩ stage1 stage2)
      (state ⟨.looping (value + 1), out1 ++ [sentText value]⟩ ⟨.receiving, out2⟩
        ⟨.receiving, out3 ++ [gotText ((value : ℤ) * value)]⟩ stage1 stage2) := by
  have hwork : SquarePc.afterWork value = .sending value ((value : ℤ) * value) := by
    rw [SquarePc.afterWork, int_of_fits hfits]
  have hsends : (actorPipeline itemCount capacity1 capacity2).Reaches _ _ := reaches_transfer
    (s := state ⟨.looping value, out1⟩ ⟨.receiving, out2⟩ ⟨.receiving, out3⟩ stage1 stage2)
    (p := .producer) (q := .squareStage) (c := .stage1) (if_pos hvalue) rfl hstage1
  have hworks : (actorPipeline itemCount capacity1 capacity2).Reaches _ _ := reaches_go
    (s := state ⟨.looping (value + 1), out1 ++ [sentText value]⟩ ⟨.working value, out2⟩
      ⟨.receiving, out3⟩ stage1 stage2) (p := .squareStage) rfl
  have hpasses : (actorPipeline itemCount capacity1 capacity2).Reaches _ _ := reaches_transfer
    (s := state ⟨.looping (value + 1), out1 ++ [sentText value]⟩
      ⟨.sending value ((value : ℤ) * value), out2⟩ ⟨.receiving, out3⟩ stage1 stage2)
    (p := .squareStage) (q := .sink) (c := .stage2) rfl rfl hstage2
  simp only [state_setProducer, state_setSquareStage, state_setSink, hwork] at hsends hworks hpasses
  exact (hsends.trans hworks).trans hpasses

/-- The squares of the numbers from one on. -/
def squares (n : ℕ) : List ℤ := (List.range' 1 n).map fun value : ℕ => (value : ℤ) * value

theorem squares_succ (n : ℕ) :
    squares (n + 1) = squares n ++ [((n + 1 : ℕ) : ℤ) * ((n + 1 : ℕ) : ℤ)] := by
  rw [squares, List.range'_concat, List.map_append, squares]
  simp [Nat.add_comm]

theorem fits_square {m n : ℕ} (hle : m ≤ n) (hfits : FitsInt ((n : ℤ) * n)) :
    FitsInt ((m : ℤ) * m) := by
  have hsquare : (m : ℤ) * m ≤ n * n := by exact_mod_cast Nat.mul_le_mul hle hle
  exact ⟨(by norm_num : (-2 ^ 31 : ℤ) ≤ 0).trans (mul_self_nonneg _), hsquare.trans hfits.2⟩

/-- The items go through one after the other. -/
theorem items_through (hvalue : value ≤ itemCount) (hfits : FitsInt ((itemCount : ℤ) * itemCount)) :
    (actorPipeline itemCount capacity1 capacity2).Reaches (start capacity1 capacity2)
      (state ⟨.looping (value + 1), (List.range' 1 value).map sentText⟩ ⟨.receiving, []⟩
        ⟨.receiving, (squares value).map gotText⟩ (.make capacity1) (.make capacity2)) := by
  induction value with
  | zero => exact .refl _
  | succ value ih =>
      have hlast := @item_through itemCount capacity1 capacity2 (value + 1)
        ((List.range' 1 value).map sentText) [] ((squares value).map gotText) _ _ hvalue
        (fits_square hvalue hfits) (Channel.make_meets capacity1) (Channel.make_meets capacity2)
      rw [List.range'_concat, List.map_append, squares_succ, List.map_append]
      simp only [one_mul, Nat.add_comm 1 value, List.map_singleton]
      exact (ih (Nat.le_of_succ_le hvalue)).trans hlast

/-- The end goes through the pipeline. -/
theorem end_through (hvalue : itemCount < value) (hstage1 : stage1.Meets) (hstage2 : stage2.Meets) :
    (actorPipeline itemCount capacity1 capacity2).Reaches
      (state ⟨.looping value, out1⟩ ⟨.receiving, out2⟩ ⟨.receiving, out3⟩ stage1 stage2)
      (state ⟨.returned, out1 ++ [producerDone]⟩ ⟨.returned, out2 ++ [squareDone]⟩
        ⟨.returned, out3 ++ [sinkDone]⟩ stage1.close stage2.close) := by
  have hcloses : (actorPipeline itemCount capacity1 capacity2).Reaches _ _ := reaches_close
    (s := state ⟨.looping value, out1⟩ ⟨.receiving, out2⟩ ⟨.receiving, out3⟩ stage1 stage2)
    (p := .producer) (c := .stage1) (if_neg (not_le.mpr hvalue))
  have hends : (actorPipeline itemCount capacity1 capacity2).Reaches _ _ := reaches_ended
    (s := state ⟨.returned, out1 ++ [producerDone]⟩ ⟨.receiving, out2⟩ ⟨.receiving, out3⟩
      stage1.close stage2) (p := .squareStage) (c := .stage1) rfl ⟨rfl, hstage1.2⟩
  have hcloses' : (actorPipeline itemCount capacity1 capacity2).Reaches _ _ := reaches_close
    (s := state ⟨.returned, out1 ++ [producerDone]⟩ ⟨.closing, out2⟩ ⟨.receiving, out3⟩
      stage1.close stage2) (p := .squareStage) (c := .stage2) rfl
  have hends' : (actorPipeline itemCount capacity1 capacity2).Reaches _ _ := reaches_ended
    (s := state ⟨.returned, out1 ++ [producerDone]⟩ ⟨.returned, out2 ++ [squareDone]⟩
      ⟨.receiving, out3⟩ stage1.close stage2.close) (p := .sink) (c := .stage2) rfl
    ⟨rfl, hstage2.2⟩
  simp only [state_setProducer, state_setSquareStage, state_setSink, state_setStage1,
    state_setStage2] at hcloses hends hcloses' hends'
  exact ((hcloses.trans hends).trans hcloses').trans hends'

/-- Where the pipeline ends. -/
def drained (itemCount capacity1 capacity2 : ℕ) : State :=
  state ⟨.returned, (List.range' 1 itemCount).map sentText ++ [producerDone]⟩
    ⟨.returned, [squareDone]⟩ ⟨.returned, (squares itemCount).map gotText ++ [sinkDone]⟩
    (Channel.make capacity1).close (Channel.make capacity2).close

theorem leadsTo_drained (capacity1 capacity2 : ℕ) (hfits : FitsInt ((itemCount : ℤ) * itemCount)) :
    (actorPipeline itemCount capacity1 capacity2).LeadsTo (start capacity1 capacity2)
      (drained itemCount capacity1 capacity2) := by
  refine ((program_wired itemCount).commutes _).leadsTo (stuck_of_stopped ?_) ?_
  · intro a
    cases a <;> rfl
  · have hitems := @items_through itemCount capacity1 capacity2 itemCount le_rfl hfits
    exact hitems.trans
      (end_through (Nat.lt_succ_self itemCount) (Channel.make_meets _) (Channel.make_meets _))

end Schedule

def ProducerPc.sent (itemCount : ℕ) : ProducerPc → ℕ
  | .looping value => value - 1
  | .returned | .threw => itemCount

/-- The item that the stage has taken and not passed on. -/
def SquarePc.held : SquarePc → List ℤ
  | .working value | .sending value _ | .undefined value => [value]
  | .receiving | .closing | .returned | .threw => []

def SinkPc.last : SinkPc → List Text
  | .receiving => []
  | .returned => [sinkDone]

def items (n : ℕ) : List ℤ := (List.range' 1 n).map (Nat.cast : ℕ → ℤ)

theorem items_succ (n : ℕ) : items (n + 1) = items n ++ [((n + 1 : ℕ) : ℤ)] := by
  rw [items, List.range'_concat, List.map_append, items]
  simp [Nat.add_comm]

def ProducerOk (itemCount : ℕ) (stage1 : Channel ℤ) : ProducerPc → Prop
  | .looping value => 1 ≤ value ∧ value ≤ itemCount + 1 ∧ stage1.closed = false
  | .returned => stage1.closed = true
  | .threw => False

def SquareOk (stage1 stage2 : Channel ℤ) : SquarePc → Prop
  | .receiving | .working _ | .undefined _ => stage2.closed = false
  | .sending value square => stage2.closed = false ∧ FitsInt square ∧ square = value * value
  | .closing => stage2.closed = false ∧ stage1.Exhausted
  | .returned => stage2.closed = true ∧ stage1.Exhausted
  | .threw => False

def SinkOk (stage2 : Channel ℤ) : SinkPc → Prop
  | .receiving => True
  | .returned => stage2.Exhausted

/-- Where the items are that have been sent, when the sink has got these squares. -/
structure Accounts (sent : ℕ) (squared got held buffer1 buffer2 : List ℤ) : Prop where
  items : items sent = squared ++ held ++ buffer1
  squares : squared.map (fun value => value * value) = got ++ buffer2
  fits : ∀ value ∈ squared, FitsInt (value * value)

namespace Accounts

variable {sent : ℕ} {value : ℤ} {squared got held buffer1 buffer2 : List ℤ}

theorem sends (h : Accounts sent squared got held buffer1 buffer2) :
    Accounts (sent + 1) squared got held (buffer1 ++ [((sent + 1 : ℕ) : ℤ)]) buffer2 where
  items := by rw [items_succ, h.items, List.append_assoc]
  squares := h.squares
  fits := h.fits

theorem takes (h : Accounts sent squared got [] (value :: buffer1) buffer2) :
    Accounts sent squared got [value] buffer1 buffer2 where
  items := by
    rw [h.items, List.append_nil, List.append_assoc]
    rfl
  squares := h.squares
  fits := h.fits

theorem puts (h : Accounts sent squared got [value] buffer1 buffer2)
    (hfits : FitsInt (value * value)) :
    Accounts sent (squared ++ [value]) got [] buffer1 (buffer2 ++ [value * value]) where
  items := by rw [h.items, List.append_nil]
  squares := by rw [List.map_append, h.squares, List.append_assoc, List.map_singleton]
  fits := by
    intro other hother
    rcases List.mem_append.mp hother with hold | hnew
    · exact h.fits other hold
    · rw [List.mem_singleton.mp hnew]
      exact hfits

theorem gets (h : Accounts sent squared got held buffer1 (value :: buffer2)) :
    Accounts sent squared (got ++ [value]) held buffer1 buffer2 where
  items := h.items
  squares := by
    rw [h.squares, List.append_assoc]
    rfl
  fits := h.fits

end Accounts

structure Inv (itemCount capacity1 capacity2 : ℕ) (s : State) : Prop where
  producer : ProducerOk itemCount (s.channel .stage1) (s.process .producer).pc
  squareStage : SquareOk (s.channel .stage1) (s.channel .stage2) (s.process .squareStage).pc
  sink : SinkOk (s.channel .stage2) (s.process .sink).pc
  capacities : (s.channel .stage1).capacity = capacity1 ∧ (s.channel .stage2).capacity = capacity2
  books : ∃ squared got, Accounts ((s.process .producer).pc.sent itemCount) squared got
    (s.process .squareStage).pc.held (s.channel .stage1).buffer (s.channel .stage2).buffer ∧
      (s.process .sink).output = got.map gotText ++ (s.process .sink).pc.last

section Steps

variable {itemCount capacity1 capacity2 : ℕ} {producer producer' : Coroutine ProducerPc}
  {squareStage squareStage' : Coroutine SquarePc} {sink sink' : Coroutine SinkPc}
  {stage1 stage1' stage2 stage2' : Channel ℤ} {out out' : List Text} {value : ℤ} {next : ℕ}
  {s s' : State} {label : Label Actor}

theorem inv_start (itemCount capacity1 capacity2 : ℕ) :
    Inv itemCount capacity1 capacity2 (start capacity1 capacity2) where
  producer := ⟨le_rfl, Nat.le_add_left 1 itemCount, rfl⟩
  squareStage := rfl
  sink := trivial
  capacities := ⟨rfl, rfl⟩
  books := ⟨[], [], ⟨rfl, rfl, by simp⟩, rfl⟩

/-- What the stage knows of its input, when something comes into it or goes out of it. -/
theorem SquareOk.of_open {pc : SquarePc} (h : SquareOk stage1 stage2 pc)
    (hmore : ¬ stage1.Exhausted) : SquareOk stage1' stage2 pc := by
  cases pc with
  | receiving | working _ | undefined _ | sending _ _ => exact h
  | closing | returned => exact absurd h.2 hmore
  | threw => exact h

theorem SquareOk.of_exhausted {pc : SquarePc} (h : SquareOk stage1 stage2 pc)
    (hends : stage1.Exhausted → stage1'.Exhausted) : SquareOk stage1' stage2 pc := by
  cases pc with
  | receiving | working _ | undefined _ | sending _ _ => exact h
  | closing | returned => exact ⟨h.1, hends h.2⟩
  | threw => exact h

theorem SquareOk.of_closed {pc : SquarePc} (h : SquareOk stage1 stage2 pc)
    (hsame : stage2'.closed = stage2.closed) : SquareOk stage1 stage2' pc := by
  cases pc with
  | receiving | working _ | undefined _ => exact hsame.trans h
  | sending _ _ => exact ⟨hsame.trans h.1, h.2⟩
  | closing | returned => exact ⟨hsame.trans h.1, h.2⟩
  | threw => exact h

theorem ProducerOk.of_closed {pc : ProducerPc} (h : ProducerOk itemCount stage1 pc)
    (hsame : stage1'.closed = stage1.closed) : ProducerOk itemCount stage1' pc := by
  cases pc with
  | looping next => exact ⟨h.1, h.2.1, hsame.trans h.2.2⟩
  | returned => exact hsame.trans h
  | threw => exact h

theorem SinkOk.of_open {pc : SinkPc} (h : SinkOk stage2 pc) (hmore : ¬ stage2.Exhausted) :
    SinkOk stage2' pc := by
  cases pc with
  | receiving => exact trivial
  | returned => exact absurd h hmore

theorem Inv.sends
    (h : Inv itemCount capacity1 capacity2
      (state ⟨.looping next, out⟩ squareStage sink stage1 stage2))
    (hnext : next ≤ itemCount) (hput : stage1.put next = some stage1') :
    Inv itemCount capacity1 capacity2
      (state ⟨.looping (next + 1), out ++ [sentText next]⟩ squareStage sink stage1' stage2) := by
  obtain ⟨hopen, -, hbuffer, hstill, hcapacity⟩ := Channel.put_spec hput
  obtain ⟨squared, got, haccounts, houtput⟩ := h.books
  obtain ⟨last, rfl⟩ : ∃ last, next = last + 1 := ⟨next - 1, (Nat.sub_add_cancel h.producer.1).symm⟩
  exact
    { producer := ⟨Nat.le_add_left 1 _, Nat.succ_le_succ hnext, hstill⟩
      squareStage := h.squareStage.of_open (Channel.not_exhausted_of_open hopen)
      sink := h.sink
      capacities := ⟨hcapacity.trans h.capacities.1, h.capacities.2⟩
      books := by
        refine ⟨squared, got, ?_, houtput⟩
        change Accounts (last + 1) _ _ _ stage1'.buffer _
        rw [hbuffer]
        exact haccounts.sends }

theorem Inv.producer_closes
    (h : Inv itemCount capacity1 capacity2
      (state ⟨.looping next, out⟩ squareStage sink stage1 stage2))
    (hnext : itemCount < next) :
    Inv itemCount capacity1 capacity2
      (state ⟨.returned, out ++ [producerDone]⟩ squareStage sink stage1.close stage2) := by
  obtain ⟨squared, got, haccounts, houtput⟩ := h.books
  have hall : next - 1 = itemCount := by
    have hbound : next ≤ itemCount + 1 := h.producer.2.1
    omega
  exact
    { producer := rfl
      squareStage := h.squareStage.of_exhausted fun hends => ⟨rfl, hends.2⟩
      sink := h.sink
      capacities := h.capacities
      books := by
        refine ⟨squared, got, ?_, houtput⟩
        change Accounts itemCount _ _ _ _ _
        rw [← hall]
        exact haccounts }

theorem Inv.takes
    (h : Inv itemCount capacity1 capacity2
      (state producer ⟨.receiving, out⟩ sink stage1 stage2))
    (htake : stage1.take = some (value, stage1')) :
    Inv itemCount capacity1 capacity2
      (state producer ⟨.working value, out⟩ sink stage1' stage2) := by
  obtain ⟨hbuffer, hclosed, hcapacity⟩ := Channel.take_spec htake
  obtain ⟨squared, got, haccounts, houtput⟩ := h.books
  exact
    { producer := h.producer.of_closed hclosed
      squareStage := h.squareStage
      sink := h.sink
      capacities := ⟨hcapacity.trans h.capacities.1, h.capacities.2⟩
      books := by
        refine ⟨squared, got, ?_, houtput⟩
        change Accounts _ _ _ [] stage1.buffer _ at haccounts
        rw [hbuffer] at haccounts
        exact haccounts.takes }

/-- The producer meets the stage. -/
theorem Inv.hands
    (h : Inv itemCount capacity1 capacity2
      (state ⟨.looping next, out⟩ ⟨.receiving, out'⟩ sink stage1 stage2))
    (hnext : next ≤ itemCount) (hempty : stage1.buffer = []) :
    Inv itemCount capacity1 capacity2
      (state ⟨.looping (next + 1), out ++ [sentText next]⟩ ⟨.working next, out'⟩ sink stage1
        stage2) := by
  obtain ⟨squared, got, haccounts, houtput⟩ := h.books
  obtain ⟨last, rfl⟩ : ∃ last, next = last + 1 := ⟨next - 1, (Nat.sub_add_cancel h.producer.1).symm⟩
  exact
    { producer := ⟨Nat.le_add_left 1 _, Nat.succ_le_succ hnext, h.producer.2.2⟩
      squareStage := h.squareStage
      sink := h.sink
      capacities := h.capacities
      books := by
        refine ⟨squared, got, ?_, houtput⟩
        change Accounts last _ _ [] stage1.buffer _ at haccounts
        rw [hempty] at haccounts
        change Accounts (last + 1) _ _ _ stage1.buffer _
        rw [hempty]
        exact haccounts.sends.takes }

theorem Inv.works
    (h : Inv itemCount capacity1 capacity2
      (state producer ⟨.working value, out⟩ sink stage1 stage2)) :
    Inv itemCount capacity1 capacity2
      (state producer ⟨.afterWork value, out⟩ sink stage1 stage2) := by
  unfold SquarePc.afterWork
  split
  · next square hsquare =>
    obtain ⟨hfits, rfl⟩ := int_eq_some.mp hsquare
    exact
      { producer := h.producer
        squareStage := ⟨h.squareStage, hfits, rfl⟩
        sink := h.sink
        capacities := h.capacities
        books := h.books }
  · exact
      { producer := h.producer
        squareStage := h.squareStage
        sink := h.sink
        capacities := h.capacities
        books := h.books }

theorem Inv.input_ends
    (h : Inv itemCount capacity1 capacity2
      (state producer ⟨.receiving, out⟩ sink stage1 stage2))
    (hends : stage1.Exhausted) :
    Inv itemCount capacity1 capacity2 (state producer ⟨.closing, out⟩ sink stage1 stage2) where
  producer := h.producer
  squareStage := ⟨h.squareStage, hends⟩
  sink := h.sink
  capacities := h.capacities
  books := h.books

theorem Inv.puts {square : ℤ}
    (h : Inv itemCount capacity1 capacity2
      (state producer ⟨.sending value square, out⟩ sink stage1 stage2))
    (hput : stage2.put square = some stage2') :
    Inv itemCount capacity1 capacity2
      (state producer ⟨.receiving, out⟩ sink stage1 stage2') := by
  obtain ⟨hopen, -, hbuffer, hstill, hcapacity⟩ := Channel.put_spec hput
  obtain ⟨squared, got, haccounts, houtput⟩ := h.books
  obtain ⟨-, hfits, rfl⟩ := h.squareStage
  exact
    { producer := h.producer
      squareStage := hstill
      sink := h.sink.of_open (Channel.not_exhausted_of_open hopen)
      capacities := ⟨h.capacities.1, hcapacity.trans h.capacities.2⟩
      books := by
        refine ⟨squared ++ [value], got, ?_, houtput⟩
        change Accounts _ _ _ _ _ stage2'.buffer
        rw [hbuffer]
        exact haccounts.puts hfits }

theorem Inv.gets
    (h : Inv itemCount capacity1 capacity2
      (state producer squareStage ⟨.receiving, out⟩ stage1 stage2))
    (htake : stage2.take = some (value, stage2')) :
    Inv itemCount capacity1 capacity2
      (state producer squareStage ⟨.receiving, out ++ [gotText value]⟩ stage1 stage2') := by
  obtain ⟨hbuffer, hclosed, hcapacity⟩ := Channel.take_spec htake
  obtain ⟨squared, got, haccounts, houtput⟩ := h.books
  exact
    { producer := h.producer
      squareStage := h.squareStage.of_closed hclosed
      sink := trivial
      capacities := ⟨h.capacities.1, hcapacity.trans h.capacities.2⟩
      books := by
        change Accounts _ _ _ _ _ stage2.buffer at haccounts
        rw [hbuffer] at haccounts
        refine ⟨squared, got ++ [value], haccounts.gets, ?_⟩
        change out = got.map gotText ++ [] at houtput
        change out ++ [gotText value] = (got ++ [value]).map gotText ++ []
        rw [houtput, List.append_nil, List.append_nil, List.map_append, List.map_singleton] }

/-- The stage meets the sink. -/
theorem Inv.passes {square : ℤ}
    (h : Inv itemCount capacity1 capacity2
      (state producer ⟨.sending value square, out⟩ ⟨.receiving, out'⟩ stage1 stage2))
    (hempty : stage2.buffer = []) :
    Inv itemCount capacity1 capacity2
      (state producer ⟨.receiving, out⟩ ⟨.receiving, out' ++ [gotText square]⟩ stage1 stage2) := by
  obtain ⟨squared, got, haccounts, houtput⟩ := h.books
  obtain ⟨hopen, hfits, rfl⟩ := h.squareStage
  exact
    { producer := h.producer
      squareStage := hopen
      sink := trivial
      capacities := h.capacities
      books := by
        change Accounts _ _ _ _ _ stage2.buffer at haccounts
        rw [hempty] at haccounts
        refine ⟨squared ++ [value], got ++ [value * value], ?_, ?_⟩
        · change Accounts _ _ _ _ _ stage2.buffer
          rw [hempty]
          exact (haccounts.puts hfits).gets
        · change out' = got.map gotText ++ [] at houtput
          change out' ++ [gotText (value * value)] = (got ++ [value * value]).map gotText ++ []
          rw [houtput, List.append_nil, List.append_nil, List.map_append, List.map_singleton] }

theorem Inv.square_closes
    (h : Inv itemCount capacity1 capacity2
      (state producer ⟨.closing, out⟩ sink stage1 stage2)) :
    Inv itemCount capacity1 capacity2
      (state producer ⟨.returned, out ++ [squareDone]⟩ sink stage1 stage2.close) where
  producer := h.producer
  squareStage := ⟨rfl, h.squareStage.2⟩
  sink := h.sink.of_open (Channel.not_exhausted_of_open h.squareStage.1)
  capacities := h.capacities
  books := h.books

theorem Inv.output_ends
    (h : Inv itemCount capacity1 capacity2
      (state producer squareStage ⟨.receiving, out⟩ stage1 stage2))
    (hends : stage2.Exhausted) :
    Inv itemCount capacity1 capacity2
      (state producer squareStage ⟨.returned, out ++ [sinkDone]⟩ stage1 stage2) where
  producer := h.producer
  squareStage := h.squareStage
  sink := hends
  capacities := h.capacities
  books := by
    obtain ⟨squared, got, haccounts, houtput⟩ := h.books
    refine ⟨squared, got, haccounts, ?_⟩
    change out = got.map gotText ++ [] at houtput
    change out ++ [sinkDone] = got.map gotText ++ [sinkDone]
    rw [houtput, List.append_nil]

/-- What the producer does with its channel. -/
theorem Inv.producer_uses {m : Mailbox} {what : Use ℤ (Coroutine ProducerPc)} {after : Channel ℤ}
    (h : Inv itemCount capacity1 capacity2 (state producer squareStage sink stage1 stage2))
    (hprogram : ActorPipeline.producer itemCount producer = .use m what)
    (hrun : what.run ((state producer squareStage sink stage1 stage2).channel m) =
      some (producer', after)) :
    Inv itemCount capacity1 capacity2
      (((state producer squareStage sink stage1 stage2).setChannel m after).setProcess .producer
        producer') := by
  obtain ⟨rfl, -⟩ := ActorPipeline.producer_uses hprogram
  rw [state_setStage1, state_setProducer]
  obtain ⟨pc, out⟩ := producer
  cases pc with
  | looping next =>
      simp only [ActorPipeline.producer] at hprogram
      split at hprogram
      · next hnext =>
        cases hprogram
        rcases Use.run_send hrun with ⟨hclosed, -⟩ | ⟨-, rfl, hput⟩
        · cases h.producer.2.2.symm.trans hclosed
        · exact h.sends hnext hput
      · next hlast =>
        cases hprogram
        cases hrun
        exact h.producer_closes (not_le.mp hlast)
  | returned | threw => cases hprogram

theorem Inv.square_uses {m : Mailbox} {what : Use ℤ (Coroutine SquarePc)} {after : Channel ℤ}
    (h : Inv itemCount capacity1 capacity2 (state producer squareStage sink stage1 stage2))
    (hprogram : ActorPipeline.squareStage squareStage = .use m what)
    (hrun : what.run ((state producer squareStage sink stage1 stage2).channel m) =
      some (squareStage', after)) :
    Inv itemCount capacity1 capacity2
      (((state producer squareStage sink stage1 stage2).setChannel m after).setProcess .squareStage
        squareStage') := by
  obtain ⟨pc, out⟩ := squareStage
  cases pc with
  | receiving =>
      cases hprogram
      rw [state_setStage1, state_setSquareStage]
      rcases Use.run_receive hrun with ⟨value, htake, rfl⟩ | ⟨htake, hclosed, rfl, rfl⟩
      · exact h.takes htake
      · exact h.input_ends ⟨hclosed, Channel.take_eq_none.mp htake⟩
  | sending value square =>
      cases hprogram
      rw [state_setStage2, state_setSquareStage]
      rcases Use.run_send hrun with ⟨hclosed, -⟩ | ⟨-, rfl, hput⟩
      · cases h.squareStage.1.symm.trans hclosed
      · exact h.puts hput
  | closing =>
      cases hprogram
      cases hrun
      rw [state_setStage2, state_setSquareStage]
      exact h.square_closes
  | working _ | returned | threw | undefined _ => cases hprogram

theorem Inv.sink_uses {m : Mailbox} {what : Use ℤ (Coroutine SinkPc)} {after : Channel ℤ}
    (h : Inv itemCount capacity1 capacity2 (state producer squareStage sink stage1 stage2))
    (hprogram : ActorPipeline.sink sink = .use m what)
    (hrun : what.run ((state producer squareStage sink stage1 stage2).channel m) =
      some (sink', after)) :
    Inv itemCount capacity1 capacity2
      (((state producer squareStage sink stage1 stage2).setChannel m after).setProcess .sink
        sink') := by
  obtain ⟨pc, out⟩ := sink
  cases pc with
  | receiving =>
      cases hprogram
      rw [state_setStage2, state_setSink]
      rcases Use.run_receive hrun with ⟨value, htake, rfl⟩ | ⟨htake, hclosed, rfl, rfl⟩
      · exact h.gets htake
      · exact h.output_ends ⟨hclosed, Channel.take_eq_none.mp htake⟩
  | returned => cases hprogram

theorem producer_not_go : ActorPipeline.producer itemCount producer ≠ .go producer' := by
  obtain ⟨pc, out⟩ := producer
  cases pc with
  | looping value =>
      simp only [ActorPipeline.producer]
      split <;> simp
  | returned | threw => simp [ActorPipeline.producer]

theorem Inv.square_goes
    (h : Inv itemCount capacity1 capacity2 (state producer squareStage sink stage1 stage2))
    (hprogram : ActorPipeline.squareStage squareStage = .go squareStage') :
    Inv itemCount capacity1 capacity2
      ((state producer squareStage sink stage1 stage2).setProcess .squareStage squareStage') := by
  obtain ⟨pc, out⟩ := squareStage
  cases pc with
  | working value =>
      cases hprogram
      rw [state_setSquareStage]
      exact h.works
  | receiving | sending _ _ | closing | returned | threw | undefined _ => cases hprogram

theorem sink_not_go : ActorPipeline.sink sink ≠ .go sink' := by
  obtain ⟨pc, out⟩ := sink
  cases pc <;> simp [ActorPipeline.sink]

/-- Two actors that meet are next to each other. -/
theorem Inv.meets {p q : Actor} {m : Mailbox} {sent refused : p.Locals} {got : ℤ → q.Locals}
    {ended : q.Locals}
    (h : Inv itemCount capacity1 capacity2 (state producer squareStage sink stage1 stage2))
    (hsend : program itemCount p ((state producer squareStage sink stage1 stage2).process p) =
      .use m (.send value sent refused))
    (hreceive : program itemCount q ((state producer squareStage sink stage1 stage2).process q) =
      .use m (.receive got ended))
    (hempty : ((state producer squareStage sink stage1 stage2).channel m).buffer = []) :
    Inv itemCount capacity1 capacity2
      (((state producer squareStage sink stage1 stage2).setProcess p sent).setProcess q
        (got value)) := by
  have hp := (program_wired itemCount).writes hsend trivial
  have hq := (program_wired itemCount).reads hreceive id
  cases m with
  | stage1 =>
      obtain rfl : p = .producer := hp
      obtain rfl : q = .squareStage := hq
      rw [state_setProducer, state_setSquareStage]
      obtain ⟨pc, out⟩ := producer
      obtain ⟨pc', out'⟩ := squareStage
      cases pc' with
      | receiving =>
          cases hreceive
          cases pc with
          | looping next =>
              simp only [program, state, ActorPipeline.producer] at hsend
              split at hsend
              · next hnext =>
                cases hsend
                exact h.hands hnext hempty
              · cases hsend
          | returned | threw => cases hsend
      | working _ | sending _ _ | closing | returned | threw | undefined _ => cases hreceive
  | stage2 =>
      obtain rfl : p = .squareStage := hp
      obtain rfl : q = .sink := hq
      rw [state_setSquareStage, state_setSink]
      obtain ⟨pc, out⟩ := squareStage
      obtain ⟨pc', out'⟩ := sink
      cases pc' with
      | receiving =>
          cases hreceive
          cases pc with
          | sending item square =>
              cases hsend
              exact h.passes hempty
          | receiving | working _ | closing | returned | threw | undefined _ => cases hsend
      | returned => cases hreceive

theorem Inv.step (h : Inv itemCount capacity1 capacity2 s)
    (hmove : s.Moves (program itemCount) label s') : Inv itemCount capacity1 capacity2 s' := by
  rw [state_eta s] at h hmove
  cases hmove with
  | @uses a m what next after hprogram hrun =>
      cases a with
      | producer => exact h.producer_uses hprogram hrun
      | squareStage => exact h.square_uses hprogram hrun
      | sink => exact h.sink_uses hprogram hrun
  | @goes a next hprogram =>
      cases a with
      | producer => exact absurd hprogram producer_not_go
      | squareStage => exact h.square_goes hprogram
      | sink => exact absurd hprogram sink_not_go
  | @hands p q m value sent refused got ended hsend hreceive hcapacity hopen =>
      refine h.meets hsend hreceive ?_
      have hfits := ((state (s.process .producer) (s.process .squareStage) (s.process .sink)
        (s.channel .stage1) (s.channel .stage2)).channel m).fits
      rw [hcapacity] at hfits
      exact List.eq_nil_of_length_eq_zero (Nat.le_zero.mp hfits)

theorem inv_of_reachable (hs : (actorPipeline itemCount capacity1 capacity2).Reachable s) :
    Inv itemCount capacity1 capacity2 s := by
  obtain ⟨_, labels, rfl, hrun⟩ := hs
  exact hrun.preserves (fun _ _ _ h hstep => h.step (moves_of_step hstep))
    (inv_start itemCount capacity1 capacity2)

theorem squares_eq (n : ℕ) : squares n = (items n).map fun value => value * value := by
  rw [squares, items, List.map_map]
  rfl

theorem items_begin {m n : ℕ} (hle : m ≤ n) : items m <+: items n := by
  obtain ⟨k, rfl⟩ := Nat.exists_eq_add_of_le hle
  rw [items, items, ← List.range'_append_1, List.map_append]
  exact List.prefix_append _ _

theorem Inv.sent_le (h : Inv itemCount capacity1 capacity2 s) :
    (s.process .producer).pc.sent itemCount ≤ itemCount := by
  have hok := h.producer
  cases hpc : (s.process .producer).pc with
  | looping next =>
      rw [hpc] at hok
      have hbound := hok.2.1
      simp only [ProducerPc.sent]
      omega
  | returned | threw => exact le_rfl

theorem SquarePc.held_length (pc : SquarePc) : pc.held.length ≤ 1 := by
  cases pc <;> simp [SquarePc.held]

/-- What the sink has got, and how far the producer is ahead of it. -/
theorem Inv.got (h : Inv itemCount capacity1 capacity2 s) : ∃ got : List ℤ,
    got <+: squares itemCount ∧
    (s.process .sink).output = got.map gotText ++ (s.process .sink).pc.last ∧
    (s.process .producer).pc.sent itemCount ≤ got.length + capacity1 + capacity2 + 1 := by
  obtain ⟨squared, got, haccounts, houtput⟩ := h.books
  have hsquares := congrArg List.length haccounts.squares
  have hitems := congrArg List.length haccounts.items
  have hheld := (s.process .squareStage).pc.held_length
  have hfull1 := (s.channel .stage1).fits
  have hfull2 := (s.channel .stage2).fits
  rw [h.capacities.1] at hfull1
  rw [h.capacities.2] at hfull2
  rw [List.length_map, List.length_append] at hsquares
  rw [items, List.length_map, List.length_range', List.length_append, List.length_append] at hitems
  refine ⟨got, ?_, houtput, by omega⟩
  have hsquared : squared <+: items itemCount := by
    refine List.IsPrefix.trans ?_ (items_begin h.sent_le)
    rw [haccounts.items, List.append_assoc]
    exact List.prefix_append _ _
  rw [squares_eq]
  refine List.IsPrefix.trans ?_ (hsquared.map _)
  rw [haccounts.squares]
  exact List.prefix_append _ _

/-- The stage is at its end only when all squares were defined. -/
theorem Inv.fits_of_drained (h : Inv itemCount capacity1 capacity2 s)
    (hends : (s.channel .stage1).Exhausted) (hheld : (s.process .squareStage).pc.held = []) :
    FitsInt ((itemCount : ℤ) * itemCount) := by
  obtain ⟨squared, got, haccounts, -⟩ := h.books
  have hsent : (s.process .producer).pc.sent itemCount = itemCount := by
    have hok := h.producer
    cases hpc : (s.process .producer).pc with
    | looping next =>
        rw [hpc] at hok
        exact absurd hends (Channel.not_exhausted_of_open hok.2.2)
    | returned | threw => rfl
  have hitems := haccounts.items
  rw [hsent, hheld, hends.2, List.append_nil, List.append_nil] at hitems
  cases itemCount with
  | zero => decide
  | succ last =>
      refine haccounts.fits _ ?_
      rw [← hitems, items_succ]
      exact List.mem_append_right _ (List.mem_singleton_self _)

theorem Inv.fits_of_returned (h : Inv itemCount capacity1 capacity2 s)
    (hpc : (s.process .squareStage).pc = .returned) : FitsInt ((itemCount : ℤ) * itemCount) := by
  have hok := h.squareStage
  rw [hpc] at hok
  exact h.fits_of_drained hok.2 (by rw [hpc]; rfl)

theorem Inv.fits_of_sink (h : Inv itemCount capacity1 capacity2 s)
    (hpc : (s.process .sink).pc = .returned) : FitsInt ((itemCount : ℤ) * itemCount) := by
  have hends := h.sink
  rw [hpc] at hends
  have hok := h.squareStage
  cases hsquare : (s.process .squareStage).pc with
  | returned => exact h.fits_of_returned hsquare
  | receiving | working _ | undefined _ =>
      rw [hsquare] at hok
      exact absurd hends (Channel.not_exhausted_of_open hok)
  | sending _ _ | closing =>
      rw [hsquare] at hok
      exact absurd hends (Channel.not_exhausted_of_open hok.1)
  | threw =>
      rw [hsquare] at hok
      exact hok.elim

end Steps

/-- The sink gets the squares in order, and the producer is ahead of it by no more than the
channels and the stage can hold. When the squares are defined every schedule leads to the
end, where all have returned; when one is not, neither the stage nor the sink returns. -/
theorem pipeline_drains_iff (itemCount capacity1 capacity2 : ℕ) :
    (∀ s, (actorPipeline itemCount capacity1 capacity2).Reachable s → ∃ got : List ℤ,
      got <+: squares itemCount ∧
      (s.process .sink).output = got.map gotText ++ (s.process .sink).pc.last ∧
      (s.process .producer).pc.sent itemCount ≤ got.length + capacity1 + capacity2 + 1) ∧
    (FitsInt ((itemCount : ℤ) * itemCount) →
      (actorPipeline itemCount capacity1 capacity2).LeadsTo (start capacity1 capacity2)
        (drained itemCount capacity1 capacity2)) ∧
    (¬ FitsInt ((itemCount : ℤ) * itemCount) →
      ∀ s, (actorPipeline itemCount capacity1 capacity2).Reachable s →
        (s.process .squareStage).pc ≠ .returned ∧ (s.process .sink).pc ≠ .returned) := by
  refine ⟨fun s hs => (inv_of_reachable hs).got, leadsTo_drained capacity1 capacity2, ?_⟩
  intro hoverflows s hs
  have h := inv_of_reachable hs
  refine ⟨?_, ?_⟩
  · intro hpc
    exact hoverflows (h.fits_of_returned hpc)
  · intro hpc
    exact hoverflows (h.fits_of_sink hpc)

end CppWorkspace.Asio.ActorPipeline
