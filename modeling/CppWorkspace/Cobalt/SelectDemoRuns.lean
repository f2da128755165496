import CppWorkspace.Cobalt.SelectDemo

/-!
Nothing is lost in the race, and when the demo ends. A schedule in which the loop takes
messages of one channel as late as it can is the worst for the other feeder: what the
loop leaves has to fit into the channel.
-/

namespace CppWorkspace.Cobalt.SelectDemo

open Lib System

/-- How many messages a feeder has written. -/
def FeederPc.written (count : ℕ) : FeederPc → ℕ
  | .sleeping i | .writing i => i - 1
  | .returned => count

/-- The loop variable of a feeder is in its range. -/
def FeederPc.Ok (count : ℕ) : FeederPc → Prop
  | .sleeping i => 1 ≤ i ∧ i ≤ count + 1
  | .writing i => 1 ≤ i ∧ i ≤ count
  | .returned => True

def State.written (P : Params) (s : State) (side : Side) : ℕ :=
  (s.feeder side).written (P.count side)

/-- The loop has made as many rounds as it has printed lines. -/
def LoopOk (P : Params) (s : State) : LoopPc → Prop
  | .selecting i => i < P.rounds ∧ s.printed.length = i
  | .joining => s.printed.length = P.rounds
  | .returned => s.printed.length = P.rounds ∧ ∀ side, s.feeder side = .returned

/-- What was written is printed or in the channel. -/
structure Inv (P : Params) (s : State) : Prop where
  stream : ∀ side, s.printedOf side ++ (s.channel side).buffer = messages side (s.written P side)
  capacity_eq : ∀ side, (s.channel side).capacity = P.capacity side
  closed_iff : ∀ side, (s.channel side).closed = true ↔ s.loop = .returned
  feeder : ∀ side, (s.feeder side).Ok (P.count side)
  loop : LoopOk P s s.loop

variable {P : Params} {s s' : State} {event : Event} {side : Side}

section Lines

theorem messages_succ (side : Side) (n : ℕ) :
    messages side (n + 1) = messages side n ++ [side.message (n + 1)] := by
  rw [messages, List.range'_1_concat, List.map_append, List.map_singleton, add_comm 1 n, messages]

@[simp] theorem length_messages (side : Side) (n : ℕ) : (messages side n).length = n := by
  simp [messages]

theorem printedOf_print_self (P : Params) (s : State) (i : ℕ) (side : Side) (text : Text) :
    (s.print P i side text).printedOf side = s.printedOf side ++ [text] := by
  simp [State.print, State.printedOf]

theorem printedOf_print_of_ne {other : Side} (hne : other ≠ side) (P : Params) (s : State) (i : ℕ)
    (text : Text) : (s.print P i side text).printedOf other = s.printedOf other := by
  simp [State.print, State.printedOf, hne.symm]

/-- Every line comes from one of the channels. -/
theorem printed_length (s : State) :
    s.printed.length = (s.printedOf .fast).length + (s.printedOf .slow).length := by
  unfold State.printedOf
  induction s.printed with
  | nil => rfl
  | cons line rest ih =>
      obtain ⟨side, text⟩ := line
      cases side <;> simp [ih] <;> omega

end Lines

section Steps

theorem loopOk_enter {i : ℕ} (hi : i ≤ P.rounds) (hlength : s.printed.length = i) :
    LoopOk P s (State.enter P i) := by
  unfold State.enter
  split
  · next hlt => exact ⟨hlt, hlength⟩
  · next hge =>
    change s.printed.length = P.rounds
    omega

theorem enter_ne_returned (P : Params) (i : ℕ) : State.enter P i ≠ .returned := by
  unfold State.enter
  split <;> simp

theorem Inv.loop_open (h : Inv P s) (hside : s.feeder side ≠ .returned) : s.loop ≠ .returned := by
  intro hloop
  have hok := h.loop
  rw [hloop] at hok
  exact hside (hok.2 side)

theorem Inv.setFeeder (h : Inv P s) {pc : FeederPc} (hside : s.feeder side ≠ .returned)
    (hok : pc.Ok (P.count side)) (hsame : pc.written (P.count side) = s.written P side) :
    Inv P (s.setFeeder side pc) := by
  have hopen := h.loop_open hside
  have hwritten : ∀ other, (s.setFeeder side pc).written P other = s.written P other := by
    intro other
    rcases eq_or_ne other side with rfl | hne
    · simp only [State.written, State.setFeeder, Function.update_self]
      exact hsame
    · simp only [State.written, State.setFeeder, Function.update_of_ne hne]
  exact
    { stream := by
        intro other
        rw [hwritten]
        exact h.stream other
      capacity_eq := h.capacity_eq
      closed_iff := h.closed_iff
      feeder := by
        intro other
        rcases eq_or_ne other side with rfl | hne
        · simp only [State.setFeeder, Function.update_self]
          exact hok
        · simp only [State.setFeeder, Function.update_of_ne hne]
          exact h.feeder other
      loop := by
        have hloop := h.loop
        change LoopOk P (s.setFeeder side pc) s.loop
        cases hpc : s.loop with
        | selecting i => rwa [hpc] at hloop
        | joining => rwa [hpc] at hloop
        | returned => exact absurd hpc hopen }

/-- The message that a feeder writes is the next one. -/
theorem Inv.next_message (h : Inv P s) {i : ℕ} (hside : s.feeder side = .writing i) :
    messages side i = messages side (s.written P side) ++ [side.message i] := by
  have hok := h.feeder side
  rw [hside] at hok
  have hwritten : s.written P side = i - 1 := by rw [State.written, hside, FeederPc.written]
  obtain ⟨n, rfl⟩ : ∃ n, i = n + 1 := ⟨i - 1, (Nat.sub_add_cancel hok.1).symm⟩
  rw [hwritten, messages_succ, Nat.add_sub_cancel]

theorem Inv.writes (h : Inv P s) {i : ℕ} {c : Channel Text} (hside : s.feeder side = .writing i)
    (hput : (s.channel side).put (side.message i) = some c) :
    Inv P ((s.setChannel side c).setFeeder side (.sleeping (i + 1))) := by
  obtain ⟨hopen, -, hbuffer, hstill, hcapacity⟩ := Channel.put_spec hput
  have hnot : s.loop ≠ .returned := h.loop_open (by rw [hside]; simp)
  have hok := h.feeder side
  rw [hside] at hok
  have hnext := h.next_message hside
  exact
    { stream := by
        intro other
        have hstream := h.stream other
        rcases eq_or_ne other side with rfl | hne
        · simp only [State.setChannel, State.setFeeder, State.written, Function.update_self,
            FeederPc.written, Nat.add_sub_cancel]
          rw [hnext, hbuffer, ← hstream, List.append_assoc]
          rfl
        · simp only [State.setChannel, State.setFeeder, State.written, Function.update_of_ne hne]
          exact hstream
      capacity_eq := by
        intro other
        rcases eq_or_ne other side with rfl | hne
        · simp only [State.setChannel, State.setFeeder, Function.update_self]
          exact hcapacity.trans (h.capacity_eq other)
        · simp only [State.setChannel, State.setFeeder, Function.update_of_ne hne]
          exact h.capacity_eq other
      closed_iff := by
        intro other
        rcases eq_or_ne other side with rfl | hne
        · simp only [State.setChannel, State.setFeeder, Function.update_self]
          simp [hstill, hnot]
        · simp only [State.setChannel, State.setFeeder, Function.update_of_ne hne]
          exact h.closed_iff other
      feeder := by
        intro other
        rcases eq_or_ne other side with rfl | hne
        · simp only [State.setFeeder, Function.update_self]
          exact ⟨Nat.le_add_left 1 i, Nat.succ_le_succ hok.2⟩
        · simp only [State.setChannel, State.setFeeder, Function.update_of_ne hne]
          exact h.feeder other
      loop := by
        have hloop := h.loop
        change LoopOk P _ s.loop
        cases hpc : s.loop with
        | selecting i => rwa [hpc] at hloop
        | joining => rwa [hpc] at hloop
        | returned => exact absurd hpc hnot }

theorem loopOk_print {i : ℕ} (hi : i < P.rounds) (hlength : s.printed.length = i) (side : Side)
    (text : Text) : LoopOk P (s.print P i side text) (State.enter P (i + 1)) := by
  refine loopOk_enter hi ?_
  rw [State.print, List.length_append, List.length_singleton, hlength]

theorem Inv.hands (h : Inv P s) {i round : ℕ} (hside : s.feeder side = .writing i)
    (hpc : s.loop = .selecting round) (hmeets : (s.channel side).Meets) :
    Inv P ((s.setFeeder side (.sleeping (i + 1))).print P round side (side.message i)) := by
  have hok := h.feeder side
  rw [hside] at hok
  have hloop := h.loop
  rw [hpc] at hloop
  have hnext := h.next_message hside
  exact
    { stream := by
        intro other
        have hstream := h.stream other
        rcases eq_or_ne other side with rfl | hne
        · rw [printedOf_print_self]
          simp only [State.print, State.setFeeder, State.written, Function.update_self,
            FeederPc.written, Nat.add_sub_cancel]
          rw [hnext, ← hstream, hmeets.2, List.append_nil, List.append_nil]
          rfl
        · rw [printedOf_print_of_ne hne]
          simp only [State.print, State.setFeeder, State.written, Function.update_of_ne hne]
          exact hstream
      capacity_eq := h.capacity_eq
      closed_iff := by
        intro other
        have hclosed := h.closed_iff other
        rw [hpc] at hclosed
        exact hclosed.trans (iff_of_false (by simp) (enter_ne_returned P _))
      feeder := by
        intro other
        rcases eq_or_ne other side with rfl | hne
        · simp only [State.print, State.setFeeder, Function.update_self]
          exact ⟨Nat.le_add_left 1 i, Nat.succ_le_succ hok.2⟩
        · simp only [State.print, State.setFeeder, Function.update_of_ne hne]
          exact h.feeder other
      loop := by
        have hsame : (s.setFeeder side (.sleeping (i + 1))).printed.length = round := hloop.2
        exact loopOk_print hloop.1 hsame side _ }

theorem Inv.selects (h : Inv P s) {round : ℕ} {text : Text} {c : Channel Text}
    (hpc : s.loop = .selecting round) (htake : (s.channel side).take = some (text, c)) :
    Inv P ((s.setChannel side c).print P round side text) := by
  obtain ⟨hbuffer, hclosed, hcapacity⟩ := Channel.take_spec htake
  have hloop := h.loop
  rw [hpc] at hloop
  exact
    { stream := by
        intro other
        have hstream := h.stream other
        rcases eq_or_ne other side with rfl | hne
        · rw [printedOf_print_self]
          simp only [State.print, State.setChannel, State.written, Function.update_self]
          rw [hbuffer] at hstream
          rw [List.append_assoc]
          exact hstream
        · rw [printedOf_print_of_ne hne]
          simp only [State.print, State.setChannel, State.written, Function.update_of_ne hne]
          exact hstream
      capacity_eq := by
        intro other
        rcases eq_or_ne other side with rfl | hne
        · simp only [State.print, State.setChannel, Function.update_self]
          exact hcapacity.trans (h.capacity_eq other)
        · simp only [State.print, State.setChannel, Function.update_of_ne hne]
          exact h.capacity_eq other
      closed_iff := by
        intro other
        have hopen := h.closed_iff other
        rw [hpc] at hopen
        refine iff_of_false ?_ (enter_ne_returned P (round + 1))
        rcases eq_or_ne other side with rfl | hne
        · simp only [State.print, State.setChannel, Function.update_self]
          rw [hclosed, hopen]
          simp
        · simp only [State.print, State.setChannel, Function.update_of_ne hne]
          rw [hopen]
          simp
      feeder := h.feeder
      loop := loopOk_print hloop.1 hloop.2 side _ }

theorem Inv.joins (h : Inv P s) (hpc : s.loop = .joining) (hfast : s.feeder .fast = .returned)
    (hslow : s.feeder .slow = .returned) :
    Inv P { s with loop := .returned, channel := fun side => (s.channel side).close } where
  stream := h.stream
  capacity_eq := h.capacity_eq
  closed_iff := by simp
  feeder := h.feeder
  loop := by
    have hloop := h.loop
    rw [hpc] at hloop
    refine ⟨hloop, ?_⟩
    intro side
    cases side with
    | fast => exact hfast
    | slow => exact hslow

theorem Inv.step (h : Inv P s) (hstep : s.step P event = some s') : Inv P s' := by
  cases event with
  | wakes side =>
      cases hside : s.feeder side with
      | sleeping i =>
          simp only [State.step, hside] at hstep
          obtain ⟨hle, heq⟩ := Option.ite_none_right_eq_some.mp hstep
          cases heq
          have hok := h.feeder side
          rw [hside] at hok
          refine h.setFeeder (by simp [hside]) ⟨hok.1, (LoopBound.le_val_iff hok.1).mp hle⟩ ?_
          rw [State.written, hside]
          rfl
      | writing i => simp [State.step, hside] at hstep
      | returned => simp [State.step, hside] at hstep
  | feederReturns side =>
      cases hside : s.feeder side with
      | sleeping i =>
          simp only [State.step, hside] at hstep
          obtain ⟨hlt, heq⟩ := Option.ite_none_right_eq_some.mp hstep
          cases heq
          have hok := h.feeder side
          rw [hside] at hok
          refine h.setFeeder (by simp [hside]) trivial ?_
          have hlast := hok.2
          have hover : ¬ i ≤ P.count side :=
            mt (LoopBound.le_val_iff hok.1).mpr (not_le.mpr hlt)
          rw [State.written, hside]
          simp only [FeederPc.written]
          omega
      | writing i => simp [State.step, hside] at hstep
      | returned => simp [State.step, hside] at hstep
  | writes side =>
      cases hside : s.feeder side with
      | writing i =>
          simp only [State.step, hside] at hstep
          obtain ⟨c, hput, rfl⟩ := Option.map_eq_some_iff.mp hstep
          exact h.writes hside hput
      | sleeping i => simp [State.step, hside] at hstep
      | returned => simp [State.step, hside] at hstep
  | hands side =>
      cases hside : s.feeder side with
      | writing i =>
          cases hpc : s.loop with
          | selecting round =>
              simp only [State.step, hside, hpc] at hstep
              obtain ⟨hmeets, heq⟩ := Option.ite_none_right_eq_some.mp hstep
              cases heq
              exact h.hands hside hpc hmeets
          | joining => simp [State.step, hside, hpc] at hstep
          | returned => simp [State.step, hside, hpc] at hstep
      | sleeping i => simp [State.step, hside] at hstep
      | returned => simp [State.step, hside] at hstep
  | selects side =>
      cases hpc : s.loop with
      | selecting round =>
          simp only [State.step, hpc] at hstep
          obtain ⟨⟨text, c⟩, htake, rfl⟩ := Option.map_eq_some_iff.mp hstep
          exact h.selects hpc htake
      | joining => simp [State.step, hpc] at hstep
      | returned => simp [State.step, hpc] at hstep
  | joins =>
      obtain ⟨⟨hpc, hfast, hslow⟩, heq⟩ := Option.ite_none_right_eq_some.mp hstep
      cases heq
      exact h.joins hpc hfast hslow

theorem inv_initial (P : Params) : Inv P (initial P) where
  stream side := rfl
  capacity_eq side := rfl
  closed_iff side := iff_of_false (by simp [initial]) (enter_ne_returned P 0)
  feeder side := ⟨le_rfl, Nat.le_add_left 1 _⟩
  loop := loopOk_enter (Nat.zero_le _) rfl

theorem select_invariant (P : Params) : (selectDemo P).Invariant (Inv P) where
  init := by
    rintro s rfl
    exact inv_initial P
  step _ _ _ h hstep := h.step hstep

end Steps

section Ends

def FeederPc.work (count : ℕ) : FeederPc → ℕ
  | .sleeping i => 2 * (count + 1 - i) + 1
  | .writing i => 2 * (count + 1 - i)
  | .returned => 0

def LoopPc.work (P : Params) : LoopPc → ℕ
  | .selecting i => P.rounds - i + 1
  | .joining => 1
  | .returned => 0

/-- The steps that are left. -/
def State.work (P : Params) (s : State) : ℕ :=
  (s.feeder .fast).work (P.count .fast) + (s.feeder .slow).work (P.count .slow) + s.loop.work P

theorem setFeeder_work (s : State) (side : Side) (pc : FeederPc) :
    (s.setFeeder side pc).work P + (s.feeder side).work (P.count side) =
      s.work P + pc.work (P.count side) := by
  cases side <;> simp [State.work, State.setFeeder] <;> omega

theorem enter_work {i : ℕ} (hi : i < P.rounds) :
    (State.enter P (i + 1)).work P < (LoopPc.selecting i).work P := by
  unfold State.enter
  split
  · simp only [LoopPc.work]
    omega
  · simp only [LoopPc.work]
    omega

theorem Inv.work_lt (h : Inv P s) (hstep : s.step P event = some s') : s'.work P < s.work P := by
  cases event with
  | wakes side =>
      cases hside : s.feeder side with
      | sleeping i =>
          simp only [State.step, hside] at hstep
          obtain ⟨hle, heq⟩ := Option.ite_none_right_eq_some.mp hstep
          cases heq
          have hwork := setFeeder_work (P := P) s side (.writing i)
          rw [hside] at hwork
          simp only [FeederPc.work] at hwork
          omega
      | writing i => simp [State.step, hside] at hstep
      | returned => simp [State.step, hside] at hstep
  | feederReturns side =>
      cases hside : s.feeder side with
      | sleeping i =>
          simp only [State.step, hside] at hstep
          obtain ⟨hlt, heq⟩ := Option.ite_none_right_eq_some.mp hstep
          cases heq
          have hwork := setFeeder_work (P := P) s side .returned
          rw [hside] at hwork
          simp only [FeederPc.work] at hwork
          omega
      | writing i => simp [State.step, hside] at hstep
      | returned => simp [State.step, hside] at hstep
  | writes side =>
      cases hside : s.feeder side with
      | writing i =>
          simp only [State.step, hside] at hstep
          obtain ⟨c, -, rfl⟩ := Option.map_eq_some_iff.mp hstep
          have hok := h.feeder side
          rw [hside] at hok
          have hle := hok.2
          have hwork := setFeeder_work (P := P) (s.setChannel side c) side (.sleeping (i + 1))
          have hbefore : (s.setChannel side c).feeder side = .writing i := hside
          have hsame : (s.setChannel side c).work P = s.work P := rfl
          rw [hbefore, hsame] at hwork
          simp only [FeederPc.work] at hwork
          omega
      | sleeping i => simp [State.step, hside] at hstep
      | returned => simp [State.step, hside] at hstep
  | hands side =>
      cases hside : s.feeder side with
      | writing i =>
          cases hpc : s.loop with
          | selecting round =>
              simp only [State.step, hside, hpc] at hstep
              obtain ⟨-, heq⟩ := Option.ite_none_right_eq_some.mp hstep
              cases heq
              have hok := h.feeder side
              have hloop := h.loop
              rw [hside] at hok
              rw [hpc] at hloop
              have hle := hok.2
              have henter := enter_work hloop.1
              have hwork := setFeeder_work (P := P) s side (.sleeping (i + 1))
              rw [hside] at hwork
              simp only [FeederPc.work] at hwork
              simp only [State.work, State.print, State.setFeeder, hpc] at hwork ⊢
              omega
          | joining => simp [State.step, hside, hpc] at hstep
          | returned => simp [State.step, hside, hpc] at hstep
      | sleeping i => simp [State.step, hside] at hstep
      | returned => simp [State.step, hside] at hstep
  | selects side =>
      cases hpc : s.loop with
      | selecting round =>
          simp only [State.step, hpc] at hstep
          obtain ⟨⟨text, c⟩, -, rfl⟩ := Option.map_eq_some_iff.mp hstep
          have hloop := h.loop
          rw [hpc] at hloop
          have henter := enter_work hloop.1
          simp only [State.work, State.print, State.setChannel, hpc]
          omega
      | joining => simp [State.step, hpc] at hstep
      | returned => simp [State.step, hpc] at hstep
  | joins =>
      obtain ⟨⟨hpc, -, -⟩, heq⟩ := Option.ite_none_right_eq_some.mp hstep
      cases heq
      simp [State.work, hpc, LoopPc.work]

theorem run_bounded {events : List Event} (hrun : (selectDemo P).Run (initial P) events s) :
    events.length ≤ 2 * (P.count .fast + P.count .slow) + P.rounds + 3 := by
  have hstart : (initial P).work P ≤ 2 * (P.count .fast + P.count .slow) + P.rounds + 3 := by
    have hloop : (State.enter P 0).work P ≤ P.rounds + 1 := by
      unfold State.enter
      split <;> simp [LoopPc.work]
    simp only [State.work, initial, FeederPc.work]
    omega
  have hless : ∀ s event s', Inv P s → (selectDemo P).step s event s' →
      Inv P s' ∧ s'.work P < s.work P := by
    intro s event s' h hstep
    exact ⟨h.step hstep, h.work_lt hstep⟩
  have hlength := hrun.length_le hless (inv_initial P)
  omega

/-- How many messages there are in front of the loop. -/
theorem Inv.lengths (h : Inv P s) (side : Side) :
    (s.printedOf side).length + (s.channel side).buffer.length = s.written P side := by
  rw [← List.length_append, h.stream, length_messages]

theorem Inv.written_le (h : Inv P s) (side : Side) : s.written P side ≤ P.count side := by
  have hok := h.feeder side
  unfold State.written
  cases hside : s.feeder side with
  | sleeping i =>
      rw [hside] at hok
      have hle := hok.2
      simp only [FeederPc.written]
      omega
  | writing i =>
      rw [hside] at hok
      have hle := hok.2
      simp only [FeederPc.written]
      omega
  | returned => exact le_rfl

theorem written_of_returned (hside : s.feeder side = .returned) :
    s.written P side = P.count side := by
  rw [State.written, hside, FeederPc.written]

/-- A feeder that can do nothing has returned or waits for room. -/
theorem Inv.feeder_of_stuck (h : Inv P s) (hstuck : (selectDemo P).Stuck s) (side : Side) :
    s.feeder side = .returned ∨
      (s.loop = .joining ∧ P.capacity side + (s.printedOf side).length < P.count side) := by
  cases hside : s.feeder side with
  | sleeping i =>
      rcases lt_or_ge (P.bound side).val (i : ℤ) with hlt | hle
      · refine absurd ?_ (hstuck (.feederReturns side) (s.setFeeder side .returned))
        simp [selectDemo, State.step, hside, hlt]
      · refine absurd ?_ (hstuck (.wakes side) (s.setFeeder side (.writing i)))
        simp [selectDemo, State.step, hside, hle]
  | writing i =>
      have hnot : s.loop ≠ .returned := h.loop_open (by rw [hside]; simp)
      have hopen : (s.channel side).closed = false := by
        rw [← Bool.not_eq_true, h.closed_iff]
        exact hnot
      have hfull : P.capacity side ≤ (s.channel side).buffer.length := by
        by_contra hroom
        rw [not_le, ← h.capacity_eq side] at hroom
        obtain ⟨c, hput⟩ := Channel.put_of_room hopen hroom (side.message i)
        refine hstuck (.writes side) ((s.setChannel side c).setFeeder side (.sleeping (i + 1))) ?_
        simp [selectDemo, State.step, hside, hput]
      have hok := h.feeder side
      have hlengths := h.lengths side
      rw [hside] at hok
      rw [State.written, hside, FeederPc.written] at hlengths
      obtain ⟨hfirst, hlast⟩ := hok
      refine .inr ⟨?_, by omega⟩
      cases hpc : s.loop with
      | joining => rfl
      | returned => exact absurd hpc hnot
      | selecting round =>
          by_cases hempty : (s.channel side).buffer = []
          · refine absurd ?_ (hstuck (.hands side)
              ((s.setFeeder side (.sleeping (i + 1))).print P round side (side.message i)))
            have hmeets : (s.channel side).Meets := ⟨hopen, hempty⟩
            simp [selectDemo, State.step, hside, hpc, hmeets]
          · obtain ⟨text, c, htake⟩ := Channel.take_of_ne_nil hempty
            refine absurd ?_ (hstuck (.selects side)
              ((s.setChannel side c).print P round side text))
            simp [selectDemo, State.step, hpc, htake]
  | returned => exact .inl rfl

/-- The loop waits for ever only where all messages are printed. -/
theorem Inv.all_printed_of_selecting (h : Inv P s) (hstuck : (selectDemo P).Stuck s) {round : ℕ}
    (hpc : s.loop = .selecting round) (side : Side) :
    (s.printedOf side).length = P.count side := by
  rcases h.feeder_of_stuck hstuck side with hreturned | ⟨hjoining, -⟩
  · have hlengths := h.lengths side
    rw [written_of_returned hreturned] at hlengths
    by_cases hempty : (s.channel side).buffer = []
    · rwa [hempty, List.length_nil, Nat.add_zero] at hlengths
    · obtain ⟨text, c, htake⟩ := Channel.take_of_ne_nil hempty
      refine absurd ?_ (hstuck (.selects side) ((s.setChannel side c).print P round side text))
      simp [selectDemo, State.step, hpc, htake]
  · cases hpc.symm.trans hjoining

/-- In every schedule what the loop leaves fits into the channels. -/
def Params.Balanced (P : Params) : Prop :=
  P.rounds ≤ P.count .fast + P.count .slow ∧
    ∀ side, P.count side - (P.rounds - P.count side.other) ≤ P.capacity side

theorem Inv.printed_other (h : Inv P s) (side : Side) :
    (s.printedOf side.other).length ≤ P.count side.other := by
  have hlengths := h.lengths side.other
  have hle := h.written_le side.other
  omega

theorem printed_both (s : State) (side : Side) :
    s.printed.length = (s.printedOf side).length + (s.printedOf side.other).length := by
  rw [printed_length]
  cases side with
  | fast => rfl
  | slow => exact Nat.add_comm _ _

theorem Inv.returned_of_stuck (h : Inv P s) (hbalanced : P.Balanced)
    (hstuck : (selectDemo P).Stuck s) : s.loop = .returned := by
  have hloop := h.loop
  cases hpc : s.loop with
  | returned => rfl
  | selecting round =>
      rw [hpc] at hloop
      have hfast := h.all_printed_of_selecting hstuck hpc .fast
      have hslow := h.all_printed_of_selecting hstuck hpc .slow
      have hall := printed_length s
      obtain ⟨hlt, hlength⟩ := hloop
      have hle := hbalanced.1
      omega
  | joining =>
      rw [hpc] at hloop
      have hlength : s.printed.length = P.rounds := hloop
      have hreturned : ∀ side, s.feeder side = .returned := by
        intro side
        rcases h.feeder_of_stuck hstuck side with hside | ⟨-, hleft⟩
        · exact hside
        · have hother := h.printed_other side
          have hboth := printed_both s side
          have hfits := hbalanced.2 side
          omega
      refine absurd ?_ (hstuck .joins
        { s with loop := .returned, channel := fun side => (s.channel side).close })
      simp [selectDemo, State.step, hpc, hreturned]

/-- A schedule in which the loop takes messages of this channel only when there are no
others. -/
def Late (side : Side) (s : State) (event : Event) : Prop :=
  event = .selects side ∨ event = .hands side →
    s.feeder side.other = .returned ∧ (s.channel side.other).buffer = []

def late (P : Params) (side : Side) : System State Event := (selectDemo P).restrict (Late side)

theorem other_ne (side : Side) : side.other ≠ side := by
  cases side <;> simp [Side.other]

/-- The other channel is done with when the first message of this one is printed. -/
def OtherFirst (side : Side) (s : State) : Prop :=
  s.printedOf side ≠ [] →
    s.feeder side.other = .returned ∧ (s.channel side.other).buffer = []

theorem eq_or_eq_other (side which : Side) : which = side ∨ which = side.other := by
  cases side <;> cases which <;> simp [Side.other]

theorem OtherFirst.step (h : OtherFirst side s) (hlate : Late side s event)
    (hstep : s.step P event = some s') : OtherFirst side s' := by
  have hne := other_ne side
  cases event with
  | wakes which =>
      cases hwhich : s.feeder which with
      | sleeping i =>
          simp only [State.step, hwhich] at hstep
          obtain ⟨-, heq⟩ := Option.ite_none_right_eq_some.mp hstep
          cases heq
          intro hsome
          obtain ⟨hreturned, hempty⟩ := h hsome
          rcases eq_or_eq_other side which with rfl | rfl
          · exact ⟨by simpa [State.setFeeder, Function.update_of_ne hne] using hreturned, hempty⟩
          · cases hreturned.symm.trans hwhich
      | writing i => simp [State.step, hwhich] at hstep
      | returned => simp [State.step, hwhich] at hstep
  | feederReturns which =>
      cases hwhich : s.feeder which with
      | sleeping i =>
          simp only [State.step, hwhich] at hstep
          obtain ⟨-, heq⟩ := Option.ite_none_right_eq_some.mp hstep
          cases heq
          intro hsome
          obtain ⟨hreturned, hempty⟩ := h hsome
          rcases eq_or_eq_other side which with rfl | rfl
          · exact ⟨by simpa [State.setFeeder, Function.update_of_ne hne] using hreturned, hempty⟩
          · cases hreturned.symm.trans hwhich
      | writing i => simp [State.step, hwhich] at hstep
      | returned => simp [State.step, hwhich] at hstep
  | writes which =>
      cases hwhich : s.feeder which with
      | writing i =>
          simp only [State.step, hwhich] at hstep
          obtain ⟨c, -, rfl⟩ := Option.map_eq_some_iff.mp hstep
          intro hsome
          obtain ⟨hreturned, hempty⟩ := h hsome
          rcases eq_or_eq_other side which with rfl | rfl
          · exact ⟨by simpa [State.setFeeder, State.setChannel, Function.update_of_ne hne] using
              hreturned, by simpa [State.setFeeder, State.setChannel, Function.update_of_ne hne]
              using hempty⟩
          · cases hreturned.symm.trans hwhich
      | sleeping i => simp [State.step, hwhich] at hstep
      | returned => simp [State.step, hwhich] at hstep
  | hands which =>
      cases hwhich : s.feeder which with
      | writing i =>
          cases hpc : s.loop with
          | selecting round =>
              simp only [State.step, hwhich, hpc] at hstep
              obtain ⟨-, heq⟩ := Option.ite_none_right_eq_some.mp hstep
              cases heq
              rcases eq_or_eq_other side which with rfl | rfl
              · obtain ⟨hreturned, hempty⟩ := hlate (.inr rfl)
                intro _
                exact ⟨by simpa [State.print, State.setFeeder, Function.update_of_ne hne] using
                  hreturned, hempty⟩
              · intro hsome
                rw [printedOf_print_of_ne hne.symm] at hsome
                cases (h hsome).1.symm.trans hwhich
          | joining => simp [State.step, hwhich, hpc] at hstep
          | returned => simp [State.step, hwhich, hpc] at hstep
      | sleeping i => simp [State.step, hwhich] at hstep
      | returned => simp [State.step, hwhich] at hstep
  | selects which =>
      cases hpc : s.loop with
      | selecting round =>
          simp only [State.step, hpc] at hstep
          obtain ⟨⟨text, c⟩, htake, rfl⟩ := Option.map_eq_some_iff.mp hstep
          rcases eq_or_eq_other side which with rfl | rfl
          · obtain ⟨hreturned, hempty⟩ := hlate (.inl rfl)
            intro _
            exact ⟨hreturned, by simpa [State.print, State.setChannel, Function.update_of_ne hne]
              using hempty⟩
          · intro hsome
            rw [printedOf_print_of_ne hne.symm] at hsome
            cases (h hsome).2.symm.trans (Channel.take_spec htake).1
      | joining => simp [State.step, hpc] at hstep
      | returned => simp [State.step, hpc] at hstep
  | joins =>
      obtain ⟨-, heq⟩ := Option.ite_none_right_eq_some.mp hstep
      cases heq
      exact h

theorem late_other (which : Side) (hne : which ≠ side) :
    Late side s (.selects which) ∧ Late side s (.hands which) := by
  constructor
  · rintro (heq | heq) <;> cases heq
    exact absurd rfl hne
  · rintro (heq | heq) <;> cases heq
    exact absurd rfl hne

/-- While the loop selects, the other channel can be served until it is done with. -/
theorem Inv.other_done (h : Inv P s) (hstuck : (late P side).Stuck s) {round : ℕ}
    (hpc : s.loop = .selecting round) :
    s.feeder side.other = .returned ∧ (s.channel side.other).buffer = [] := by
  have hlate := late_other (s := s) side.other (other_ne side)
  have hempty : (s.channel side.other).buffer = [] := by
    by_contra hsome
    obtain ⟨text, c, htake⟩ := Channel.take_of_ne_nil hsome
    refine hstuck (.selects side.other)
      ((s.setChannel side.other c).print P round side.other text) ⟨hlate.1, ?_⟩
    simp [selectDemo, State.step, hpc, htake]
  refine ⟨?_, hempty⟩
  cases hother : s.feeder side.other with
  | returned => rfl
  | sleeping i =>
      rcases lt_or_ge (P.bound side.other).val (i : ℤ) with hlt | hle
      · refine absurd ⟨by simp [Late], ?_⟩
          (hstuck (.feederReturns side.other) (s.setFeeder side.other .returned))
        simp [selectDemo, State.step, hother, hlt]
      · refine absurd ⟨by simp [Late], ?_⟩
          (hstuck (.wakes side.other) (s.setFeeder side.other (.writing i)))
        simp [selectDemo, State.step, hother, hle]
  | writing i =>
      have hopen : (s.channel side.other).closed = false := by
        rw [← Bool.not_eq_true, h.closed_iff, hpc]
        simp
      have hmeets : (s.channel side.other).Meets := ⟨hopen, hempty⟩
      refine absurd ⟨hlate.2, ?_⟩ (hstuck (.hands side.other)
        ((s.setFeeder side.other (.sleeping (i + 1))).print P round side.other
          (side.other.message i)))
      simp [selectDemo, State.step, hother, hpc, hmeets]

theorem selecting_of_step (h : event = .selects side ∨ event = .hands side)
    (hstep : s.step P event = some s') : ∃ round, s.loop = .selecting round := by
  cases hpc : s.loop with
  | selecting round => exact ⟨round, rfl⟩
  | joining =>
      rcases h with rfl | rfl
      · simp [State.step, hpc] at hstep
      · cases hside : s.feeder side <;> simp [State.step, hpc, hside] at hstep
  | returned =>
      rcases h with rfl | rfl
      · simp [State.step, hpc] at hstep
      · cases hside : s.feeder side <;> simp [State.step, hpc, hside] at hstep

/-- A late schedule ends only where every schedule ends. -/
theorem Inv.stuck_of_late (h : Inv P s) (hstuck : (late P side).Stuck s) :
    (selectDemo P).Stuck s := by
  intro event s' hstep
  refine hstuck event s' ⟨?_, hstep⟩
  intro hevent
  obtain ⟨round, hpc⟩ := selecting_of_step hevent hstep
  exact h.other_done hstuck hpc

/-- A late schedule takes as little as can be out of the channel. -/
theorem exists_late_end (P : Params) (side : Side) :
    ∃ s, (selectDemo P).Reachable s ∧ (selectDemo P).Stuck s ∧ OtherFirst side s := by
  have hbound : ∀ events s, (late P side).Run (initial P) events s → _ :=
    fun events s hrun => run_bounded hrun.of_restrict
  obtain ⟨events, s, hrun, hstuck⟩ := exists_stuck hbound
  have hs : (selectDemo P).Reachable s := ⟨initial P, events, rfl, hrun.of_restrict⟩
  have hfirst : OtherFirst side s := by
    refine hrun.preserves (I := OtherFirst side) ?_ ?_
    · rintro s event s' h ⟨hlate, hstep⟩
      exact h.step hlate hstep
    · intro hsome
      exact absurd rfl hsome
  have hinv := (select_invariant P).reachable hs
  exact ⟨s, hs, hinv.stuck_of_late hstuck, hfirst⟩

theorem balanced_of_finishes
    (hall : ∀ s, (selectDemo P).Reachable s → (selectDemo P).Stuck s → s.loop = .returned) :
    P.Balanced := by
  have hone : ∀ side, P.rounds ≤ P.count side + P.count side.other ∧
      P.count side - (P.rounds - P.count side.other) ≤ P.capacity side := by
    intro side
    obtain ⟨s, hs, hstuck, hfirst⟩ := exists_late_end P side
    have h := (select_invariant P).reachable hs
    have hloop := h.loop
    rw [hall s hs hstuck] at hloop
    obtain ⟨hlength, hreturned⟩ := hloop
    have hboth := printed_both s side
    have hside := h.lengths side
    have hother := h.lengths side.other
    rw [written_of_returned (hreturned side)] at hside
    rw [written_of_returned (hreturned side.other)] at hother
    have hroom := (s.channel side).fits
    rw [h.capacity_eq] at hroom
    refine ⟨by omega, ?_⟩
    rcases List.eq_nil_or_concat (s.printedOf side) with hnone | hsome
    · rw [hnone, List.length_nil] at hside
      omega
    · obtain ⟨before, text, hsome⟩ := hsome
      have hempty := (hfirst (by simp [hsome])).2
      rw [hempty, List.length_nil] at hother
      omega
  exact ⟨(hone .fast).1, fun side => (hone side).2⟩

/-- The race loses nothing, and the demo ends in every schedule exactly when there are
enough messages and what the loop may leave fits into the channels. -/
theorem select_demo_finishes_iff (P : Params) :
    (∀ s, (selectDemo P).Reachable s → ∀ side,
      s.printedOf side <+: messages side (P.count side)) ∧
    (∀ events s, (selectDemo P).Run (initial P) events s →
      events.length ≤ 2 * (P.count .fast + P.count .slow) + P.rounds + 3) ∧
    ((∀ s, (selectDemo P).Reachable s → (selectDemo P).Stuck s → s.loop = .returned) ↔
      P.Balanced) := by
  refine ⟨?_, fun events s hrun => run_bounded hrun, balanced_of_finishes, ?_⟩
  · intro s hs side
    have h := (select_invariant P).reachable hs
    obtain ⟨left, hleft⟩ := Nat.exists_eq_add_of_le (h.written_le side)
    have hprefix : messages side (s.written P side) <+: messages side (P.count side) := by
      rw [messages, messages, hleft, ← List.range'_append_1, List.map_append]
      exact List.prefix_append _ _
    exact (List.prefix_append _ _).trans ((h.stream side).symm ▸ hprefix)
  · intro hbalanced s hs hstuck
    exact ((select_invariant P).reachable hs).returned_of_stuck hbalanced hstuck

end Ends

end CppWorkspace.Cobalt.SelectDemo
