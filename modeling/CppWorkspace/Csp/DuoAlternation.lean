import CppWorkspace.Csp.Duo

/-!
The alternation of `csp_duo.cpp`. The number that is printed next is the baton: one
coroutine or one channel has it at a time, and who has it is the one that can go on.
-/

namespace CppWorkspace.Csp.CspDuo

open Lib System

variable {odd odd' : Coroutine OddPc} {even even' : Coroutine EvenPc}
  {toEven toOdd c : Channel ℤ} {limit : ℤ}

@[simp] theorem alternateState_setOdd :
    (alternateState odd even toEven toOdd).setProcess .odd odd' =
      alternateState odd' even toEven toOdd := by
  simp only [NetState.setProcess, alternateState, NetState.mk.injEq, true_and]
  funext p
  cases p <;> rfl

@[simp] theorem alternateState_setEven :
    (alternateState odd even toEven toOdd).setProcess .even even' =
      alternateState odd even' toEven toOdd := by
  simp only [NetState.setProcess, alternateState, NetState.mk.injEq, true_and]
  funext p
  cases p <;> rfl

@[simp] theorem alternateState_setToEven :
    (alternateState odd even toEven toOdd).setChannel .toEven c =
      alternateState odd even c toOdd := by
  simp only [NetState.setChannel, alternateState, NetState.mk.injEq, and_true]
  funext d
  cases d <;> rfl

@[simp] theorem alternateState_setToOdd :
    (alternateState odd even toEven toOdd).setChannel .toOdd c =
      alternateState odd even toEven c := by
  simp only [NetState.setChannel, alternateState, NetState.mk.injEq, and_true]
  funext d
  cases d <;> rfl

def Baton.writer : Baton → Printer
  | .toEven => .odd
  | .toOdd => .even

def Baton.reader : Baton → Printer
  | .toEven => .even
  | .toOdd => .odd

theorem alternateProgram_wired (limit : ℤ) :
    Wired (alternateProgram limit) Baton.writer Baton.reader where
  writes {p locals c what} h hwrites := by
    cases p with
    | odd =>
        obtain ⟨pc, out⟩ := locals
        cases pc with
        | sending next => cases h; rfl
        | receiving => cases h; exact absurd hwrites id
        | looping _ | returned | threw | undefined => cases h
    | even =>
        obtain ⟨pc, out⟩ := locals
        cases pc with
        | sending next => cases h; rfl
        | closing => cases h; rfl
        | receiving => cases h; exact absurd hwrites id
        | returned | threw | undefined => cases h
  reads {p locals c what} h hreads := by
    cases p with
    | odd =>
        obtain ⟨pc, out⟩ := locals
        cases pc with
        | sending next => cases h; exact absurd trivial hreads
        | receiving => cases h; rfl
        | looping _ | returned | threw | undefined => cases h
    | even =>
        obtain ⟨pc, out⟩ := locals
        cases pc with
        | sending next => cases h; exact absurd trivial hreads
        | closing => cases h; exact absurd trivial hreads
        | receiving => cases h; rfl
        | returned | threw | undefined => cases h

/-- The first `k` odd numbers, printed. -/
def oddTexts (k : ℕ) : List Text := (List.range k).map fun i => oddText (2 * i + 1)

/-- The first `k` even numbers from two on, printed. -/
def evenTexts (k : ℕ) : List Text := (List.range k).map fun i => evenText (2 * i + 2)

theorem oddTexts_succ (k : ℕ) : oddTexts k ++ [oddText (2 * k + 1)] = oddTexts (k + 1) := by
  simp [oddTexts, List.range_succ]

theorem evenTexts_succ (k : ℕ) : evenTexts k ++ [evenText (2 * k + 2)] = evenTexts (k + 1) := by
  simp [evenTexts, List.range_succ]

/-- Who has the baton, after `k` rounds. -/
inductive Turn (limit : ℤ) : Coroutine OddPc → Coroutine EvenPc → List ℤ → List ℤ → Bool → Prop
  | oddPrints {k : ℕ} : (2 * k + 1 : ℤ) ≤ max limit 1 →
      Turn limit ⟨.looping (2 * k + 1), oddTexts k⟩ ⟨.receiving, evenTexts k⟩ [] [] false
  | oddSends {k : ℕ} : (2 * k + 1 : ℤ) ≤ max limit 1 →
      Turn limit ⟨.sending (2 * k + 2), oddTexts (k + 1)⟩ ⟨.receiving, evenTexts k⟩ [] [] false
  | toEven {k : ℕ} : (2 * k + 1 : ℤ) ≤ max limit 1 →
      Turn limit ⟨.receiving, oddTexts (k + 1)⟩ ⟨.receiving, evenTexts k⟩ [2 * k + 2] [] false
  | evenSends {k : ℕ} : (2 * k + 3 : ℤ) ≤ limit →
      Turn limit ⟨.receiving, oddTexts (k + 1)⟩ ⟨.sending (2 * k + 3), evenTexts (k + 1)⟩ [] []
        false
  | toOdd {k : ℕ} : (2 * k + 3 : ℤ) ≤ limit →
      Turn limit ⟨.receiving, oddTexts (k + 1)⟩ ⟨.receiving, evenTexts (k + 1)⟩ [] [2 * k + 3]
        false
  | evenCloses {k : ℕ} :
      Turn limit ⟨.receiving, oddTexts (k + 1)⟩ ⟨.closing, evenTexts (k + 1)⟩ [] [] false
  | closed {k : ℕ} :
      Turn limit ⟨.receiving, oddTexts (k + 1)⟩ ⟨.returned, evenTexts (k + 1) ++ [evenDone]⟩ [] []
        true
  | ended {k : ℕ} :
      Turn limit ⟨.returned, oddTexts (k + 1) ++ [oddDone]⟩
        ⟨.returned, evenTexts (k + 1) ++ [evenDone]⟩ [] [] true

/-- The state at such a moment; the channel to the even printer is never closed. -/
structure InTurn (limit : ℤ) (s : AlternateState) : Prop where
  turn : Turn limit (s.process .odd) (s.process .even) (s.channel .toEven).buffer
    (s.channel .toOdd).buffer (s.channel .toOdd).closed
  stillOpen : (s.channel .toEven).closed = false

theorem exists_alternateState (s : AlternateState) :
    ∃ odd even toEven toOdd, s = alternateState odd even toEven toOdd := by
  refine ⟨s.process .odd, s.process .even, s.channel .toEven, s.channel .toOdd, ?_⟩
  obtain ⟨channel, process⟩ := s
  rw [alternateState, NetState.mk.injEq]
  constructor
  · funext c
    cases c <;> rfl
  · funext p
    cases p <;> rfl

theorem fits_of_le {limit : ℤ} {k : ℕ} (hlimit : limit + 2 ≤ 2 ^ 31 - 1)
    (hle : (2 * k + 1 : ℤ) ≤ max limit 1) : FitsInt (2 * k + 1 + 1) ∧ FitsInt (2 * k + 2 + 1) := by
  have hmax : max limit 1 ≤ 2 ^ 31 - 3 := max_le (by omega) (by norm_num)
  constructor
  · exact ⟨by omega, by omega⟩
  · exact ⟨by omega, by omega⟩

theorem oddAfterPrint {k : ℕ} (hfits : FitsInt (2 * k + 1 + 1 : ℤ)) :
    OddPc.afterPrint (2 * k + 1) = .sending (2 * k + 2) := by
  rw [OddPc.afterPrint, int_of_fits hfits]
  exact congrArg OddPc.sending (by ring)

theorem evenAfterPrint {limit : ℤ} {k : ℕ} (hfits : FitsInt (2 * k + 2 + 1 : ℤ)) :
    EvenPc.afterPrint limit (2 * k + 2) =
      if (2 * k + 3 : ℤ) ≤ limit then .sending (2 * k + 3) else .closing := by
  have hnext : (2 * k + 2 + 1 : ℤ) = 2 * k + 3 := by ring
  rw [EvenPc.afterPrint, int_of_fits hfits, hnext]

theorem inTurn_of {evenBuffer oddBuffer : List ℤ} {closed : Bool}
    (hturn : Turn limit odd even evenBuffer oddBuffer closed) (hopen : toEven.closed = false)
    (hevenBuffer : toEven.buffer = evenBuffer) (hoddBuffer : toOdd.buffer = oddBuffer)
    (hclosed : toOdd.closed = closed) : InTurn limit (alternateState odd even toEven toOdd) := by
  subst hevenBuffer hoddBuffer hclosed
  exact ⟨hturn, hopen⟩

/-- The odd printer does something by itself. -/
theorem Turn.odd_acts {evenBuffer oddBuffer : List ℤ} {closed : Bool}
    (hturn : Turn limit odd even evenBuffer oddBuffer closed)
    (hlimit : limit + 2 ≤ 2 ^ 31 - 1) (hopen : toEven.closed = false)
    (hevenBuffer : toEven.buffer = evenBuffer) (hoddBuffer : toOdd.buffer = oddBuffer)
    (hclosed : toOdd.closed = closed) {s' : AlternateState}
    (hmove : (alternateState odd even toEven toOdd).Moves (alternateProgram limit) (.act .odd) s') :
    InTurn limit s' := by
  cases hturn with
  | @oddPrints k hle =>
      cases hmove with
      | uses hprogram _ => cases hprogram
      | goes hprogram =>
          rw [← Action.go.inj hprogram, alternateState_setOdd, oddTexts_succ,
            oddAfterPrint (fits_of_le hlimit hle).1]
          exact inTurn_of (.oddSends hle) hopen hevenBuffer hoddBuffer hclosed
  | oddSends hle =>
      cases hmove with
      | goes hprogram => cases hprogram
      | uses hprogram hrun =>
          cases hprogram
          rcases Use.run_send hrun with ⟨hshut, -⟩ | ⟨-, rfl, hput⟩
          · cases hopen.symm.trans hshut
          · obtain ⟨-, -, hbuffer, hopen', -⟩ := Channel.put_spec hput
            rw [alternateState_setToEven, alternateState_setOdd]
            refine inTurn_of (.toEven hle) hopen' ?_ hoddBuffer hclosed
            change _ = toEven.buffer ++ _ at hbuffer
            rw [hbuffer, hevenBuffer, List.nil_append]
  | toEven hle | evenSends hle | evenCloses =>
      cases hmove with
      | goes hprogram => cases hprogram
      | uses hprogram hrun =>
          cases hprogram
          cases (Use.run_receive_waits ⟨hclosed, hoddBuffer⟩).symm.trans hrun
  | @toOdd k hle =>
      cases hmove with
      | goes hprogram => cases hprogram
      | @uses _ _ _ _ after hprogram hrun =>
          cases hprogram
          rcases Use.run_receive hrun with ⟨value, htake, rfl⟩ | ⟨-, hshut, -⟩
          · obtain ⟨hbuffer, hclosed', -⟩ := Channel.take_spec htake
            obtain ⟨rfl, hnil⟩ := List.cons.inj (hoddBuffer.symm.trans hbuffer)
            rw [alternateState_setToOdd, alternateState_setOdd]
            have hnext : (2 * k + 3 : ℤ) = 2 * (k + 1 : ℕ) + 1 := by
              push_cast
              ring
            rw [hnext] at hle ⊢
            exact inTurn_of (.oddPrints (hle.trans (le_max_left _ _))) hopen hevenBuffer hnil.symm
              (hclosed'.trans hclosed)
          · cases hclosed.symm.trans hshut
  | closed =>
      cases hmove with
      | goes hprogram => cases hprogram
      | uses hprogram hrun =>
          cases hprogram
          rcases Use.run_receive hrun with ⟨value, htake, -⟩ | ⟨-, -, rfl, rfl⟩
          · cases hoddBuffer.symm.trans (Channel.take_spec htake).1
          · rw [alternateState_setToOdd, alternateState_setOdd]
            exact inTurn_of .ended hopen hevenBuffer hoddBuffer hclosed
  | ended =>
      cases hmove with
      | goes hprogram => cases hprogram
      | uses hprogram _ => cases hprogram

/-- The even printer does something by itself. -/
theorem Turn.even_acts {evenBuffer oddBuffer : List ℤ} {closed : Bool}
    (hturn : Turn limit odd even evenBuffer oddBuffer closed)
    (hlimit : limit + 2 ≤ 2 ^ 31 - 1) (hopen : toEven.closed = false)
    (hevenBuffer : toEven.buffer = evenBuffer) (hoddBuffer : toOdd.buffer = oddBuffer)
    (hclosed : toOdd.closed = closed) {s' : AlternateState}
    (hmove : (alternateState odd even toEven toOdd).Moves (alternateProgram limit)
      (.act .even) s') :
    InTurn limit s' := by
  cases hturn with
  | oddPrints hle | oddSends hle | toOdd hle =>
      cases hmove with
      | goes hprogram => cases hprogram
      | uses hprogram hrun =>
          cases hprogram
          cases (Use.run_receive_waits ⟨hopen, hevenBuffer⟩).symm.trans hrun
  | @toEven k hle =>
      cases hmove with
      | goes hprogram => cases hprogram
      | uses hprogram hrun =>
          cases hprogram
          rcases Use.run_receive hrun with ⟨value, htake, rfl⟩ | ⟨-, hshut, -⟩
          · obtain ⟨hbuffer, hopen', -⟩ := Channel.take_spec htake
            obtain ⟨rfl, hnil⟩ := List.cons.inj (hevenBuffer.symm.trans hbuffer)
            rw [alternateState_setToEven, alternateState_setEven, evenTexts_succ,
              evenAfterPrint (fits_of_le hlimit hle).2]
            split
            · next hle' =>
              exact inTurn_of (.evenSends hle') (hopen'.trans hopen) hnil.symm hoddBuffer hclosed
            · exact inTurn_of .evenCloses (hopen'.trans hopen) hnil.symm hoddBuffer hclosed
          · cases hopen.symm.trans hshut
  | evenSends hle =>
      cases hmove with
      | goes hprogram => cases hprogram
      | uses hprogram hrun =>
          cases hprogram
          rcases Use.run_send hrun with ⟨hshut, -⟩ | ⟨-, rfl, hput⟩
          · cases hclosed.symm.trans hshut
          · obtain ⟨-, -, hbuffer, hopen', -⟩ := Channel.put_spec hput
            rw [alternateState_setToOdd, alternateState_setEven]
            refine inTurn_of (.toOdd hle) hopen hevenBuffer ?_ hopen'
            change _ = toOdd.buffer ++ _ at hbuffer
            rw [hbuffer, hoddBuffer, List.nil_append]
  | evenCloses =>
      cases hmove with
      | goes hprogram => cases hprogram
      | uses hprogram hrun =>
          cases hprogram
          cases hrun
          rw [alternateState_setToOdd, alternateState_setEven]
          exact inTurn_of .closed hopen hevenBuffer hoddBuffer rfl
  | closed | ended =>
      cases hmove with
      | goes hprogram => cases hprogram
      | uses hprogram _ => cases hprogram

/-- The printers meet at a channel without room. -/
theorem Turn.hands {evenBuffer oddBuffer : List ℤ} {closed : Bool}
    (hturn : Turn limit odd even evenBuffer oddBuffer closed)
    (hlimit : limit + 2 ≤ 2 ^ 31 - 1) (hopen : toEven.closed = false)
    (hevenBuffer : toEven.buffer = evenBuffer) (hoddBuffer : toOdd.buffer = oddBuffer)
    (hclosed : toOdd.closed = closed) {p q : Printer} {s' : AlternateState}
    (hmove : (alternateState odd even toEven toOdd).Moves (alternateProgram limit) (.hand p q) s') :
    InTurn limit s' := by
  cases hmove with
  | @hands _ _ baton value sent refused got ended hsend hreceive _ _ =>
  have hp := (alternateProgram_wired limit).writes hsend trivial
  have hq := (alternateProgram_wired limit).reads hreceive id
  cases baton with
  | toEven =>
      subst hp hq
      cases hturn with
      | @oddSends k hle =>
          cases hsend
          cases hreceive
          change InTurn limit ((NetState.setProcess _ Printer.odd _).setProcess Printer.even _)
          rw [alternateState_setOdd, alternateState_setEven]
          dsimp only
          rw [evenTexts_succ, evenAfterPrint (fits_of_le hlimit hle).2]
          split
          · next hle' =>
            exact inTurn_of (.evenSends hle') hopen hevenBuffer hoddBuffer hclosed
          · exact inTurn_of .evenCloses hopen hevenBuffer hoddBuffer hclosed
      | oddPrints _ | toEven _ | evenSends _ | toOdd _ | evenCloses | closed | ended => cases hsend
  | toOdd =>
      subst hp hq
      cases hturn with
      | @evenSends k hle =>
          cases hsend
          cases hreceive
          change InTurn limit ((NetState.setProcess _ Printer.even _).setProcess Printer.odd _)
          rw [alternateState_setEven, alternateState_setOdd]
          have hnext : (2 * k + 3 : ℤ) = 2 * (k + 1 : ℕ) + 1 := by
            push_cast
            ring
          rw [hnext] at hle ⊢
          exact inTurn_of (.oddPrints (hle.trans (le_max_left _ _))) hopen hevenBuffer hoddBuffer
            hclosed
      | oddPrints _ | oddSends _ | toEven _ | toOdd _ | evenCloses | closed | ended => cases hsend

theorem InTurn.step (hlimit : limit + 2 ≤ 2 ^ 31 - 1) {s s' : AlternateState}
    {label : Label Printer} (h : InTurn limit s)
    (hmove : s.Moves (alternateProgram limit) label s') : InTurn limit s' := by
  obtain ⟨odd, even, toEven, toOdd, rfl⟩ := exists_alternateState s
  obtain ⟨hturn, hopen⟩ := h
  cases label with
  | hand p q => exact hturn.hands hlimit hopen rfl rfl rfl hmove
  | act p =>
      cases p with
      | odd => exact hturn.odd_acts hlimit hopen rfl rfl rfl hmove
      | even => exact hturn.even_acts hlimit hopen rfl rfl rfl hmove

variable {labels : List (Label Printer)} {a b : ℕ}

theorem inTurn_of_run (hlimit : limit + 2 ≤ 2 ^ 31 - 1) {s : AlternateState}
    (hrun : (alternateDemo limit a b).Run (alternateStart a b) labels s) : InTurn limit s := by
  refine hrun.preserves (I := InTurn limit) ?_ ?_
  · intro before label after h hstep
    exact h.step hlimit (NetState.moves_of_step hstep)
  · have hone : ((2 * (0 : ℕ) + 1 : ℤ)) ≤ max limit 1 := by simp
    exact inTurn_of (Turn.oddPrints hone) rfl rfl rfl rfl

/-- The odd printer has printed the first `k` odd numbers and the even printer as many
even ones, or one less; a farewell comes after the last of them. -/
def Alternates (s : AlternateState) : Prop :=
  ∃ k j, j ≤ k ∧ k ≤ j + 1 ∧
    ((s.process .odd).output = oddTexts k ∨
      k = j ∧ (s.process .odd).output = oddTexts k ++ [oddDone]) ∧
    ((s.process .even).output = evenTexts j ∨
      k = j ∧ (s.process .even).output = evenTexts j ++ [evenDone])

theorem InTurn.alternates {s : AlternateState} (h : InTurn limit s) : Alternates s := by
  obtain ⟨odd, even, toEven, toOdd, rfl⟩ := exists_alternateState s
  obtain ⟨hturn, -⟩ := h
  change Turn limit odd even toEven.buffer toOdd.buffer toOdd.closed at hturn
  change ∃ k j, j ≤ k ∧ k ≤ j + 1 ∧ (odd.output = _ ∨ _ ∧ odd.output = _) ∧
    (even.output = _ ∨ _ ∧ even.output = _)
  generalize toEven.buffer = evenBuffer at hturn
  generalize toOdd.buffer = oddBuffer at hturn
  generalize toOdd.closed = closed at hturn
  cases hturn with
  | @oddPrints k _ => exact ⟨k, k, le_rfl, Nat.le_succ k, .inl rfl, .inl rfl⟩
  | @oddSends k _ => exact ⟨k + 1, k, Nat.le_succ k, le_rfl, .inl rfl, .inl rfl⟩
  | @toEven k _ => exact ⟨k + 1, k, Nat.le_succ k, le_rfl, .inl rfl, .inl rfl⟩
  | @evenSends k _ => exact ⟨k + 1, k + 1, le_rfl, Nat.le_succ _, .inl rfl, .inl rfl⟩
  | @toOdd k _ => exact ⟨k + 1, k + 1, le_rfl, Nat.le_succ _, .inl rfl, .inl rfl⟩
  | @evenCloses k => exact ⟨k + 1, k + 1, le_rfl, Nat.le_succ _, .inl rfl, .inl rfl⟩
  | @closed k => exact ⟨k + 1, k + 1, le_rfl, Nat.le_succ _, .inl rfl, .inr ⟨rfl, rfl⟩⟩
  | @ended k => exact ⟨k + 1, k + 1, le_rfl, Nat.le_succ _, .inr ⟨rfl, rfl⟩, .inr ⟨rfl, rfl⟩⟩

/-- Both print, up to the decision of the even printer. -/
theorem alternate_prints {k : ℕ} (hlimit : limit + 2 ≤ 2 ^ 31 - 1)
    (hle : (2 * k + 1 : ℤ) ≤ max limit 1) (hmeets : toEven.Meets) :
    (alternateDemo limit a b).Reaches
      (alternateState ⟨.looping (2 * k + 1), oddTexts k⟩ ⟨.receiving, evenTexts k⟩ toEven toOdd)
      (alternateState ⟨.receiving, oddTexts (k + 1)⟩
        ⟨if (2 * k + 3 : ℤ) ≤ limit then .sending (2 * k + 3) else .closing, evenTexts (k + 1)⟩
        toEven toOdd) := by
  obtain ⟨hodd, heven⟩ := fits_of_le hlimit hle
  have hprint : (alternateDemo limit a b).Reaches _ _ := reaches_go
    (s := alternateState ⟨.looping (2 * k + 1), oddTexts k⟩ ⟨.receiving, evenTexts k⟩ toEven toOdd)
    (p := .odd) rfl
  have hhand : (alternateDemo limit a b).Reaches _ _ := reaches_transfer
    (s := alternateState ⟨.sending (2 * k + 2), oddTexts (k + 1)⟩ ⟨.receiving, evenTexts k⟩ toEven
      toOdd) (p := .odd) (q := .even) (c := .toEven) rfl rfl hmeets
  simp only [alternateState_setOdd, alternateState_setEven] at hprint hhand
  rw [oddTexts_succ, oddAfterPrint hodd] at hprint
  rw [evenTexts_succ, evenAfterPrint heven] at hhand
  exact hprint.trans hhand

/-- One round after which there is another one. -/
theorem alternate_round {k : ℕ} (hlimit : limit + 2 ≤ 2 ^ 31 - 1) (hle : (2 * k + 3 : ℤ) ≤ limit)
    (hmeets : toEven.Meets) (hmeets' : toOdd.Meets) :
    (alternateDemo limit a b).Reaches
      (alternateState ⟨.looping (2 * k + 1), oddTexts k⟩ ⟨.receiving, evenTexts k⟩ toEven toOdd)
      (alternateState ⟨.looping (2 * (k + 1 : ℕ) + 1), oddTexts (k + 1)⟩
        ⟨.receiving, evenTexts (k + 1)⟩ toEven toOdd) := by
  have hone : (2 * k + 1 : ℤ) ≤ max limit 1 := le_trans (by omega) (le_max_left limit 1)
  have hprints : (alternateDemo limit a b).Reaches _ (alternateState _ _ toEven toOdd) :=
    alternate_prints hlimit hone hmeets
  have hback : (alternateDemo limit a b).Reaches _ _ := reaches_transfer
    (s := alternateState ⟨.receiving, oddTexts (k + 1)⟩
      ⟨.sending (2 * k + 3), evenTexts (k + 1)⟩ toEven toOdd)
    (p := .even) (q := .odd) (c := .toOdd) rfl rfl hmeets'
  have hnext : (2 * k + 3 : ℤ) = 2 * (k + 1 : ℕ) + 1 := by
    push_cast
    ring
  rw [if_pos hle] at hprints
  simp only [alternateState_setOdd, alternateState_setEven] at hback
  rw [hnext] at hback hprints
  exact hprints.trans hback

/-- The numbers go on for `n` rounds. -/
theorem alternate_rounds (n : ℕ) (hlimit : limit + 2 ≤ 2 ^ 31 - 1)
    (hle : (2 * n + 1 : ℤ) ≤ max limit 1) (hmeets : toEven.Meets) (hmeets' : toOdd.Meets) :
    (alternateDemo limit a b).Reaches
      (alternateState ⟨.looping 1, []⟩ ⟨.receiving, []⟩ toEven toOdd)
      (alternateState ⟨.looping (2 * n + 1), oddTexts n⟩ ⟨.receiving, evenTexts n⟩ toEven
        toOdd) := by
  induction n with
  | zero => exact Reaches.refl _
  | succ n ih =>
      have hmore : (2 * n + 3 : ℤ) ≤ limit := by
        push_cast at hle
        rcases le_max_iff.mp hle with hlimit' | hone
        · omega
        · omega
      have hless : (2 * n + 1 : ℤ) ≤ max limit 1 := le_trans (by omega) (le_max_left limit 1)
      exact (ih hless).trans (alternate_round hlimit hmore hmeets hmeets')

/-- The round after which the numbers are used up. -/
theorem alternate_last {k : ℕ} (hlimit : limit + 2 ≤ 2 ^ 31 - 1)
    (hle : (2 * k + 1 : ℤ) ≤ max limit 1) (hlast : ¬ (2 * k + 3 : ℤ) ≤ limit)
    (hmeets : toEven.Meets) (hmeets' : toOdd.Meets) :
    (alternateDemo limit a b).Reaches
      (alternateState ⟨.looping (2 * k + 1), oddTexts k⟩ ⟨.receiving, evenTexts k⟩ toEven toOdd)
      (alternateState ⟨.returned, oddTexts (k + 1) ++ [oddDone]⟩
        ⟨.returned, evenTexts (k + 1) ++ [evenDone]⟩ toEven toOdd.close) := by
  have hprints : (alternateDemo limit a b).Reaches _ (alternateState _ _ toEven toOdd) :=
    alternate_prints hlimit hle hmeets
  have hclose : (alternateDemo limit a b).Reaches _ _ := reaches_close
    (s := alternateState ⟨.receiving, oddTexts (k + 1)⟩ ⟨.closing, evenTexts (k + 1)⟩ toEven toOdd)
    (p := .even) (c := .toOdd) rfl
  have hended : (alternateDemo limit a b).Reaches _ _ := reaches_ended
    (s := alternateState ⟨.receiving, oddTexts (k + 1)⟩
      ⟨.returned, evenTexts (k + 1) ++ [evenDone]⟩ toEven toOdd.close)
    (p := .odd) (c := .toOdd) rfl ⟨rfl, hmeets'.2⟩
  rw [if_neg hlast] at hprints
  simp only [alternateState_setOdd, alternateState_setEven,
    alternateState_setToOdd] at hclose hended
  exact (hprints.trans hclose).trans hended

/-- The rounds until the numbers are used up; there is one at least. -/
def rounds (limit : ℤ) : ℕ := max 1 ((limit + 1) / 2).toNat

theorem rounds_spec (limit : ℤ) : ∃ k, rounds limit = k + 1 ∧ (2 * k + 1 : ℤ) ≤ max limit 1 ∧
    ¬ (2 * k + 3 : ℤ) ≤ limit := by
  refine ⟨rounds limit - 1, ?_, ?_, ?_⟩
  · unfold rounds
    omega
  · unfold rounds
    omega
  · unfold rounds
    omega

/-- Both printers have returned. -/
def alternateDone (limit : ℤ) (toEvenCapacity toOddCapacity : ℕ) : AlternateState :=
  alternateState ⟨.returned, oddTexts (rounds limit) ++ [oddDone]⟩
    ⟨.returned, evenTexts (rounds limit) ++ [evenDone]⟩ (.make toEvenCapacity)
    (Channel.make toOddCapacity).close

/-- For every schedule the printers take turns, and both come to their end when the
numbers up to the limit have been printed, with one more where the limit is odd. -/
theorem alternate_takes_turns (limit : ℤ) (toEvenCapacity toOddCapacity : ℕ)
    (hlimit : limit + 2 ≤ 2 ^ 31 - 1) :
    (∀ labels s, (alternateDemo limit toEvenCapacity toOddCapacity).Run
      (alternateStart toEvenCapacity toOddCapacity) labels s → Alternates s) ∧
    (alternateDemo limit toEvenCapacity toOddCapacity).LeadsTo
      (alternateStart toEvenCapacity toOddCapacity)
      (alternateDone limit toEvenCapacity toOddCapacity) := by
  constructor
  · intro labels s hrun
    exact (inTurn_of_run hlimit hrun).alternates
  · refine ((alternateProgram_wired limit).commutes _).leadsTo (stuck_of_stopped ?_) ?_
    · intro p
      cases p <;> rfl
    · obtain ⟨k, hrounds, hle, hlast⟩ := rounds_spec limit
      have hfirst : (alternateDemo limit toEvenCapacity toOddCapacity).Reaches
          (alternateStart toEvenCapacity toOddCapacity) _ :=
        alternate_rounds k hlimit hle (Channel.make_meets _) (Channel.make_meets _)
      rw [alternateDone, hrounds]
      exact hfirst.trans
        (alternate_last hlimit hle hlast (Channel.make_meets _) (Channel.make_meets _))

/-- The limit of the source. -/
theorem alternate_takes_turns_eight :
    (∀ labels s, (alternateDemo 8 0 0).Run (alternateStart 0 0) labels s → Alternates s) ∧
    (alternateDemo 8 0 0).LeadsTo (alternateStart 0 0) (alternateDone 8 0 0) :=
  alternate_takes_turns 8 0 0 (by decide)

end CppWorkspace.Csp.CspDuo
