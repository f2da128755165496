import CppWorkspace.Csp.Select
import CppWorkspace.Lib.History

/-!
When the select loop loses a message: exactly one receive of a round may take
one. As long as no round takes two, what is printed from a channel, with the
text of the running round, is what has been received from it, and the loop comes
to its end.
-/

namespace CppWorkspace.Csp.CspSelect

open Lib System

/-- At most one receive of the round has met a sender. -/
inductive Shape (receive : Side → Receive) : Option Side → Prop
  | idle (h : ∀ side, receive side = .waiting) : Shape receive none
  | one (side : Side) (text : Text) (h : receive side = .matched text)
      (hother : receive side.other = .waiting) : Shape receive none
  | won (side : Side) (text : Text) (h : receive side = .completed text)
      (hother : receive side.other = .cancelled) : Shape receive (some side)

def ProducerPc.Valid (count : Nat) : ProducerPc → Prop
  | .timing seq => 1 ≤ seq ∧ seq ≤ count + 1
  | .sending seq => 1 ≤ seq ∧ seq ≤ count
  | .returned => True

/-- The rounds that are over printed a line each. -/
def LoopPc.Rounds (rounds printed : Nat) : LoopPc → Prop
  | .starting round => printed + 1 = round ∧ round ≤ rounds + 1
  | .selecting round _ _ => printed + 1 = round ∧ round ≤ rounds
  | .returned => printed = rounds

structure Orderly (P : Producers) (s : State) : Prop where
  texts : ∀ side, s.printedOf side ++ s.inFlight side = P.texts side (s.accepted P side)
  producers : ∀ side, (s.producer side).Valid (P.count side)
  rounds : s.loop.Rounds P.rounds s.printed.length
  shape : ∀ round receive winner, s.loop = .selecting round receive winner → Shape receive winner
  met : ∀ round receive winner, s.loop = .selecting round receive winner →
    ∀ side seq, receive side = .waiting → s.producer side ≠ .sending seq

theorem orderly_initial (P : Producers) : Orderly P {} where
  texts side := by simp [State.printedOf, State.inFlight, State.accepted, ProducerPc.accepted,
    Producers.texts]
  producers side := ⟨Nat.le_refl 1, Nat.le_add_left 1 _⟩
  rounds := ⟨rfl, Nat.le_add_left 1 _⟩
  shape round receive winner heq := by cases heq
  met round receive winner heq := by cases heq

theorem side_cases (side : Side) (k : Side) : k = side ∨ k = side.other := by
  cases side <;> cases k <;> decide

theorem other_ne (side : Side) : side.other ≠ side := by
  cases side <;> decide

theorem other_other (side : Side) : side.other.other = side := by
  cases side <;> rfl

theorem texts_succ (P : Producers) (side : Side) {seq : Nat} (hseq : 1 ≤ seq) :
    P.texts side seq = P.texts side (seq - 1) ++ [P.text side seq] := by
  obtain ⟨n, rfl⟩ : ∃ n, seq = n + 1 := ⟨seq - 1, by omega⟩
  rw [Producers.texts, Producers.texts, List.range'_1_concat, List.map_append,
    Nat.add_sub_cancel, Nat.add_comm n 1]
  rfl

theorem printed_length (printed : List (Side × Text)) :
    (printed.filterMap (fun e => if e.1 = .fast then some e.2 else none)).length +
        (printed.filterMap (fun e => if e.1 = .slow then some e.2 else none)).length =
      printed.length := by
  induction printed with
  | nil => rfl
  | cons e rest ih =>
      obtain ⟨side, text⟩ := e
      cases side <;> simp <;> omega

theorem ProducerPc.Valid.received {count : Nat} {pc : ProducerPc} (h : pc.Valid count) :
    pc.received.Valid count := by
  cases pc with
  | timing seq => exact h
  | sending seq => exact ⟨Nat.le_add_left 1 seq, Nat.add_le_add_right h.2 1⟩
  | returned => trivial

theorem received_ne_sending (pc : ProducerPc) (seq : Nat) : pc.received ≠ .sending seq := by
  cases pc <;> simp [ProducerPc.received]

section Steps

variable {P : Producers} {s s' : State}

/-- A send that finds its receive waiting. -/
theorem Orderly.send_meets (h : Orderly P s) {side : Side} {seq round : Nat}
    {receive : Side → Receive} {winner : Option Side} (hpc : s.producer side = .timing seq)
    (hseq : seq ≤ P.count side) (hloop : s.loop = .selecting round receive winner)
    (hwaiting : receive side = .waiting) (hclear : ∀ text, receive side.other ≠ .matched text)
    (hproducer : s'.producer = Function.update s.producer side (.timing (seq + 1)))
    (hloop' : s'.loop = .selecting round
      (Function.update receive side (.matched (P.text side seq))) winner)
    (hprinted : s'.printed = s.printed) : Orderly P s' := by
  have hvalid := h.producers side
  rw [hpc] at hvalid
  obtain ⟨hidle, rfl⟩ : receive side.other = .waiting ∧ winner = none := by
    cases h.shape _ _ _ hloop with
    | idle hall => exact ⟨hall side.other, rfl⟩
    | one k text hk hkother =>
        rcases side_cases side k with rfl | rfl
        · cases hwaiting.symm.trans hk
        · exact absurd hk (hclear text)
    | won k text hk hkother =>
        rcases side_cases side k with rfl | rfl
        · cases hwaiting.symm.trans hk
        · rw [other_other] at hkother
          cases hwaiting.symm.trans hkother
  constructor
  · intro k
    have hold := h.texts k
    rw [State.inFlight, hloop, State.accepted] at hold
    rw [State.printedOf, hprinted, State.inFlight, hloop', State.accepted, hproducer]
    by_cases hk : k = side
    · subst hk
      simp only [hwaiting, List.append_nil, hpc, ProducerPc.accepted] at hold
      simp only [Function.update_self, ProducerPc.accepted, Nat.add_sub_cancel]
      rw [texts_succ P k hvalid.1, ← hold]
      rfl
    · simp only [Function.update_of_ne hk]
      exact hold
  · intro k
    rw [hproducer]
    by_cases hk : k = side
    · subst hk
      rw [Function.update_self]
      exact ⟨Nat.le_add_left 1 seq, Nat.add_le_add_right hseq 1⟩
    · rw [Function.update_of_ne hk]
      exact h.producers k
  · have hold := h.rounds
    rw [hloop] at hold
    rw [hloop', hprinted]
    exact hold
  · intro round' receive' winner' heq
    cases hloop'.symm.trans heq
    exact .one side _ (Function.update_self ..) (by rw [Function.update_of_ne (other_ne side), hidle])
  · intro round' receive' winner' heq k n hk
    cases hloop'.symm.trans heq
    rw [hproducer]
    by_cases hside : k = side
    · subst hside
      rw [Function.update_self] at hk
      cases hk
    · rw [Function.update_of_ne hside] at hk ⊢
      exact h.met _ _ _ hloop k n hk

/-- A producer goes on without a message being received. -/
theorem Orderly.producerMoves (h : Orderly P s) {side : Side} {pc : ProducerPc}
    (hvalid : pc.Valid (P.count side))
    (haccepted : pc.accepted (P.count side) = (s.producer side).accepted (P.count side))
    (hmet : ∀ round receive winner, s.loop = .selecting round receive winner →
      receive side = .waiting → ∀ seq, pc ≠ .sending seq)
    (hproducer : s'.producer = Function.update s.producer side pc)
    (hloop : s'.loop = s.loop) (hprinted : s'.printed = s.printed) : Orderly P s' := by
  constructor
  · intro k
    have hsame : s'.accepted P k = s.accepted P k := by
      rw [State.accepted, State.accepted, hproducer]
      by_cases hk : k = side
      · subst hk
        rw [Function.update_self, haccepted]
      · rw [Function.update_of_ne hk]
    rw [State.printedOf, hprinted, State.inFlight, hloop, hsame]
    exact h.texts k
  · intro k
    rw [hproducer]
    by_cases hk : k = side
    · subst hk
      rw [Function.update_self]
      exact hvalid
    · rw [Function.update_of_ne hk]
      exact h.producers k
  · rw [hloop, hprinted]
    exact h.rounds
  · rw [hloop]
    exact h.shape
  · intro round receive winner heq k n hwaiting
    rw [hloop] at heq
    rw [hproducer]
    by_cases hk : k = side
    · subst hk
      rw [Function.update_self]
      exact hmet _ _ _ heq hwaiting n
    · rw [Function.update_of_ne hk]
      exact h.met _ _ _ heq k n hwaiting

/-- A send that has to wait. -/
theorem Orderly.send_waits (h : Orderly P s) {side : Side} {seq : Nat}
    (hpc : s.producer side = .timing seq) (hseq : seq ≤ P.count side)
    (hblocked : ∀ round receive winner, s.loop = .selecting round receive winner →
      receive side ≠ .waiting)
    (hproducer : s'.producer = Function.update s.producer side (.sending seq))
    (hloop : s'.loop = s.loop) (hprinted : s'.printed = s.printed) : Orderly P s' := by
  have hvalid := h.producers side
  rw [hpc] at hvalid
  have hsending : (ProducerPc.sending seq).Valid (P.count side) := ⟨hvalid.1, hseq⟩
  refine h.producerMoves hsending ?_ ?_ hproducer hloop hprinted
  · rw [hpc]
    rfl
  · intro round receive winner heq hwaiting
    exact absurd hwaiting (hblocked _ _ _ heq)

theorem Orderly.timerFires (h : Orderly P s) {side : Side} {seq : Nat}
    (hpc : s.producer side = .timing seq) (hseq : seq ≤ P.count side)
    (hclear : ¬ s.Collides (.timerFires side)) : Orderly P (s.send P side seq) := by
  unfold State.send
  cases hloop : s.loop with
  | selecting round receive winner =>
      by_cases hwaiting : receive side = .waiting
      · simp only [if_pos hwaiting]
        exact h.send_meets hpc hseq hloop hwaiting
          (fun text hother => hclear ⟨round, receive, winner, text, hloop, hwaiting, hother⟩)
          rfl rfl rfl
      · simp only [if_neg hwaiting]
        refine h.send_waits hpc hseq ?_ rfl hloop.symm rfl
        intro round' receive' winner' heq
        cases hloop.symm.trans heq
        exact hwaiting
  | starting round => exact h.send_waits hpc hseq (by simp [hloop]) rfl hloop.symm rfl
  | returned => exact h.send_waits hpc hseq (by simp [hloop]) rfl hloop.symm rfl

theorem Orderly.producerReturns (h : Orderly P s) {side : Side} {seq : Nat}
    (hpc : s.producer side = .timing seq) (hseq : P.count side < seq)
    (hproducer : s'.producer = Function.update s.producer side .returned)
    (hloop : s'.loop = s.loop) (hprinted : s'.printed = s.printed) : Orderly P s' := by
  have hvalid := h.producers side
  rw [hpc] at hvalid
  have hle := hvalid.2
  have hreturned : ProducerPc.returned.Valid (P.count side) := trivial
  refine h.producerMoves hreturned ?_ (by simp) hproducer hloop hprinted
  rw [hpc]
  show P.count side = seq - 1
  omega

/-- A round starts while at most one producer waits. -/
theorem Orderly.startRound (h : Orderly P s) {round : Nat} (hloop : s.loop = .starting round)
    (hround : round ≤ P.rounds) (hclear : ¬ s.Collides .startRound)
    (hproducer : s'.producer = fun side => (s.producer side).received)
    (hloop' : s'.loop = .selecting round (fun side => (s.producer side).receive P side) none)
    (hprinted : s'.printed = s.printed) : Orderly P s' := by
  constructor
  · intro k
    have hold := h.texts k
    have hvalid := h.producers k
    rw [State.inFlight, hloop, State.accepted] at hold
    rw [State.printedOf, hprinted, State.inFlight, hloop', State.accepted, hproducer]
    cases hk : s.producer k with
    | timing seq =>
        rw [hk] at hold
        simp only [hk]
        exact hold
    | sending seq =>
        rw [hk] at hold hvalid
        simp only [List.append_nil, ProducerPc.accepted] at hold
        simp only [hk, ProducerPc.receive, ProducerPc.received, ProducerPc.accepted,
          Nat.add_sub_cancel]
        rw [texts_succ P k hvalid.1, ← hold]
        rfl
    | returned =>
        rw [hk] at hold
        simp only [hk]
        exact hold
  · intro k
    rw [hproducer]
    exact (h.producers k).received
  · have hold := h.rounds
    rw [hloop] at hold
    rw [hloop', hprinted]
    exact ⟨hold.1, hround⟩
  · intro round' receive winner heq
    cases hloop'.symm.trans heq
    by_cases hany : ∃ side seq, s.producer side = .sending seq
    · obtain ⟨side, seq, hside⟩ := hany
      refine .one side (P.text side seq) (by simp [hside, ProducerPc.receive]) ?_
      cases hother : s.producer side.other with
      | timing n => rfl
      | returned => rfl
      | sending n =>
          refine absurd (fun k => ?_) hclear
          rcases side_cases side k with rfl | rfl
          · exact ⟨seq, hside⟩
          · exact ⟨n, hother⟩
    · refine .idle (fun side => ?_)
      cases hside : s.producer side with
      | timing n => rfl
      | returned => rfl
      | sending n => exact absurd ⟨side, n, hside⟩ hany
  · intro round' receive winner heq k n hwaiting
    rw [hproducer]
    exact received_ne_sending (s.producer k) n

theorem Orderly.only_match (h : Orderly P s) {side : Side} {round : Nat} {text : Text}
    {receive : Side → Receive} {winner : Option Side}
    (hloop : s.loop = .selecting round receive winner) (hmatched : receive side = .matched text) :
    receive side.other = .waiting ∧ winner = none := by
  cases h.shape _ _ _ hloop with
  | idle hall => cases (hall side).symm.trans hmatched
  | one k found hk hkother =>
      rcases side_cases side k with rfl | rfl
      · exact ⟨hkother, rfl⟩
      · rw [other_other] at hkother
        cases hkother.symm.trans hmatched
  | won k found hk hkother =>
      rcases side_cases side k with rfl | rfl
      · cases hk.symm.trans hmatched
      · rw [other_other] at hkother
        cases hkother.symm.trans hmatched

/-- The completion of the one receive that met a sender cancels the other. -/
theorem Orderly.complete (h : Orderly P s) {side : Side} {round : Nat} {text : Text}
    {receive : Side → Receive} (hloop : s.loop = .selecting round receive none)
    (hmatched : receive side = .matched text) (hproducer : s'.producer = s.producer)
    (hloop' : s'.loop = .selecting round
      (Function.update (fun k => (receive k).cancel) side (.completed text)) (some side))
    (hprinted : s'.printed = s.printed) : Orderly P s' := by
  have hother := (h.only_match hloop hmatched).1
  have hcancelled : (Function.update (fun k => (receive k).cancel) side (.completed text))
      side.other = .cancelled := by
    rw [Function.update_of_ne (other_ne side), hother]
    rfl
  constructor
  · intro k
    have hold := h.texts k
    rw [State.inFlight, hloop, State.accepted] at hold
    rw [State.printedOf, hprinted, State.inFlight, hloop', State.accepted, hproducer]
    rcases side_cases side k with rfl | rfl
    · simp only [hmatched] at hold
      simp only [Function.update_self]
      exact hold
    · simp only [hother] at hold
      simp only [hcancelled]
      exact hold
  · rw [hproducer]
    exact h.producers
  · have hold := h.rounds
    rw [hloop] at hold
    rw [hloop', hprinted]
    exact hold
  · intro round' receive' winner' heq
    cases hloop'.symm.trans heq
    exact .won side text (Function.update_self ..) hcancelled
  · intro round' receive' winner' heq k n hwaiting
    cases hloop'.symm.trans heq
    rcases side_cases side k with rfl | rfl
    · rw [Function.update_self] at hwaiting
      cases hwaiting
    · cases hcancelled.symm.trans hwaiting

theorem Orderly.print (h : Orderly P s) {side : Side} {round : Nat} {text : Text}
    {receive : Side → Receive} (hloop : s.loop = .selecting round receive (some side))
    (hcompleted : receive side = .completed text) (hproducer : s'.producer = s.producer)
    (hloop' : s'.loop = .starting (round + 1))
    (hprinted : s'.printed = s.printed ++ [(side, text)]) : Orderly P s' := by
  have hother : receive side.other = .cancelled := by
    cases h.shape _ _ _ hloop with
    | won k found hk hkother => exact hkother
  constructor
  · intro k
    have hold := h.texts k
    rw [State.inFlight, hloop, State.accepted] at hold
    rw [State.printedOf, hprinted, State.inFlight, hloop', State.accepted, hproducer,
      History.filterMap_snoc, List.append_nil]
    rcases side_cases side k with rfl | rfl
    · simp only [hcompleted] at hold
      rw [if_pos rfl]
      exact hold
    · simp only [hother] at hold
      rw [if_neg (Ne.symm (other_ne side))]
      exact hold
  · rw [hproducer]
    exact h.producers
  · have hold := h.rounds
    rw [hloop] at hold
    rw [hloop', hprinted, List.length_append]
    exact ⟨congrArg (· + 1) hold.1, Nat.add_le_add_right hold.2 1⟩
  · intro round' receive' winner' heq
    cases hloop'.symm.trans heq
  · intro round' receive' winner' heq
    cases hloop'.symm.trans heq

theorem Orderly.loopReturns (h : Orderly P s) {round : Nat} (hloop : s.loop = .starting round)
    (hround : P.rounds < round) (hproducer : s'.producer = s.producer)
    (hloop' : s'.loop = .returned) (hprinted : s'.printed = s.printed) : Orderly P s' := by
  constructor
  · intro k
    have hold := h.texts k
    rw [State.inFlight, hloop, State.accepted] at hold
    rw [State.printedOf, hprinted, State.inFlight, hloop', State.accepted, hproducer]
    exact hold
  · rw [hproducer]
    exact h.producers
  · have hold := h.rounds
    rw [hloop] at hold
    rw [hloop', hprinted]
    obtain ⟨hlength, hle⟩ := hold
    show s.printed.length = P.rounds
    omega
  · intro round' receive winner heq
    cases hloop'.symm.trans heq
  · intro round' receive winner heq
    cases hloop'.symm.trans heq

theorem Orderly.step (h : Orderly P s) {act : Act} (hclear : ¬ s.Collides act)
    (hstep : Step P s act s') : Orderly P s' := by
  cases act with
  | timerFires side =>
      obtain ⟨seq, hpc, hseq, rfl⟩ := hstep
      exact h.timerFires hpc hseq hclear
  | producerReturns side =>
      obtain ⟨seq, hpc, hseq, rfl⟩ := hstep
      exact h.producerReturns hpc hseq rfl rfl rfl
  | startRound =>
      obtain ⟨round, hloop, hround, rfl⟩ := hstep
      exact h.startRound hloop hround hclear rfl rfl rfl
  | complete side =>
      obtain ⟨round, receive, winner, text, hloop, hmatched, rfl⟩ := hstep
      obtain ⟨-, rfl⟩ := h.only_match hloop hmatched
      exact h.complete hloop hmatched rfl rfl rfl
  | print =>
      obtain ⟨round, receive, side, text, hloop, hcompleted, -, rfl⟩ := hstep
      exact h.print hloop hcompleted rfl rfl rfl
  | loopReturns =>
      obtain ⟨round, hloop, hround, rfl⟩ := hstep
      exact h.loopReturns hloop hround rfl rfl rfl

theorem Orderly.accepted_le (h : Orderly P s) (side : Side) :
    s.accepted P side ≤ P.count side := by
  have hvalid := h.producers side
  rw [State.accepted]
  cases hpc : s.producer side with
  | timing seq =>
      rw [hpc] at hvalid
      have hle := hvalid.2
      simp only [ProducerPc.accepted]
      omega
  | sending seq =>
      rw [hpc] at hvalid
      have hle := hvalid.2
      simp only [ProducerPc.accepted]
      omega
  | returned => exact Nat.le_refl _

/-- What has been received is what has been printed and what is in flight. -/
theorem Orderly.accepted_sum (h : Orderly P s) :
    s.accepted P .fast + s.accepted P .slow =
      s.printed.length + ((s.inFlight .fast).length + (s.inFlight .slow).length) := by
  have hlength : ∀ side, s.accepted P side =
      (s.printedOf side).length + (s.inFlight side).length := by
    intro side
    have htexts := congrArg List.length (h.texts side)
    rw [List.length_append, Producers.texts, List.length_map, List.length_range'] at htexts
    exact htexts.symm
  have hprinted := printed_length s.printed
  rw [hlength, hlength, ← hprinted, State.printedOf, State.printedOf]
  omega

theorem Orderly.not_waiting (h : Orderly P s)
    (hall : ∀ side, s.accepted P side = P.count side) : ¬ s.Waiting := by
  rintro ⟨round, receive, winner, hloop, hwaiting⟩
  have hnone : ∀ side, s.inFlight side = [] := by
    intro side
    rw [State.inFlight, hloop]
    simp only [hwaiting]
  have hsum := h.accepted_sum
  rw [hall, hall, hnone, hnone] at hsum
  have hrounds := h.rounds
  rw [hloop] at hrounds
  obtain ⟨hround, hle⟩ := hrounds
  simp only [Producers.rounds, List.length_nil] at hle hsum
  omega

theorem Orderly.all_printed (h : Orderly P s) (hloop : s.loop = .returned) (side : Side) :
    s.printedOf side = P.texts side (P.count side) := by
  have hnone : ∀ side, s.inFlight side = [] := by
    intro side
    rw [State.inFlight, hloop]
  have hsum := h.accepted_sum
  rw [hnone, hnone] at hsum
  have hrounds : s.printed.length = P.rounds := by
    have hrounds := h.rounds
    rw [hloop] at hrounds
    exact hrounds
  have hfast := h.accepted_le .fast
  have hslow := h.accepted_le .slow
  have haccepted : s.accepted P side = P.count side := by
    simp only [Producers.rounds, List.length_nil] at hrounds hsum
    cases side <;> omega
  have htexts := h.texts side
  rwa [hnone, List.append_nil, haccepted] at htexts

/-- The steps that a producer may still make. -/
def ProducerPc.work (count : Nat) : ProducerPc → Nat
  | .timing seq => count + 2 - seq
  | .sending seq => count + 1 - seq
  | .returned => 0

/-- The steps that the loop may still make: it starts a round, a receive completes,
and the line is printed. -/
def LoopPc.work (rounds : Nat) : LoopPc → Nat
  | .starting round => 3 * (rounds + 1 - round) + 1
  | .selecting round _ none => 3 * (rounds - round) + 3
  | .selecting round _ (some _) => 3 * (rounds - round) + 2
  | .returned => 0

def State.work (P : Producers) (s : State) : Nat :=
  (s.producer .fast).work (P.count .fast) + (s.producer .slow).work (P.count .slow) +
    s.loop.work P.rounds

theorem work_received (count : Nat) (pc : ProducerPc) : pc.received.work count = pc.work count := by
  cases pc with
  | timing seq => rfl
  | sending seq =>
      simp only [ProducerPc.received, ProducerPc.work]
      omega
  | returned => rfl

/-- A producer makes a step that leaves the loop where it is. -/
theorem work_producer_lt {side : Side} {pc : ProducerPc}
    (hlt : pc.work (P.count side) < (s.producer side).work (P.count side))
    (hproducer : s'.producer = Function.update s.producer side pc)
    (hloop : s'.loop.work P.rounds = s.loop.work P.rounds) : s'.work P < s.work P := by
  unfold State.work
  rw [hproducer, hloop]
  cases side with
  | fast =>
      rw [Function.update_self, Function.update_of_ne (by decide : Side.slow ≠ .fast)]
      omega
  | slow =>
      rw [Function.update_self, Function.update_of_ne (by decide : Side.fast ≠ .slow)]
      omega

/-- The timer of a producer fires once for each message. -/
theorem work_send_lt {side : Side} {seq : Nat} (hpc : s.producer side = .timing seq)
    (hseq : seq ≤ P.count side) : (s.send P side seq).work P < s.work P := by
  have hlt (pc : ProducerPc) (hpc' : pc = .timing (seq + 1) ∨ pc = .sending seq) :
      pc.work (P.count side) < (s.producer side).work (P.count side) := by
    rw [hpc]
    rcases hpc' with rfl | rfl <;> simp only [ProducerPc.work] <;> omega
  unfold State.send
  split
  · next round receive winner hloop =>
      split
      · refine work_producer_lt (hlt _ (Or.inl rfl)) rfl ?_
        rw [hloop]
        cases winner <;> rfl
      · exact work_producer_lt (hlt _ (Or.inr rfl)) rfl (by rw [hloop])
  · next hloop => exact work_producer_lt (hlt _ (Or.inr rfl)) rfl (by rw [hloop])
  · next hloop => exact work_producer_lt (hlt _ (Or.inr rfl)) rfl (by rw [hloop])

/-- Every step does some of the work. -/
theorem Orderly.work_lt (h : Orderly P s) {act : Act} (hstep : Step P s act s') :
    s'.work P < s.work P := by
  cases act with
  | timerFires side =>
      obtain ⟨seq, hpc, hseq, rfl⟩ := hstep
      exact work_send_lt hpc hseq
  | producerReturns side =>
      obtain ⟨seq, hpc, -, rfl⟩ := hstep
      have hle := (hpc ▸ h.producers side : (ProducerPc.timing seq).Valid _).2
      have hlt : ProducerPc.returned.work (P.count side) <
          (s.producer side).work (P.count side) := by
        rw [hpc]
        simp only [ProducerPc.work]
        omega
      exact work_producer_lt hlt rfl rfl
  | startRound =>
      obtain ⟨round, hloop, hround, rfl⟩ := hstep
      simp only [State.work, hloop, LoopPc.work, work_received]
      omega
  | complete side =>
      obtain ⟨round, receive, winner, text, hloop, hmatched, rfl⟩ := hstep
      obtain ⟨-, rfl⟩ := h.only_match hloop hmatched
      simp only [State.work, hloop, LoopPc.work]
      omega
  | print =>
      obtain ⟨round, receive, side, text, hloop, -, -, rfl⟩ := hstep
      have hround := (hloop ▸ h.rounds : (LoopPc.selecting round receive (some side)).Rounds _ _).2
      simp only [State.work, hloop, LoopPc.work]
      omega
  | loopReturns =>
      obtain ⟨round, hloop, -, rfl⟩ := hstep
      simp only [State.work, hloop, LoopPc.work]
      omega

/-- Where no step is left the loop does not wait: the receive of a running round would
have met a sender, and a sender that is left would meet a receive. -/
theorem Orderly.returned_of_stuck (h : Orderly P s) (hstuck : ∀ act s', ¬ Step P s act s') :
    s.loop = .returned := by
  have hproducer : ∀ side seq, s.producer side ≠ .timing seq := by
    intro side seq hpc
    rcases Nat.lt_or_ge (P.count side) seq with hlt | hge
    · exact hstuck (.producerReturns side) _ ⟨seq, hpc, hlt, rfl⟩
    · exact hstuck (.timerFires side) _ ⟨seq, hpc, hge, rfl⟩
  cases hloop : s.loop with
  | returned => rfl
  | starting round =>
      rcases Nat.lt_or_ge P.rounds round with hlt | hge
      · exact absurd ⟨round, hloop, hlt, rfl⟩ (hstuck .loopReturns _)
      · exact absurd ⟨round, hloop, hge, rfl⟩ (hstuck .startRound _)
  | selecting round receive winner =>
      cases h.shape _ _ _ hloop with
      | one side text hmatched _ =>
          exact absurd ⟨round, receive, _, text, hloop, hmatched, rfl⟩ (hstuck (.complete side) _)
      | won side text hcompleted hother =>
          refine absurd ⟨round, receive, side, text, hloop, hcompleted, ?_, rfl⟩ (hstuck .print _)
          rw [hother]
          rfl
      | idle hwaiting =>
          refine absurd ⟨round, receive, _, hloop, hwaiting⟩ (h.not_waiting fun side => ?_)
          rw [State.accepted]
          cases hpc : s.producer side with
          | timing seq => exact absurd hpc (hproducer side seq)
          | sending seq => exact absurd hpc (h.met _ _ _ hloop side seq (hwaiting side))
          | returned => rfl

theorem Orderly.all_accepted (h : Orderly P s) (hloop : s.loop = .returned) (side : Side) :
    s.accepted P side = P.count side := by
  have hprinted := congrArg List.length (h.texts side)
  have hnone : s.inFlight side = [] := by rw [State.inFlight, hloop]
  rw [h.all_printed hloop side, hnone, List.append_nil] at hprinted
  simpa [Producers.texts] using hprinted.symm

/-- The producers of a state without a step have returned too. -/
theorem Orderly.producer_of_stuck (h : Orderly P s) (hstuck : ∀ act s', ¬ Step P s act s')
    (side : Side) : s.producer side = .returned := by
  have haccepted := h.all_accepted (h.returned_of_stuck hstuck) side
  have hvalid := h.producers side
  rw [State.accepted] at haccepted
  cases hpc : s.producer side with
  | timing seq =>
      rcases Nat.lt_or_ge (P.count side) seq with hlt | hge
      · exact absurd ⟨seq, hpc, hlt, rfl⟩ (hstuck (.producerReturns side) _)
      · exact absurd ⟨seq, hpc, hge, rfl⟩ (hstuck (.timerFires side) _)
  | sending seq =>
      rw [hpc] at haccepted hvalid
      obtain ⟨hpos, hle⟩ := hvalid
      simp only [ProducerPc.accepted] at haccepted
      omega
  | returned => rfl

end Steps

/-- The system in which no round takes two messages. -/
def clearSystem (P : Producers) : System State Act :=
  (selectSystem P).restrict (fun s act => ¬ s.Collides act)

/-- Without a collision every message received is printed once or belongs to the
running round, the loop never waits when all have been received, and when it
returns all have been printed. It does return: a run has a bounded number of steps,
and where none is possible the loop and both producers have returned. -/
theorem select_loses_nothing {P : Producers} {labels : List Act} {s : State}
    (hrun : (clearSystem P).Run {} labels s) :
    (∀ side, s.printedOf side ++ s.inFlight side = P.texts side (s.accepted P side)) ∧
    ((∀ side, s.accepted P side = P.count side) → ¬ s.Waiting) ∧
    (s.loop = .returned → ∀ side, s.printedOf side = P.texts side (P.count side)) ∧
    labels.length ≤ 4 * P.rounds + 3 ∧
    ((∀ act s', ¬ (selectSystem P).step s act s') → s.loop = .returned ∧
      ∀ side, s.producer side = .returned ∧
        s.printedOf side = P.texts side (P.count side)) := by
  have horderly : Orderly P s :=
    hrun.preserves (I := Orderly P)
      (fun _ _ _ h (hstep : _ ∧ _) => h.step hstep.1 hstep.2) (orderly_initial P)
  have hlength : labels.length + s.work P ≤ State.work P {} :=
    hrun.length_le (I := Orderly P)
      (fun _ _ _ h (hstep : _ ∧ _) => ⟨h.step hstep.1 hstep.2, h.work_lt hstep.2⟩)
      (orderly_initial P)
  have hwork : State.work P {} = 4 * P.rounds + 3 := by
    simp only [State.work, ProducerPc.work, LoopPc.work, Producers.rounds]
    omega
  refine ⟨horderly.texts, horderly.not_waiting, horderly.all_printed, by omega, fun hstuck => ?_⟩
  have hreturned := horderly.returned_of_stuck hstuck
  exact ⟨hreturned, fun side =>
    ⟨horderly.producer_of_stuck hstuck side, horderly.all_printed hreturned side⟩⟩

theorem not_collides_startRound {s : State} {seq : Nat} (h : s.producer .fast = .timing seq) :
    ¬ s.Collides .startRound := by
  intro hall
  obtain ⟨n, hn⟩ := hall .fast
  cases h.symm.trans hn

theorem not_collides_timerFires {s : State} {side : Side} {round : Nat} {receive : Side → Receive}
    {winner : Option Side} (hloop : s.loop = .selecting round receive winner)
    (h : receive side.other = .waiting ∨ receive side = .cancelled) :
    ¬ s.Collides (.timerFires side) := by
  rintro ⟨_, _, _, text, heq, hwaiting, hother⟩
  cases hloop.symm.trans heq
  rcases h with h | h
  · cases h.symm.trans hother
  · cases h.symm.trans hwaiting

def tickTock : Producers where
  label side := if side = .fast then "tick".toList else "tock".toList
  count _ := 1

/-- A tick, then a tock, in a run to the end. -/
theorem select_loses_nothing_in_turn : ∃ labels s,
    (clearSystem tickTock).Run {} labels s ∧ s.loop = .returned ∧
      (∀ act s', ¬ (selectSystem tickTock).step s act s') ∧
      s.printedOf .fast = ["tick 1".toList] ∧ s.printedOf .slow = ["tock 1".toList] ∧
      labels.length ≤ 11 := by
  obtain ⟨labels, s, hrun, hloop, hproducer⟩ : ∃ labels s,
      (clearSystem tickTock).Run {} labels s ∧ s.loop = .returned ∧
        ∀ side, s.producer side = .returned :=
    ⟨_, _,
      Run.cons Act.startRound ⟨not_collides_startRound rfl, _, rfl, by decide, rfl⟩ <|
      Run.cons (Act.timerFires .fast) ⟨not_collides_timerFires rfl (Or.inl rfl), _, rfl, by decide,
        rfl⟩ <|
      Run.cons (Act.complete .fast) ⟨id, _, _, _, _, rfl, rfl, rfl⟩ <|
      Run.cons (Act.timerFires .slow) ⟨not_collides_timerFires rfl (Or.inr rfl), _, rfl, by decide,
        rfl⟩ <|
      Run.cons Act.print ⟨id, _, _, _, _, rfl, rfl, rfl, rfl⟩ <|
      Run.cons Act.startRound ⟨not_collides_startRound rfl, _, rfl, by decide, rfl⟩ <|
      Run.cons (Act.complete .slow) ⟨id, _, _, _, _, rfl, rfl, rfl⟩ <|
      Run.cons Act.print ⟨id, _, _, _, _, rfl, rfl, rfl, rfl⟩ <|
      Run.cons Act.loopReturns ⟨id, _, rfl, by decide, rfl⟩ <|
      Run.cons (Act.producerReturns .fast) ⟨id, _, rfl, by decide, rfl⟩ <|
      Run.cons (Act.producerReturns .slow) ⟨id, _, rfl, by decide, rfl⟩ .nil,
      rfl, fun side => by cases side <;> rfl⟩
  have hstuck : ∀ act s', ¬ (selectSystem tickTock).step s act s' := by
    intro act s' hstep
    cases act with
    | timerFires side | producerReturns side =>
        obtain ⟨seq, hpc, -⟩ := hstep
        cases (hproducer side).symm.trans hpc
    | startRound | loopReturns =>
        obtain ⟨round, heq, -⟩ := hstep
        cases hloop.symm.trans heq
    | complete side =>
        obtain ⟨round, receive, winner, text, heq, -⟩ := hstep
        cases hloop.symm.trans heq
    | print =>
        obtain ⟨round, receive, side, text, heq, -⟩ := hstep
        cases hloop.symm.trans heq
  obtain ⟨-, -, -, hlength, hend⟩ := select_loses_nothing hrun
  obtain ⟨-, hprinted⟩ := hend hstuck
  refine ⟨labels, s, hrun, hloop, hstuck, ?_, ?_, hlength⟩
  · rw [(hprinted .fast).2]
    decide
  · rw [(hprinted .slow).2]
    decide

/-- Both producers send while the first round waits: the tock is dropped, and the
second round waits for a message when both have been received. -/
theorem select_loses_tock : ∃ labels s, (selectSystem tickTock).Run {} labels s ∧
    (∀ side, s.accepted tickTock side = tickTock.count side) ∧ s.Waiting ∧
      s.printedOf .slow = [] ∧ s.inFlight .slow = [] :=
  ⟨_, _,
    Run.cons Act.startRound ⟨_, rfl, by decide, rfl⟩ <|
    Run.cons (Act.timerFires .fast) ⟨_, rfl, by decide, rfl⟩ <|
    Run.cons (Act.timerFires .slow) ⟨_, rfl, by decide, rfl⟩ <|
    Run.cons (Act.complete .fast) ⟨_, _, _, _, rfl, rfl, rfl⟩ <|
    Run.cons (Act.complete .slow) ⟨_, _, _, _, rfl, rfl, rfl⟩ <|
    Run.cons Act.print ⟨_, _, _, _, rfl, rfl, rfl, rfl⟩ <|
    Run.cons (Act.producerReturns .fast) ⟨_, rfl, by decide, rfl⟩ <|
    Run.cons (Act.producerReturns .slow) ⟨_, rfl, by decide, rfl⟩ <|
    Run.cons Act.startRound ⟨_, rfl, by decide, rfl⟩ .nil,
    fun side => by cases side <;> rfl,
    ⟨_, _, _, rfl, fun side => by cases side <;> rfl⟩, rfl, rfl⟩

end CppWorkspace.Csp.CspSelect
