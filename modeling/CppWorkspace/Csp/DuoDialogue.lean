import CppWorkspace.Csp.Duo

/-!
The dialogue of `csp_duo.cpp`. Both channels have one end in each coroutine, so that
one schedule tells where all lead to: the user is answered with the totals.
-/

namespace CppWorkspace.Csp.CspDuo

open Lib System

variable {calculator calculator' : Coroutine CalculatorPc} {user user' : Coroutine UserPc}
  {requests responses c : Channel ℤ}

@[simp] theorem duplexState_setCalculator :
    (duplexState calculator user requests responses).setProcess .calculator calculator' =
      duplexState calculator' user requests responses := by
  simp only [NetState.setProcess, duplexState, NetState.mk.injEq, true_and]
  funext p
  cases p <;> rfl

@[simp] theorem duplexState_setUser :
    (duplexState calculator user requests responses).setProcess .user user' =
      duplexState calculator user' requests responses := by
  simp only [NetState.setProcess, duplexState, NetState.mk.injEq, true_and]
  funext p
  cases p <;> rfl

@[simp] theorem duplexState_setRequests :
    (duplexState calculator user requests responses).setChannel .requests c =
      duplexState calculator user c responses := by
  simp only [NetState.setChannel, duplexState, NetState.mk.injEq, and_true]
  funext d
  cases d <;> rfl

def Line.writer : Line → Party
  | .requests => .user
  | .responses => .calculator

def Line.reader : Line → Party
  | .requests => .calculator
  | .responses => .user

theorem duplexProgram_wired : Wired duplexProgram Line.writer Line.reader where
  writes {p locals c what} h hwrites := by
    cases p with
    | calculator =>
        obtain ⟨pc, out⟩ := locals
        cases pc with
        | sending total => cases h; rfl
        | receiving total => cases h; exact absurd hwrites id
        | returned | threw | undefined => cases h
    | user =>
        obtain ⟨pc, out⟩ := locals
        cases pc with
        | looping deltas => cases deltas <;> (cases h; rfl)
        | receiving delta deltas => cases h; exact absurd hwrites id
        | returned | threw => cases h
  reads {p locals c what} h hreads := by
    cases p with
    | calculator =>
        obtain ⟨pc, out⟩ := locals
        cases pc with
        | sending total => cases h; exact absurd trivial hreads
        | receiving total => cases h; rfl
        | returned | threw | undefined => cases h
    | user =>
        obtain ⟨pc, out⟩ := locals
        cases pc with
        | looping deltas => cases deltas <;> (cases h; exact absurd trivial hreads)
        | receiving delta deltas => cases h; rfl
        | returned | threw => cases h

/-- The totals after each of the deltas. -/
def runningTotals (total : ℤ) : List ℤ → List ℤ
  | [] => []
  | delta :: deltas => (total + delta) :: runningTotals (total + delta) deltas

theorem runningTotals_eq (total : ℤ) (deltas : List ℤ) :
    runningTotals total deltas =
      (List.range deltas.length).map fun i => total + (deltas.take (i + 1)).sum := by
  induction deltas generalizing total with
  | nil => rfl
  | cons delta deltas ih =>
      rw [runningTotals, ih, List.length_cons, List.range_succ_eq_map, List.map_cons, List.map_map]
      simp [Function.comp_def, add_assoc]

variable {all deltas : List ℤ} {a b : ℕ} {total : ℤ} {calcOut userOut : List Text}

/-- One request and its answer. -/
theorem duplex_round {delta : ℤ} (hfits : FitsInt (total + delta)) (hrequests : requests.Meets)
    (hresponses : responses.Meets) :
    (duplexDemo all a b).Reaches
      (duplexState ⟨.receiving total, calcOut⟩ ⟨.looping (delta :: deltas), userOut⟩ requests
        responses)
      (duplexState ⟨.receiving (total + delta), calcOut⟩
        ⟨.looping deltas, userOut ++ [addText delta (total + delta)]⟩ requests responses) := by
  have hadd : CalculatorPc.add total delta = .sending (total + delta) := by
    rw [CalculatorPc.add, int_of_fits hfits]
  have hask : (duplexDemo all a b).Reaches _ _ := reaches_transfer
    (s := duplexState ⟨.receiving total, calcOut⟩ ⟨.looping (delta :: deltas), userOut⟩ requests
      responses) (p := .user) (q := .calculator) (c := .requests) rfl rfl hrequests
  have hanswer : (duplexDemo all a b).Reaches _ _ := reaches_transfer
    (s := duplexState ⟨.sending (total + delta), calcOut⟩ ⟨.receiving delta deltas, userOut⟩
      requests responses) (p := .calculator) (q := .user) (c := .responses) rfl rfl hresponses
  simp only [duplexState_setCalculator, duplexState_setUser, hadd] at hask hanswer
  exact hask.trans hanswer

/-- The user goes through its deltas. -/
theorem duplex_rounds (hfits : ∀ front, front <+: deltas → FitsInt (total + front.sum))
    (hrequests : requests.Meets) (hresponses : responses.Meets) :
    (duplexDemo all a b).Reaches
      (duplexState ⟨.receiving total, calcOut⟩ ⟨.looping deltas, userOut⟩ requests responses)
      (duplexState ⟨.receiving (total + deltas.sum), calcOut⟩
        ⟨.looping [], userOut ++ deltas.zipWith addText (runningTotals total deltas)⟩ requests
        responses) := by
  induction deltas generalizing total userOut with
  | nil => simpa using Reaches.refl _
  | cons delta deltas ih =>
      have hone : FitsInt (total + delta) := by
        simpa using hfits [delta] ⟨deltas, rfl⟩
      have hlater : ∀ front, front <+: deltas → FitsInt (total + delta + front.sum) := by
        intro front hfront
        have hall := hfits (delta :: front) (List.cons_prefix_cons.mpr ⟨rfl, hfront⟩)
        rwa [List.sum_cons, ← add_assoc] at hall
      have hrest := @ih _ (userOut ++ [addText delta (total + delta)]) hlater
      rw [add_assoc, ← List.sum_cons, List.append_assoc] at hrest
      exact (duplex_round hone hrequests hresponses).trans hrest

/-- The user hangs up. -/
theorem duplex_close (hrequests : requests.Meets) :
    (duplexDemo all a b).Reaches
      (duplexState ⟨.receiving total, calcOut⟩ ⟨.looping [], userOut⟩ requests responses)
      (duplexState ⟨.returned, calcOut ++ [closedText total]⟩ ⟨.returned, userOut⟩ requests.close
        responses) := by
  have hclose : (duplexDemo all a b).Reaches _ _ := reaches_close
    (s := duplexState ⟨.receiving total, calcOut⟩ ⟨.looping [], userOut⟩ requests responses)
    (p := .user) (c := .requests) rfl
  have hended : (duplexDemo all a b).Reaches _ _ := reaches_ended
    (s := duplexState ⟨.receiving total, calcOut⟩ ⟨.returned, userOut⟩ requests.close responses)
    (p := .calculator) (c := .requests) rfl ⟨rfl, hrequests.2⟩
  simp only [duplexState_setCalculator, duplexState_setUser,
    duplexState_setRequests] at hclose hended
  exact hclose.trans hended

/-- For every schedule the calculator answers each delta with the sum so far, and both
sides come to their end. -/
theorem duplex_answers_totals (deltas : List ℤ) (requestsCapacity responsesCapacity : ℕ)
    (hfits : ∀ front, front <+: deltas → FitsInt front.sum) :
    (duplexDemo deltas requestsCapacity responsesCapacity).LeadsTo
      (duplexStart deltas requestsCapacity responsesCapacity)
      (duplexState ⟨.returned, [closedText deltas.sum]⟩
        ⟨.returned, deltas.zipWith addText
          ((List.range deltas.length).map fun i => (deltas.take (i + 1)).sum)⟩
        (Channel.make requestsCapacity).close (.make responsesCapacity)) := by
  refine (duplexProgram_wired.commutes _).leadsTo (stuck_of_stopped ?_) ?_
  · intro p
    cases p <;> rfl
  · have htotals := runningTotals_eq 0 deltas
    simp only [zero_add] at htotals
    rw [← htotals]
    have hrounds : (duplexDemo deltas requestsCapacity responsesCapacity).Reaches
        (duplexStart deltas requestsCapacity responsesCapacity)
        (duplexState ⟨.receiving (0 + deltas.sum), []⟩
          ⟨.looping [], deltas.zipWith addText (runningTotals 0 deltas)⟩
          (.make requestsCapacity) (.make responsesCapacity)) :=
      duplex_rounds (by simpa only [zero_add] using hfits) (Channel.make_meets _)
        (Channel.make_meets _)
    rw [zero_add] at hrounds
    exact hrounds.trans (duplex_close (Channel.make_meets _))

/-- The deltas of the source. -/
theorem duplex_answers_totals_three :
    (duplexDemo [5, 7, 30] 0 0).LeadsTo (duplexStart [5, 7, 30] 0 0)
      (duplexState ⟨.returned, [closedText 42]⟩
        ⟨.returned, [addText 5 5, addText 7 12, addText 30 42]⟩ (Channel.make 0).close
        (.make 0)) := by
  refine duplex_answers_totals [5, 7, 30] 0 0 ?_
  intro front hfront
  have hmem := (List.mem_inits front _).mpr hfront
  fin_cases hmem <;> decide

end CppWorkspace.Csp.CspDuo
