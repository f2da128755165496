import CppWorkspace.Actors.GenServer
import CppWorkspace.Lib.History

/-!
What a run of the counter server has sent and handled, and what its calls
return: the mailbox holds what was sent and not handled, in order, and a call
returns the sum of the increments handled before it.
-/

namespace CppWorkspace.Actors.GenServer

open Lib System

variable {ι : Type*}

def Message.amount : Message ι → Int
  | .increment amount => amount
  | .getValue _ | .stop => 0

def sumIncrements (messages : List (Message ι)) : Int := (messages.map Message.amount).sum

/-- The message that enters the mailbox in a step. -/
def Act.sent : Act ι → Option (Message ι)
  | .cast _ => some (.increment 1)
  | .call caller => some (.getValue caller)
  | .stop => some .stop
  | .firstDone _ | .result _ _ | .secondDone _ | .join | .handle _ | .sendReply _ => none

def Act.taken : Act ι → Option (Message ι)
  | .handle message => some message
  | .cast _ | .call _ | .stop | .firstDone _ | .result _ _ | .secondDone _ | .join
  | .sendReply _ => none

def sentMessages (labels : List (Act ι)) : List (Message ι) := labels.filterMap Act.sent

def handledMessages (labels : List (Act ι)) : List (Message ι) := labels.filterMap Act.taken

@[simp] theorem sumIncrements_append (first second : List (Message ι)) :
    sumIncrements (first ++ second) = sumIncrements first + sumIncrements second := by
  simp [sumIncrements]

@[simp] theorem sentMessages_append (labels : List (Act ι)) (label : Act ι) :
    sentMessages (labels ++ [label]) = sentMessages labels ++ label.sent.toList :=
  History.filterMap_snoc Act.sent labels label

@[simp] theorem handledMessages_append (labels : List (Act ι)) (label : Act ι) :
    handledMessages (labels ++ [label]) = handledMessages labels ++ label.taken.toList :=
  History.filterMap_snoc Act.taken labels label

variable [DecidableEq ι]

/-- The increments before the call of `caller`. -/
def sumBefore (messages : List (Message ι)) (caller : Caller ι) : Int :=
  sumIncrements (messages.takeWhile (fun message => message ≠ .getValue caller))

/-- The increments that a client has sent. -/
def castsBy (labels : List (Act ι)) (i : ι) : Nat := labels.count (.cast i)

theorem sumBefore_append_of_mem {messages : List (Message ι)} {caller : Caller ι}
    (h : .getValue caller ∈ messages) (more : List (Message ι)) :
    sumBefore (messages ++ more) caller = sumBefore messages caller := by
  induction messages with
  | nil => cases h
  | cons message rest ih =>
      simp only [sumBefore, List.cons_append, List.takeWhile_cons] at ih ⊢
      split
      · next hne =>
        have hrest : .getValue caller ∈ rest := by
          rcases List.mem_cons.mp h with rfl | hrest
          · simp at hne
          · exact hrest
        have heq := ih hrest
        simp only [sumIncrements, List.map_cons, List.sum_cons] at heq ⊢
        rw [heq]
      · rfl

/-- The messages sent before a call are those of the steps before it. -/
theorem sumBefore_sentMessages (labels : List (Act ι)) (caller : Caller ι) :
    sumBefore (sentMessages labels) caller =
      sumIncrements (sentMessages (labels.takeWhile (fun label => label ≠ .call caller))) := by
  induction labels with
  | nil => rfl
  | cons label rest ih =>
      simp only [sumBefore, sentMessages] at ih ⊢
      by_cases hcall : label = .call caller
      · subst hcall
        simp [Act.sent]
      · rw [List.takeWhile_cons_of_pos (by simpa using hcall), List.filterMap_cons,
          List.filterMap_cons]
        cases hsent : label.sent with
        | none => exact ih
        | some message =>
            have hne : message ≠ .getValue caller := by
              rintro rfl
              cases label <;> cases hsent
              exact hcall rfl
            rw [List.takeWhile_cons_of_pos (by simpa using hne)]
            simp only [sumIncrements, List.map_cons, List.sum_cons] at ih ⊢
            rw [ih]

theorem castsBy_append (labels : List (Act ι)) (label : Act ι) (i : ι) :
    castsBy (labels ++ [label]) i = castsBy labels i + if label = .cast i then 1 else 0 := by
  rw [castsBy, List.count_append, List.count_singleton, castsBy]
  simp only [beq_iff_eq]

/-- The increments sent are those of all clients together. -/
theorem sumIncrements_sentMessages [Fintype ι] (labels : List (Act ι)) :
    sumIncrements (sentMessages labels) = ∑ i, (castsBy labels i : Int) := by
  induction labels using List.reverseRecOn with
  | nil => simp [sumIncrements, sentMessages, castsBy]
  | append_singleton labels label ih =>
      simp only [castsBy_append, Nat.cast_add]
      rw [sentMessages_append, sumIncrements_append, ih, Finset.sum_add_distrib]
      congr 1
      cases label <;> simp [Act.sent, sumIncrements, Message.amount]

theorem castsBy_le (labels : List (Act ι)) (i : ι) :
    (castsBy labels i : Int) ≤ sumIncrements (sentMessages labels) := by
  induction labels using List.reverseRecOn with
  | nil => simp [sumIncrements, sentMessages, castsBy]
  | append_singleton labels label ih =>
      have hlabel : ((if label = .cast i then 1 else 0 : Nat) : Int) ≤
          sumIncrements label.sent.toList := by
        cases label with
        | cast j =>
            simp only [Act.sent, Option.toList_some, sumIncrements, List.map_cons, List.map_nil,
              List.sum_cons, List.sum_nil, Message.amount]
            split <;> simp
        | _ => simp [Act.sent, sumIncrements, Message.amount]
      rw [castsBy_append, sentMessages_append, sumIncrements_append, Nat.cast_add]
      omega

end CppWorkspace.Actors.GenServer
