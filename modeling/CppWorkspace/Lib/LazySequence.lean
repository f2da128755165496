import Mathlib

/-!
Sequences that are computed on demand. A body goes on from one state to the next
and yields a value each time, until it returns or throws, if it ever does; a puller
makes it go on, once for each call.
-/

namespace CppWorkspace.Lib

variable {β V E γ : Type*}

/-- What a body does when it goes on. -/
inductive Activation (β V E : Type*) where
  | yields (v : V) (b : β)
  | returns
  | throws (e : E)

/-- How far a body has come. -/
inductive Progress (β E : Type*) where
  | suspended (b : β)
  | returned
  | threw (e : E)

/-- A body that starts at `b` yields the values of the list, in this order, and has then
come as far as the progress says. -/
inductive Emits (code : β → Activation β V E) (b : β) : List V → Progress β E → Prop
  | start : Emits code b [] (.suspended b)
  | yields {vs : List V} {b' b'' : β} {v : V} :
      Emits code b vs (.suspended b') → code b' = .yields v b'' →
      Emits code b (vs ++ [v]) (.suspended b'')
  | returns {vs : List V} {b' : β} :
      Emits code b vs (.suspended b') → code b' = .returns → Emits code b vs .returned
  | throws {vs : List V} {b' : β} {e : E} :
      Emits code b vs (.suspended b') → code b' = .throws e → Emits code b vs (.threw e)

namespace Progress

/-- The state from which the body goes on, if it does. -/
def point : Progress β E → Option β
  | suspended b => some b
  | returned | threw _ => none

def exception : Progress β E → Option E
  | threw e => some e
  | suspended _ | returned => none

/-- The answers to the calls for the values and to those that come after the last value:
one call finds the end or the exception, and `more` calls are made after it. -/
def answers (p : Progress β E) (values more : ℕ) : List (Except E Bool) :=
  List.replicate values (.ok true) ++
    match p with
    | suspended _ => []
    | returned => List.replicate (more + 1) (.ok false)
    | threw e => .error e :: List.replicate more (.ok false)

@[simp] theorem length_answers_suspended (b : β) (values more : ℕ) :
    (answers (.suspended b : Progress β E) values more).length = values := by
  simp [answers]

/-- No call is answered before the values are there. -/
theorem le_length_answers (p : Progress β E) (values more : ℕ) :
    values ≤ (p.answers values more).length := by
  cases p <;> simp [answers]

end Progress

/-- The calls made so far have been answered as they should be, the body has yielded `vs`
and has come as far as `p`. -/
structure Pulled (code : β → Activation β V E) (b : β) (vs : List V) (p : Progress β E)
    (answers : List (Except E Bool)) : Prop where
  emits : Emits code b vs p
  answered : ∃ more, answers = p.answers vs.length more

namespace Pulled

variable {code : β → Activation β V E} {b b' b'' : β} {vs : List V} {v : V} {e : E}
  {p : Progress β E} {answers : List (Except E Bool)}

theorem start (code : β → Activation β V E) (b : β) : Pulled code b [] (.suspended b) [] :=
  ⟨.start, 0, rfl⟩

theorem yields (h : Pulled code b vs (.suspended b') answers) (hcode : code b' = .yields v b'') :
    Pulled code b (vs ++ [v]) (.suspended b'') (answers ++ [.ok true]) := by
  obtain ⟨hemits, more, rfl⟩ := h
  refine ⟨hemits.yields hcode, more, ?_⟩
  simp only [Progress.answers, List.append_nil, List.length_append, List.length_singleton]
  rw [List.replicate_succ']

theorem returns (h : Pulled code b vs (.suspended b') answers) (hcode : code b' = .returns) :
    Pulled code b vs .returned (answers ++ [.ok false]) := by
  obtain ⟨hemits, more, rfl⟩ := h
  refine ⟨hemits.returns hcode, 0, ?_⟩
  simp [Progress.answers]

theorem throws (h : Pulled code b vs (.suspended b') answers) (hcode : code b' = .throws e) :
    Pulled code b vs (.threw e) (answers ++ [.error e]) := by
  obtain ⟨hemits, more, rfl⟩ := h
  refine ⟨hemits.throws hcode, 0, ?_⟩
  simp [Progress.answers]

/-- Calls after the end are answered without the body. -/
theorem ended (h : Pulled code b vs p answers) (hp : p.point = none) :
    Pulled code b vs p (answers ++ [.ok false]) := by
  obtain ⟨hemits, more, rfl⟩ := h
  refine ⟨hemits, more + 1, ?_⟩
  cases p with
  | suspended b' => cases hp
  | returned =>
      simp only [Progress.answers, List.append_assoc]
      rw [← List.replicate_succ']
  | threw e =>
      simp only [Progress.answers, List.append_assoc, List.cons_append]
      rw [← List.replicate_succ']

theorem length_of_suspended (h : Pulled code b vs (.suspended b') answers) :
    answers.length = vs.length := by
  obtain ⟨-, more, rfl⟩ := h
  exact Progress.length_answers_suspended ..

theorem length_le (h : Pulled code b vs p answers) : vs.length ≤ answers.length := by
  obtain ⟨-, more, rfl⟩ := h
  exact Progress.le_length_answers ..

end Pulled

section Consumers

variable [DecidableEq γ]

/-- The values that went to one of the consumers, when the `k`-th call was made by the
`k`-th entry of `consumers`. -/
def deliveredTo (c : γ) (consumers : List γ) (vs : List V) : List V :=
  ((consumers.zip vs).filter fun d => d.1 = c).map Prod.snd

variable {c c' : γ} {consumers : List γ} {vs : List V} {v : V}

theorem deliveredTo_value (hlength : consumers.length = vs.length) :
    deliveredTo c (consumers ++ [c']) (vs ++ [v]) =
      deliveredTo c consumers vs ++ if c' = c then [v] else [] := by
  rw [deliveredTo, List.zip_append hlength, List.filter_append, List.map_append]
  congr 1
  by_cases h : c' = c <;> simp [h]

/-- A call that is answered without a value delivers nothing. -/
theorem deliveredTo_nothing (hlength : vs.length ≤ consumers.length) :
    deliveredTo c (consumers ++ [c']) vs = deliveredTo c consumers vs := by
  have hzip : (consumers ++ [c']).zip vs = consumers.zip vs := by
    induction consumers generalizing vs with
    | nil =>
        rw [List.length_eq_zero_iff.mp (Nat.le_zero.mp hlength)]
        rfl
    | cons first rest ih =>
        cases vs with
        | nil => rfl
        | cons v vs =>
            rw [List.cons_append, List.zip_cons_cons, List.zip_cons_cons,
              ih (Nat.le_of_succ_le_succ hlength)]
  rw [deliveredTo, hzip, deliveredTo]

theorem deliveredTo_eq_nil (h : c ∉ consumers) : deliveredTo c consumers vs = [] := by
  rw [deliveredTo, List.map_eq_nil_iff, List.filter_eq_nil_iff]
  intro d hd
  have hmem := (List.of_mem_zip hd).1
  rw [decide_eq_true_eq]
  rintro rfl
  exact h hmem

/-- A consumer that makes all the calls from some point on gets all the values from
there on. -/
theorem deliveredTo_eq_drop {n : ℕ} (hbefore : c ∉ consumers.take n)
    (hafter : ∀ c' ∈ consumers.drop n, c' = c) (hlength : vs.length ≤ consumers.length) :
    deliveredTo c consumers vs = vs.drop n := by
  have hsplit : consumers.zip vs = (consumers.take n).zip (vs.take n) ++
      (consumers.drop n).zip (vs.drop n) := by
    rw [List.zip_eq_zipWith, List.zip_eq_zipWith, List.zip_eq_zipWith, ← List.take_zipWith,
      ← List.drop_zipWith, List.take_append_drop]
  have hfirst : deliveredTo c (consumers.take n) (vs.take n) = [] := deliveredTo_eq_nil hbefore
  have hall : (((consumers.drop n).zip (vs.drop n)).filter fun d => d.1 = c) =
      (consumers.drop n).zip (vs.drop n) := by
    rw [List.filter_eq_self]
    intro d hd
    rw [decide_eq_true_eq]
    exact hafter d.1 (List.of_mem_zip hd).1
  have hlast : (vs.drop n).length ≤ (consumers.drop n).length := by
    rw [List.length_drop, List.length_drop]
    exact Nat.sub_le_sub_right hlength n
  rw [deliveredTo] at hfirst ⊢
  rw [hsplit, List.filter_append, List.map_append, hfirst, hall, List.nil_append]
  exact List.map_snd_zip hlast

end Consumers

end CppWorkspace.Lib
