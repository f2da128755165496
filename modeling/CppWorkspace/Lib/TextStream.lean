import Mathlib

/-!
Formatted input from a stream of characters, and decimal output: words are
separated by white space, and a number is the longest run of digits after an
optional sign.
-/

namespace CppWorkspace.Lib.TextStream

def isSpace (c : Char) : Bool :=
  c = ' ' ∨ c = '\t' ∨ c = '\n' ∨ c = '\x0b' ∨ c = '\x0c' ∨ c = '\x0d'

def skipSpaces (input : List Char) : List Char := input.dropWhile isSpace

/-- Reading a word; nothing is read at the end of the input. -/
def readWord (input : List Char) : Option (List Char × List Char) :=
  let rest := skipSpaces input
  let word := rest.takeWhile fun c => !isSpace c
  if word = [] then none else some (word, rest.dropWhile fun c => !isSpace c)

/-- An optional sign: whether it is a minus, and the rest. -/
def readSign : List Char → Bool × List Char
  | '-' :: rest => (true, rest)
  | '+' :: rest => (false, rest)
  | rest => (false, rest)

/-- Reading a number between `low` and `high`; what follows it stays in the
stream. -/
def readInt (low high : Int) (input : List Char) : Option (Int × List Char) :=
  let (negative, rest) := readSign (skipSpaces input)
  let digits := rest.takeWhile Char.isDigit
  let magnitude : Int := Nat.ofDigitChars 10 digits 0
  let value := if negative then -magnitude else magnitude
  if digits ≠ [] ∧ low ≤ value ∧ value ≤ high then
    some (value, rest.dropWhile Char.isDigit)
  else none

/-- Decimal output. -/
def showInt : Int → List Char
  | .ofNat n => Nat.toDigits 10 n
  | .negSucc n => '-' :: Nat.toDigits 10 (n + 1)

/-- The text before and after the last `sep`. -/
def splitLast (sep : Char) (text : List Char) : Option (List Char × List Char) :=
  if sep ∈ text then
    let after := (text.reverse.takeWhile fun c => c ≠ sep).reverse
    some (text.take (text.length - after.length - 1), after)
  else none

/-- The text up to the first newline, and what follows it. -/
def takeLine (text : List Char) : Option (List Char × List Char) :=
  if '\n' ∈ text then
    some (text.takeWhile fun c => c ≠ '\n', (text.dropWhile fun c => c ≠ '\n').tail)
  else none

theorem isDigit_of_mem_toDigits {c : Char} {n : Nat} (h : c ∈ Nat.toDigits 10 n) :
    c.isDigit = true :=
  Nat.isDigit_of_mem_toDigits (by omega) (by omega) h

theorem not_isSpace_of_isDigit {c : Char} (h : c.isDigit = true) : isSpace c = false := by
  by_contra hspace
  simp only [isSpace, Bool.decide_or, Bool.or_eq_false_iff, not_and_or, Bool.not_eq_false,
    decide_eq_true_eq] at hspace
  rcases hspace with rfl | rfl | rfl | rfl | rfl | rfl <;> exact absurd h (by decide)

theorem takeWhile_toDigits (n : Nat) {rest : List Char}
    (hrest : ∀ c, rest.head? = some c → c.isDigit = false) :
    (Nat.toDigits 10 n ++ rest).takeWhile Char.isDigit = Nat.toDigits 10 n := by
  rw [List.takeWhile_append_of_pos fun c hc => isDigit_of_mem_toDigits hc]
  cases rest with
  | nil => simp
  | cons c rest => simp [hrest c rfl]

theorem dropWhile_toDigits (n : Nat) {rest : List Char}
    (hrest : ∀ c, rest.head? = some c → c.isDigit = false) :
    (Nat.toDigits 10 n ++ rest).dropWhile Char.isDigit = rest := by
  rw [List.dropWhile_append_of_pos fun c hc => isDigit_of_mem_toDigits hc]
  cases rest with
  | nil => rfl
  | cons c rest => simp [hrest c rfl]

theorem toDigits_cons (n : Nat) :
    ∃ c tail, Nat.toDigits 10 n = c :: tail ∧ c.isDigit = true := by
  obtain ⟨c, tail, hdigits⟩ := List.exists_cons_of_ne_nil (@Nat.toDigits_ne_nil n 10)
  exact ⟨c, tail, hdigits, isDigit_of_mem_toDigits (hdigits ▸ List.mem_cons_self)⟩

theorem skipSpaces_showInt (n : Int) (rest : List Char) :
    skipSpaces (' ' :: (showInt n ++ rest)) = showInt n ++ rest := by
  have hblank : isSpace ' ' = true := by decide
  cases n with
  | ofNat n =>
      obtain ⟨c, tail, hdigits, hc⟩ := toDigits_cons n
      simp [skipSpaces, showInt, hdigits, not_isSpace_of_isDigit hc, hblank]
  | negSucc n =>
      have hminus : isSpace '-' = false := by decide
      simp [skipSpaces, showInt, hblank, hminus]

/-- A number that begins with a digit has no sign. -/
theorem readSign_of_isDigit {c : Char} {rest : List Char} (hc : c.isDigit = true) :
    readSign (c :: rest) = (false, c :: rest) := by
  unfold readSign
  split
  · next heq =>
    cases heq
    exact absurd hc (by decide)
  · next heq =>
    cases heq
    exact absurd hc (by decide)
  · rfl

theorem readSign_showInt (n : Int) (rest : List Char) :
    readSign (showInt n ++ rest) = (decide (n < 0), Nat.toDigits 10 n.natAbs ++ rest) := by
  cases n with
  | ofNat n =>
      obtain ⟨c, tail, hdigits, hc⟩ := toDigits_cons n
      have hnonneg : decide (Int.ofNat n < 0) = false := by simp
      have habs : (Int.ofNat n).natAbs = n := rfl
      rw [showInt, habs, hnonneg, hdigits, List.cons_append]
      exact readSign_of_isDigit hc
  | negSucc n => simp [showInt, readSign]

/-- A number read back where it was written, after one space. -/
theorem readInt_showInt {low high n : Int} {rest : List Char} (hlow : low ≤ n) (hhigh : n ≤ high)
    (hrest : ∀ c, rest.head? = some c → c.isDigit = false) :
    readInt low high (' ' :: (showInt n ++ rest)) = some (n, rest) := by
  have hvalue : (if decide (n < 0) = true then -(n.natAbs : Int) else n.natAbs) = n := by
    rcases lt_or_ge n 0 with hneg | hpos
    · rw [if_pos (decide_eq_true hneg)]
      omega
    · rw [if_neg (by simpa using hpos)]
      omega
  simp only [readInt, skipSpaces_showInt, readSign_showInt, takeWhile_toDigits _ hrest,
    dropWhile_toDigits _ hrest, Nat.ofDigitChars_ten_toDigits, hvalue]
  exact if_pos ⟨Nat.toDigits_ne_nil, hlow, hhigh⟩

/-- A word read where it stands at the front of the stream. -/
theorem readWord_append {word rest : List Char} (hne : word ≠ [])
    (hword : ∀ c ∈ word, isSpace c = false)
    (hrest : ∀ c, rest.head? = some c → isSpace c = true) :
    readWord (word ++ rest) = some (word, rest) := by
  have hskip : skipSpaces (word ++ rest) = word ++ rest := by
    cases word with
    | nil => exact absurd rfl hne
    | cons c tail => simp [skipSpaces, hword c List.mem_cons_self]
  have hpos : ∀ c ∈ word, (!isSpace c) = true := by
    intro c hc
    simp [hword c hc]
  have htake : (word ++ rest).takeWhile (fun c => !isSpace c) = word := by
    rw [List.takeWhile_append_of_pos hpos]
    cases rest with
    | nil => simp
    | cons c rest => simp [hrest c rfl]
  have hdrop : (word ++ rest).dropWhile (fun c => !isSpace c) = rest := by
    rw [List.dropWhile_append_of_pos hpos]
    cases rest with
    | nil => rfl
    | cons c rest => simp [hrest c rfl]
  simp only [readWord, hskip, htake, hdrop]
  rw [if_neg hne]

theorem head_dropWhile {p : Char → Bool} {text : List Char} {c : Char}
    (h : (text.dropWhile p).head? = some c) : p c = false := by
  have hhead := List.head?_dropWhile_not p text
  rwa [h] at hhead

/-- What `readWord` finds: white space, then the longest run of other
characters. -/
theorem readWord_spec {input word rest : List Char} (h : readWord input = some (word, rest)) :
    skipSpaces input = word ++ rest ∧ word ≠ [] ∧ (∀ c ∈ word, isSpace c = false) ∧
      ∀ c, rest.head? = some c → isSpace c = true := by
  simp only [readWord] at h
  split at h
  · cases h
  · next hne =>
    cases h
    refine ⟨List.takeWhile_append_dropWhile.symm, hne, fun c hc => ?_, fun c hc => ?_⟩
    · simpa using List.mem_takeWhile_imp hc
    · simpa using head_dropWhile hc

/-- The words of a text: what white space separates. -/
noncomputable def words (text : List Char) : List (List Char) :=
  (text.splitOnP isSpace).filter (fun word => word ≠ [])

@[simp] theorem words_nil : words [] = [] := by
  simp [words]

theorem words_skipSpaces (text : List Char) : words (skipSpaces text) = words text := by
  induction text with
  | nil => rfl
  | cons c rest ih =>
      cases hc : isSpace c with
      | false => simp [skipSpaces, hc]
      | true =>
          have hskip : skipSpaces (c :: rest) = skipSpaces rest := by simp [skipSpaces, hc]
          have hwords : words (c :: rest) = words rest := by
            simp [words, List.splitOnP_cons_eq_if_modifyHead, hc]
          rw [hskip, ih, hwords]

theorem words_append {word rest : List Char} (hne : word ≠ [])
    (hword : ∀ c ∈ word, isSpace c = false)
    (hrest : ∀ c, rest.head? = some c → isSpace c = true) :
    words (word ++ rest) = word :: words rest := by
  cases rest with
  | nil => simp [words, List.splitOnP_eq_singleton hword, hne]
  | cons c rest =>
      have hc := hrest c rfl
      have hsplit := List.splitOnP_append_cons_of_forall_mem hword c hc rest
      simp [words, hsplit, List.splitOnP_cons_eq_if_modifyHead, hc, hne]

theorem words_of_readWord {input word rest : List Char} (h : readWord input = some (word, rest)) :
    words input = word :: words rest := by
  obtain ⟨hskip, hne, hword, hrest⟩ := readWord_spec h
  rw [← words_skipSpaces, hskip, words_append hne hword hrest]

theorem words_of_readWord_none {input : List Char} (h : readWord input = none) :
    words input = [] := by
  have hskip : skipSpaces input = [] := by
    cases hskip : skipSpaces input with
    | nil => rfl
    | cons c rest =>
        have hc : isSpace c = false := head_dropWhile (congrArg List.head? hskip)
        simp [readWord, hskip, hc] at h
  rw [← words_skipSpaces, hskip, words_nil]

/-- A decimal number: an optional sign and at least one digit. -/
inductive IntLiteral : List Char → ℤ → Prop
  | unsigned {digits : List Char} (hne : digits ≠ []) (hdigits : ∀ c ∈ digits, c.isDigit = true) :
      IntLiteral digits (Nat.ofDigitChars 10 digits 0)
  | plus {digits : List Char} (hne : digits ≠ []) (hdigits : ∀ c ∈ digits, c.isDigit = true) :
      IntLiteral ('+' :: digits) (Nat.ofDigitChars 10 digits 0)
  | minus {digits : List Char} (hne : digits ≠ []) (hdigits : ∀ c ∈ digits, c.isDigit = true) :
      IntLiteral ('-' :: digits) (-Nat.ofDigitChars 10 digits 0)

theorem IntLiteral.not_isSpace {text : List Char} {n : ℤ} (h : IntLiteral text n) :
    text ≠ [] ∧ ∀ c ∈ text, isSpace c = false := by
  cases h with
  | unsigned hne hdigits => exact ⟨hne, fun c hc => not_isSpace_of_isDigit (hdigits c hc)⟩
  | plus hne hdigits =>
      refine ⟨List.cons_ne_nil _ _, fun c hc => ?_⟩
      rcases List.mem_cons.mp hc with rfl | hc
      · decide
      · exact not_isSpace_of_isDigit (hdigits c hc)
  | minus hne hdigits =>
      refine ⟨List.cons_ne_nil _ _, fun c hc => ?_⟩
      rcases List.mem_cons.mp hc with rfl | hc
      · decide
      · exact not_isSpace_of_isDigit (hdigits c hc)

/-- A number is read where a literal stands and no further digit follows. -/
theorem readInt_of_literal {low high n : ℤ} {input literal rest : List Char}
    (hskip : skipSpaces input = literal ++ rest) (hliteral : IntLiteral literal n)
    (hrest : ∀ c, rest.head? = some c → c.isDigit = false) (hlow : low ≤ n) (hhigh : n ≤ high) :
    readInt low high input = some (n, rest) := by
  have hdigits : ∀ digits : List Char, (∀ c ∈ digits, c.isDigit = true) →
      (digits ++ rest).takeWhile Char.isDigit = digits ∧
        (digits ++ rest).dropWhile Char.isDigit = rest := by
    intro digits hall
    rw [List.takeWhile_append_of_pos hall, List.dropWhile_append_of_pos hall]
    cases rest with
    | nil => simp
    | cons c rest => simp [hrest c rfl]
  cases hliteral with
  | unsigned hne hall =>
      have hsign : readSign (literal ++ rest) = (false, literal ++ rest) := by
        obtain ⟨c, tail, rfl⟩ := List.exists_cons_of_ne_nil hne
        have hc := hall c List.mem_cons_self
        exact readSign_of_isDigit hc
      obtain ⟨htake, hdrop⟩ := hdigits literal hall
      simp only [readInt, hskip, hsign, htake, hdrop, Bool.false_eq_true, if_false]
      exact if_pos ⟨hne, hlow, hhigh⟩
  | @plus digits hne hall =>
      obtain ⟨htake, hdrop⟩ := hdigits digits hall
      simp only [readInt, hskip, List.cons_append, readSign, htake, hdrop, Bool.false_eq_true,
        if_false]
      exact if_pos ⟨hne, hlow, hhigh⟩
  | @minus digits hne hall =>
      obtain ⟨htake, hdrop⟩ := hdigits digits hall
      simp only [readInt, hskip, List.cons_append, readSign, htake, hdrop, if_true]
      exact if_pos ⟨hne, hlow, hhigh⟩

theorem readSign_cases (text : List Char) :
    (∃ rest, text = '-' :: rest ∧ readSign text = (true, rest)) ∨
      (∃ rest, text = '+' :: rest ∧ readSign text = (false, rest)) ∨
      readSign text = (false, text) := by
  unfold readSign
  split
  · exact Or.inl ⟨_, rfl, rfl⟩
  · exact Or.inr (Or.inl ⟨_, rfl, rfl⟩)
  · exact Or.inr (Or.inr rfl)

/-- What a number that was read looked like. -/
theorem readInt_spec {low high n : ℤ} {input rest : List Char}
    (h : readInt low high input = some (n, rest)) :
    ∃ literal, skipSpaces input = literal ++ rest ∧ IntLiteral literal n ∧
      (∀ c, rest.head? = some c → c.isDigit = false) ∧ low ≤ n ∧ n ≤ high := by
  have hall : ∀ text : List Char, ∀ c ∈ text.takeWhile Char.isDigit, c.isDigit = true :=
    fun text c hc => List.mem_takeWhile_imp hc
  have hrun : ∃ negative digits, readSign (skipSpaces input) = (negative, digits ++ rest) ∧
      digits ≠ [] ∧ (∀ c ∈ digits, c.isDigit = true) ∧
      (if negative then -(Nat.ofDigitChars 10 digits 0 : ℤ) else Nat.ofDigitChars 10 digits 0) = n ∧
      (∀ c, rest.head? = some c → c.isDigit = false) ∧ low ≤ n ∧ n ≤ high := by
    cases hsign : readSign (skipSpaces input) with
    | mk negative text =>
        simp only [readInt, hsign] at h
        obtain ⟨hrange, heq⟩ := Option.ite_none_right_eq_some.mp h
        obtain ⟨hn, hrest⟩ := Prod.mk.inj (Option.some.inj heq)
        rw [hn] at hrange
        refine ⟨negative, text.takeWhile Char.isDigit, ?_, hrange.1, hall text, hn, ?_, hrange.2⟩
        · rw [← hrest, List.takeWhile_append_dropWhile]
        · rw [← hrest]
          exact fun c => head_dropWhile
  obtain ⟨negative, digits, hsign, hne, hdigits, hn, hdigit, hrange⟩ := hrun
  rcases readSign_cases (skipSpaces input) with ⟨text, hskip, heq⟩ | ⟨text, hskip, heq⟩ | heq
  · obtain ⟨rfl, rfl⟩ := Prod.mk.inj (heq.symm.trans hsign)
    refine ⟨'-' :: digits, hskip, ?_, hdigit, hrange⟩
    rw [← hn]
    exact .minus hne hdigits
  · obtain ⟨rfl, rfl⟩ := Prod.mk.inj (heq.symm.trans hsign)
    refine ⟨'+' :: digits, hskip, ?_, hdigit, hrange⟩
    rw [← hn]
    exact .plus hne hdigits
  · obtain ⟨rfl, hskip⟩ := Prod.mk.inj (heq.symm.trans hsign)
    refine ⟨digits, hskip, ?_, hdigit, hrange⟩
    rw [← hn]
    exact .unsigned hne hdigits

theorem takeLine_spec {text line rest : List Char} (h : takeLine text = some (line, rest)) :
    text = line ++ '\n' :: rest ∧ '\n' ∉ line := by
  unfold takeLine at h
  split at h
  · next hmem =>
    cases h
    have hsplit := List.takeWhile_append_dropWhile (p := fun c => decide (c ≠ '\n')) (l := text)
    cases hdrop : text.dropWhile (fun c => decide (c ≠ '\n')) with
    | nil =>
        have hall := List.dropWhile_eq_nil_iff.mp hdrop '\n' hmem
        simp at hall
    | cons c tail =>
        have hc : decide (c ≠ '\n') = false := head_dropWhile (congrArg List.head? hdrop)
        obtain rfl : c = '\n' := by simpa using hc
        rw [hdrop] at hsplit
        refine ⟨hsplit.symm, fun hline => ?_⟩
        have hnot := List.mem_takeWhile_imp hline
        simp at hnot
  · cases h

theorem takeLine_eq_none {text : List Char} : takeLine text = none ↔ '\n' ∉ text := by
  simp [takeLine]

end CppWorkspace.Lib.TextStream
