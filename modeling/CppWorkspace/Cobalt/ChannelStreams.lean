import CppWorkspace.Lib.Feed
import CppWorkspace.Lib.SignedInt
import CppWorkspace.Lib.TextStream

/-!
The demos of `spawn_channel.cpp` with one writer and one reader: `spsc_demo`, which prints
what goes through the channel, and `channel_sum`, which adds it up. After its loop
`channel_sum` only awaits the producer, which has returned when the channel is closed. The
loop counters go up to `count + 1`, which is an `int`; a negative count is as good as none.
-/

namespace CppWorkspace.Cobalt.ChannelStreams

open Lib Feed TextStream

abbrev Text := List Char

/-! ## `channel_sum` -/

def sumProducer (count : LoopBound) (i : ℕ) : Option (ℤ × ℕ) :=
  if (i : ℤ) ≤ count.val then some (i, i + 1) else none

/-- `sum += *val` -/
def channelSum (sum value : ℤ) : Option ℤ := int (sum + value)

def sumFeed (count : LoopBound) : Feed ℤ ℕ ℤ where
  next := sumProducer count
  closed := id
  take := channelSum
  ended := id

/-! ## `spsc_demo` -/

def wroteText (i : ℕ) : Text := "  [生产者] 写入 ".toList ++ showInt i ++ ['\n']

def closedText : Text := "  [生产者] 写完并关闭通道\n".toList

def readText (value : ℤ) : Text := "  [消费者] 读到 ".toList ++ showInt value ++ ['\n']

def exitText : Text := "  [消费者] 通道关闭，退出\n".toList

/-- The loop counter and what has been printed. -/
def spscProducer (count : LoopBound) : ℕ × List Text → Option (ℤ × (ℕ × List Text))
  | (i, out) => if (i : ℤ) ≤ count.val then some (i, (i + 1, out ++ [wroteText i])) else none

def spscConsumer (out : List Text) (value : ℤ) : Option (List Text) :=
  some (out ++ [readText value])

def spscFeed (count : LoopBound) : Feed ℤ (ℕ × List Text) (List Text) where
  next := spscProducer count
  closed := fun (i, out) => (i, out ++ [closedText])
  take := spscConsumer
  ended out := out ++ [exitText]

/-! ## Runs -/

/-- The loop counter, as it goes through the channel. -/
def values (first length : ℕ) : List ℤ := (List.range' first length).map (Nat.cast : ℕ → ℤ)

theorem values_succ (first length : ℕ) :
    values first (length + 1) = (first : ℤ) :: values (first + 1) length := rfl

theorem sumFeed_writes (count : LoopBound) {first length : ℕ}
    (hlength : first + length = count.rounds) :
    (sumFeed count).Writes (first + 1) (values (first + 1) length) (count.rounds + 1) := by
  induction length generalizing first with
  | zero =>
      obtain rfl : first = count.rounds := hlength
      refine .last (if_neg ?_)
      rw [LoopBound.le_val_iff (Nat.succ_pos _)]
      exact Nat.not_succ_le_self _
  | succ length ih =>
      rw [values_succ]
      have hrest : first + 1 + length = count.rounds := by omega
      refine .next (if_pos ?_) (ih hrest)
      rw [LoopBound.le_val_iff (Nat.succ_pos _)]
      omega

theorem spscFeed_writes (count : LoopBound) {first length : ℕ} (out : List Text)
    (hlength : first + length = count.rounds) :
    (spscFeed count).Writes (first + 1, out) (values (first + 1) length)
      (count.rounds + 1, out ++ (List.range' (first + 1) length).map wroteText) := by
  induction length generalizing first out with
  | zero =>
      obtain rfl : first = count.rounds := hlength
      rw [List.range'_zero, List.map_nil, List.append_nil]
      refine .last (if_neg ?_)
      rw [LoopBound.le_val_iff (Nat.succ_pos _)]
      exact Nat.not_succ_le_self _
  | succ length ih =>
      have hnext : first + 1 + length = count.rounds := by omega
      have hrest := ih (out ++ [wroteText (first + 1)]) hnext
      rw [List.append_assoc, List.singleton_append] at hrest
      rw [values_succ, List.range'_succ, List.map_cons]
      refine .next (if_pos ?_) hrest
      rw [LoopBound.le_val_iff (Nat.succ_pos _)]
      omega

theorem spsc_fold (values : List ℤ) (out : List Text) :
    values.foldlM spscConsumer out = some (out ++ values.map readText) := by
  induction values generalizing out with
  | nil => rw [List.map_nil, List.append_nil, List.foldlM_nil, Option.pure_def]
  | cons value values ih =>
      rw [List.foldlM_cons, spscConsumer, Option.bind_eq_bind, Option.bind_some, ih, List.map_cons,
        List.append_assoc, List.singleton_append]

/-- Of values that are not negative the sum is defined when it fits in the end. -/
theorem sum_fold {values : List ℤ} {sum : ℤ} (hnonneg : 0 ≤ sum) (hfits : FitsInt sum)
    (hvalues : ∀ value ∈ values, 0 ≤ value) :
    values.foldlM channelSum sum = int (sum + values.sum) := by
  induction values generalizing sum with
  | nil => rw [List.sum_nil, add_zero, int_of_fits hfits, List.foldlM_nil, Option.pure_def]
  | cons value values ih =>
      have hvalue := hvalues value List.mem_cons_self
      have hrest : ∀ value ∈ values, 0 ≤ value := fun other hother =>
        hvalues other (List.mem_cons_of_mem _ hother)
      rw [List.foldlM_cons, List.sum_cons, ← add_assoc, channelSum]
      cases hnext : int (sum + value) with
      | some next =>
          obtain ⟨hfits', rfl⟩ := int_eq_some.mp hnext
          exact ih (add_nonneg hnonneg hvalue) hfits' hrest
      | none =>
          have hover := int_eq_none.mp hnext
          have hsum := List.sum_nonneg hrest
          have hlater : ¬ FitsInt (sum + value + values.sum) := by
            unfold FitsInt at hover ⊢
            omega
          exact (int_eq_none.mpr hlater).symm

theorem sum_values (count : ℕ) : (values 1 count).sum = (count * (count + 1) / 2 : ℕ) := by
  have hgauss : ∀ n : ℕ, (values 1 n).sum * 2 = n * (n + 1) := by
    intro n
    induction n with
    | zero => rfl
    | succ n ih =>
        rw [values, List.range'_concat, List.map_append, List.sum_append, add_mul]
        rw [values] at ih
        rw [ih, List.map_singleton, List.sum_singleton]
        push_cast
        ring
  have hdouble := hgauss count
  have heven : count * (count + 1) / 2 * 2 = count * (count + 1) :=
    Nat.div_mul_cancel (Nat.even_mul_succ_self count).two_dvd
  have hcast : ((count * (count + 1) / 2 : ℕ) : ℤ) * 2 = count * (count + 1) := by
    exact_mod_cast heven
  omega

theorem values_nonneg (first length : ℕ) : ∀ value ∈ values first length, 0 ≤ value := by
  intro value hvalue
  obtain ⟨i, -, rfl⟩ := List.mem_map.mp hvalue
  exact Int.natCast_nonneg i

/-- `channel_sum` returns the sum of the numbers up to `count` in every schedule and with
any room in the channel when that sum fits. Otherwise it returns in no schedule, and all of
them lead to an addition that overflows. -/
theorem channel_sum_returns_iff (count : LoopBound) (capacity : ℕ) :
    (FitsInt (count.rounds * (count.rounds + 1) / 2 : ℕ) →
      ((sumFeed count).system 1 0 capacity).LeadsTo
        (state (.writing 1) (.reading 0) (.make capacity))
        (state (.returned (count.rounds + 1))
          (.returned (count.rounds * (count.rounds + 1) / 2 : ℕ))
          (Channel.make capacity).close)) ∧
    (¬ FitsInt (count.rounds * (count.rounds + 1) / 2 : ℕ) →
      (∀ s, ((sumFeed count).system 1 0 capacity).Reachable s →
        ∀ sum, s.process .reader ≠ .returned sum) ∧
      ∃ producer c, ((sumFeed count).system 1 0 capacity).LeadsTo
        (state (.writing 1) (.reading 0) (.make capacity)) (state producer .undefined c)) := by
  have hwrites := sumFeed_writes count (Nat.zero_add count.rounds)
  have hfold : (values 1 count.rounds).foldlM channelSum 0 =
      int (count.rounds * (count.rounds + 1) / 2 : ℕ) := by
    rw [← sum_values, ← zero_add (values 1 count.rounds).sum]
    exact sum_fold le_rfl (by decide) (values_nonneg 1 count.rounds)
  refine ⟨fun hfits => ?_, fun hoverflows => ?_⟩
  · rw [int_of_fits hfits] at hfold
    exact leadsTo hwrites hfold capacity
  · rw [int_eq_none.mpr hoverflows] at hfold
    exact ⟨fun s hs sum => not_returned hwrites hfold hs sum,
      leadsTo_undefined hwrites hfold capacity⟩

/-- The producer after so many writes. -/
theorem spsc_wrote {count : LoopBound} {written : List ℤ} {t : ℕ × List Text}
    (h : Wrote (spscFeed count) (1, []) written t) :
    written.length ≤ count.rounds ∧ written = values 1 written.length ∧
      t = (written.length + 1, (List.range' 1 written.length).map wroteText) := by
  induction h with
  | start => exact ⟨Nat.zero_le _, rfl, rfl⟩
  | @next t t' value written _ hnext ih =>
      obtain ⟨-, hwritten, rfl⟩ := ih
      obtain ⟨hmore, heq⟩ := Option.ite_none_right_eq_some.mp hnext
      cases heq
      rw [List.length_append, List.length_singleton]
      refine ⟨(LoopBound.le_val_iff (Nat.succ_pos _)).mp hmore, ?_, ?_⟩
      · rw [values, List.range'_concat, List.map_append, ← values, ← hwritten]
        simp [Nat.add_comm]
      · rw [List.range'_concat, List.map_append]
        simp [Nat.add_comm]

theorem values_of_begins {n : ℕ} {read rest : List ℤ} (h : values 1 n = read ++ rest) :
    read = values 1 read.length := by
  have hlength := congrArg List.length h
  rw [values, List.length_map, List.length_range', List.length_append] at hlength
  rw [hlength, values, ← List.range'_append_1, List.map_append] at h
  have hsame : (values 1 read.length).length = read.length := by
    rw [values, List.length_map, List.length_range']
  exact (List.append_inj_left h hsame).symm

section Moments

variable {count : LoopBound} {capacity : ℕ} {written read : List ℤ}
  {s : Feed.State ℤ (ℕ × List Text) (List Text)}

/-- Where the producer is after `n` writes. -/
def ProducerAt (count : LoopBound) (n : ℕ) (writer : WriterPc (ℕ × List Text)) : Prop :=
  writer = .writing (n + 1, (List.range' 1 n).map wroteText) ∨
    (n = count.rounds ∧ writer = .returned (n + 1, (List.range' 1 n).map wroteText ++ [closedText]))

/-- Where the consumer is after `n` reads. -/
def ConsumerAt (count : LoopBound) (n : ℕ) (reader : ReaderPc (List Text)) : Prop :=
  reader = .reading ((values 1 n).map readText) ∨
    (n = count.rounds ∧ reader = .returned ((values 1 n).map readText ++ [exitText]))

theorem producer_at (h : Inv (spscFeed count) (1, []) [] capacity written read s) :
    written.length ≤ count.rounds ∧ written = values 1 written.length ∧
      ProducerAt count written.length (s.process .writer) := by
  have hok := h.writer
  cases hwriter : s.process .writer with
  | writing t =>
      rw [hwriter] at hok
      obtain ⟨hle, hwritten, rfl⟩ := spsc_wrote hok.1
      exact ⟨hle, hwritten, .inl rfl⟩
  | returned t =>
      rw [hwriter] at hok
      obtain ⟨⟨t', hwrote, hlast, rfl⟩, -⟩ := hok
      obtain ⟨hle, hwritten, rfl⟩ := spsc_wrote hwrote
      have hall : ¬ written.length + 1 ≤ count.rounds := by
        intro hmore
        change (if ((written.length + 1 : ℕ) : ℤ) ≤ count.val then _ else none) = none at hlast
        rw [if_pos ((LoopBound.le_val_iff (Nat.succ_pos _)).mpr hmore)] at hlast
        cases hlast
      exact ⟨hle, hwritten, .inr ⟨by omega, rfl⟩⟩
  | threw t =>
      rw [hwriter] at hok
      exact hok.elim

theorem consumer_at (h : Inv (spscFeed count) (1, []) [] capacity written read s) :
    ConsumerAt count read.length (s.process .reader) := by
  obtain ⟨hle, hwritten, hproducer⟩ := producer_at h
  have hread : read = values 1 read.length :=
    values_of_begins (hwritten.symm.trans h.books)
  have hfold := spsc_fold read []
  rw [List.nil_append, congrArg (List.map readText) hread] at hfold
  have hok := h.reader
  cases hreader : s.process .reader with
  | reading out =>
      rw [hreader] at hok
      cases hfold.symm.trans hok
      exact .inl rfl
  | returned last =>
      rw [hreader] at hok
      obtain ⟨⟨out, hout, rfl⟩, hclosed, hempty⟩ := hok
      cases hfold.symm.trans hout
      have hbooks := congrArg List.length h.books
      rw [hempty, List.append_nil] at hbooks
      rcases hproducer with hwriting | ⟨hall, -⟩
      · have hwriter := h.writer
        rw [hwriting] at hwriter
        cases hwriter.2.symm.trans hclosed
      · exact .inr ⟨by omega, rfl⟩
  | undefined =>
      rw [hreader] at hok
      cases hfold.symm.trans hok

end Moments

/-- At any time the consumer has printed the first values and the producer is ahead of it
by no more than the channel holds; every schedule leads to the end, where both have
printed all of them. -/
theorem spsc_prints (count : LoopBound) (capacity : ℕ) :
    (∀ s, ((spscFeed count).system (1, []) [] capacity).Reachable s →
      ∃ written read, read ≤ written ∧ written ≤ read + capacity ∧ written ≤ count.rounds ∧
        ProducerAt count written (s.process .writer) ∧
        ConsumerAt count read (s.process .reader)) ∧
    ((spscFeed count).system (1, []) [] capacity).LeadsTo
      (state (.writing (1, [])) (.reading []) (.make capacity))
      (state
        (.returned (count.rounds + 1,
          (List.range' 1 count.rounds).map wroteText ++ [closedText]))
        (.returned ((values 1 count.rounds).map readText ++ [exitText]))
        (Channel.make capacity).close) := by
  refine ⟨?_, ?_⟩
  · intro s hs
    obtain ⟨written, read, h⟩ := inv_of_reachable hs
    obtain ⟨hbegins, hahead⟩ := h.ahead_le
    obtain ⟨hle, -, hproducer⟩ := producer_at h
    exact ⟨_, _, hbegins.length_le, hahead, hle, hproducer, consumer_at h⟩
  · have hwrites := spscFeed_writes count [] (Nat.zero_add count.rounds)
    exact leadsTo hwrites (spsc_fold (values 1 count.rounds) []) capacity

end CppWorkspace.Cobalt.ChannelStreams
