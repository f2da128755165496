import CppWorkspace.Lib.Reduction
import CppWorkspace.Lib.Transition

/-!
`run_flow_pipeline`: a producer, a limiter and a serial consumer in a flow graph.
The consumer's continue messages go back to the limiter's decrementer. An item
that the limiter refuses stays with the producer; the limiter then knows of it
and pulls it after a decrement.
-/

namespace CppWorkspace.Tbb

open Lib System

/-- The checks of the arguments, with the text of the exception. -/
def argumentError (itemCount channelCapacity : ℕ) (maxConcurrency : Int32) : Option String :=
  if 2 ^ 31 - 1 < itemCount then some "item count exceeds the supported integer range"
  else if channelCapacity = 0 then some "channel capacity must be greater than zero"
  else if maxConcurrency ≤ 0 then some "max concurrency must be greater than zero"
  else none

/-- The `input_node`: its body runs next, it puts an item to the limiter, the
item was refused, the limiter knows that it is there, or the body has called
`stop()`. -/
inductive Producer where
  | active
  | putting (value : Int32)
  | refused (value : Int32)
  | reserved (value : Int32)
  | stopped
deriving DecidableEq, Repr

def Producer.item? : Producer → Option Int32
  | putting value | refused value | reserved value => some value
  | active | stopped => none

/-- The graph: `next` of the producer's body, the limiter's count, the input
queue of the consumer, the item its body works on, the continue messages on
their way to the decrementer, and the vector that the body fills. -/
structure Flow where
  next : ℕ := 0
  producer : Producer := .active
  count : ℕ := 0
  queue : List Int32 := []
  consuming : Option Int32 := none
  signals : ℕ := 0
  values : List Int32 := []
deriving DecidableEq, Repr

inductive FlowAct where
  | produce
  | tryPut
  | register
  | consume
  | finish
  | decrement
deriving DecidableEq, Repr

namespace Flow

/-- The limiter takes the producer's item and puts it to the consumer. -/
def pass (s : Flow) (value : Int32) : Flow :=
  { s with producer := .active, count := s.count + 1, queue := s.queue ++ [value] }

/-- One step of some node. -/
def step (itemCount capacity : ℕ) (s : Flow) : FlowAct → Option Flow
  | .produce =>
      match s.producer with
      | .active =>
          if s.next = itemCount then some { s with producer := .stopped }
          else some { s with next := s.next + 1, producer := .putting (Int32.ofNat (s.next + 1)) }
      | _ => none
  | .tryPut =>
      match s.producer with
      | .putting value =>
          if s.count < capacity then some (s.pass value)
          else some { s with producer := .refused value }
      | _ => none
  | .register =>
      match s.producer with
      | .refused value =>
          if s.count < capacity then some (s.pass value)
          else some { s with producer := .reserved value }
      | _ => none
  | .consume =>
      match s.consuming, s.queue with
      | none, value :: rest => some { s with queue := rest, consuming := some value }
      | _, _ => none
  | .finish =>
      match s.consuming with
      | some value =>
          some { s with
            consuming := none
            signals := s.signals + 1
            values := s.values ++ [value] }
      | none => none
  | .decrement =>
      match s.signals with
      | 0 => none
      | signals + 1 =>
          let s := { s with signals := signals, count := s.count - 1 }
          match s.producer with
          | .reserved value => if s.count < capacity then some (s.pass value) else some s
          | _ => some s

/-- The items between the limiter and the decrementer. -/
def inFlight (s : Flow) : ℕ := s.queue.length + s.consuming.toList.length + s.signals

/-- The producer has stopped and no task is left: `wait_for_all` returns. -/
structure Finished (s : Flow) : Prop where
  stopped : s.producer = .stopped
  queue : s.queue = []
  consuming : s.consuming = none
  signals : s.signals = 0

end Flow

def flowSystem (itemCount capacity : ℕ) : System Flow FlowAct where
  init s := s = {}
  step s act s' := s.step itemCount capacity act = some s'

/-- The first `k` items that the producer makes. -/
def items (k : ℕ) : List Int32 := (List.range k).map fun i => Int32.ofNat (i + 1)

theorem items_succ (k : ℕ) : items (k + 1) = items k ++ [Int32.ofNat (k + 1)] := by
  simp [items, List.range_succ]

theorem items_isPrefix {j k : ℕ} (h : j ≤ k) : items j <+: items k := by
  obtain ⟨d, rfl⟩ := Nat.exists_eq_add_of_le h
  induction d with
  | zero => exact List.prefix_rfl
  | succ d ih =>
      rw [← Nat.add_assoc, items_succ]
      exact (ih (Nat.le_add_right j d)).trans (List.prefix_append _ _)

namespace Flow

/-- What the steps are: the body stops or makes an item, the limiter takes it or not,
the consumer works, and a decrement pulls a waiting item if there is one. -/
inductive Moves (itemCount capacity : ℕ) (s : Flow) : Flow → Prop
  | stops (hactive : s.producer = .active) (hlast : s.next = itemCount) :
      Moves itemCount capacity s { s with producer := .stopped }
  | makes (hactive : s.producer = .active) (hmore : s.next ≠ itemCount) :
      Moves itemCount capacity s { s with
        next := s.next + 1
        producer := .putting (Int32.ofNat (s.next + 1)) }
  | passes {value} (hputs : s.producer = .putting value ∨ s.producer = .refused value)
      (hroom : s.count < capacity) : Moves itemCount capacity s (s.pass value)
  | refuses {value} (hputting : s.producer = .putting value) (hfull : ¬ s.count < capacity) :
      Moves itemCount capacity s { s with producer := .refused value }
  | reserves {value} (hrefused : s.producer = .refused value) (hfull : ¬ s.count < capacity) :
      Moves itemCount capacity s { s with producer := .reserved value }
  | consumes {value rest} (hidle : s.consuming = none) (hqueue : s.queue = value :: rest) :
      Moves itemCount capacity s { s with queue := rest, consuming := some value }
  | finishes {value} (hbusy : s.consuming = some value) :
      Moves itemCount capacity s { s with
        consuming := none
        signals := s.signals + 1
        values := s.values ++ [value] }
  | pulls {value signals} (hsignals : s.signals = signals + 1)
      (hreserved : s.producer = .reserved value) (hroom : s.count - 1 < capacity) :
      Moves itemCount capacity s
        ({ s with signals := signals, count := s.count - 1 }.pass value)
  | decrements {signals} (hsignals : s.signals = signals + 1)
      (hnone : ∀ value, s.producer = .reserved value → ¬ s.count - 1 < capacity) :
      Moves itemCount capacity s { s with signals := signals, count := s.count - 1 }

theorem step_moves {itemCount capacity : ℕ} {s s' : Flow} {act : FlowAct}
    (hstep : s.step itemCount capacity act = some s') : Moves itemCount capacity s s' := by
  cases act with
  | produce =>
    simp only [step] at hstep
    split at hstep
    · next hactive =>
      split at hstep
      · next hlast =>
        cases hstep
        exact .stops hactive hlast
      · next hmore =>
        cases hstep
        exact .makes hactive hmore
    · cases hstep
  | tryPut =>
    simp only [step] at hstep
    split at hstep
    · next value hputting =>
      split at hstep
      · next hroom =>
        cases hstep
        exact .passes (Or.inl hputting) hroom
      · next hfull =>
        cases hstep
        exact .refuses hputting hfull
    · cases hstep
  | register =>
    simp only [step] at hstep
    split at hstep
    · next value hrefused =>
      split at hstep
      · next hroom =>
        cases hstep
        exact .passes (Or.inr hrefused) hroom
      · next hfull =>
        cases hstep
        exact .reserves hrefused hfull
    · cases hstep
  | consume =>
    simp only [step] at hstep
    split at hstep
    · next value rest hidle hqueue =>
      cases hstep
      exact .consumes hidle hqueue
    · cases hstep
  | finish =>
    simp only [step] at hstep
    split at hstep
    · next value hbusy =>
      cases hstep
      exact .finishes hbusy
    · cases hstep
  | decrement =>
    simp only [step] at hstep
    split at hstep
    · cases hstep
    · next signals hsignals =>
      split at hstep
      · next value hreserved =>
        split at hstep
        · next hroom =>
          cases hstep
          exact .pulls hsignals hreserved hroom
        · next hfull =>
          cases hstep
          exact .decrements hsignals fun _ _ => hfull
      · next hother =>
        cases hstep
        exact .decrements hsignals fun value hreserved => absurd hreserved (hother value)

/-- What has been produced is where it should be, in order, and the limiter
counts what is in flight. An item waits for a pull only while the limiter is
full. -/
structure Ordered (itemCount capacity : ℕ) (s : Flow) : Prop where
  order : s.values ++ s.consuming.toList ++ s.queue ++ s.producer.item?.toList = items s.next
  next_le : s.next ≤ itemCount
  count : s.count = s.inFlight
  bounded : s.count ≤ capacity
  reserved : ∀ value, s.producer = .reserved value → s.count = capacity
  stopped : s.producer = .stopped → s.next = itemCount

namespace Ordered

variable {itemCount capacity : ℕ} {s s' : Flow} {act : FlowAct}

theorem initial : Ordered itemCount capacity {} :=
  ⟨rfl, Nat.zero_le _, rfl, Nat.zero_le _, nofun, nofun⟩

/-- The limiter takes the item. -/
theorem pass (h : Ordered itemCount capacity s) {value : Int32}
    (hitem : s.producer.item? = some value) (hroom : s.count < capacity) :
    Ordered itemCount capacity (s.pass value) where
  order := by
    have horder := h.order
    rw [hitem] at horder
    simpa [Flow.pass, Producer.item?] using horder
  next_le := h.next_le
  count := by
    have hcount := h.count
    simp only [Flow.pass, inFlight, List.length_append, List.length_singleton] at hcount ⊢
    omega
  bounded := hroom
  reserved := nofun
  stopped := nofun

/-- The limiter is full; the producer keeps the item. -/
theorem keep (h : Ordered itemCount capacity s) {producer : Producer}
    (hitem : producer.item? = s.producer.item?) (hfull : ¬ s.count < capacity)
    (hactive : producer ≠ .stopped) :
    Ordered itemCount capacity { s with producer := producer } where
  order := by
    rw [← h.order, ← hitem]
  next_le := h.next_le
  count := h.count
  bounded := h.bounded
  reserved _ _ := le_antisymm h.bounded (not_lt.mp hfull)
  stopped hstopped := absurd hstopped hactive

/-- A decrement makes room, so that an item that waits is pulled at once. -/
theorem decremented (h : Ordered itemCount capacity s) {signals : ℕ}
    (hsignals : s.signals = signals + 1) :
    s.count - 1 < capacity ∧ s.count - 1 = inFlight { s with signals := signals } := by
  have hcount := h.count
  have hbounded := h.bounded
  simp only [inFlight, hsignals] at hcount ⊢
  omega

theorem step (h : Ordered itemCount capacity s) (hmoves : Moves itemCount capacity s s') :
    Ordered itemCount capacity s' := by
  cases hmoves with
  | stops hactive hlast =>
    have horder := h.order
    rw [hactive] at horder
    exact ⟨horder, h.next_le, h.count, h.bounded, nofun, fun _ => hlast⟩
  | makes hactive hmore =>
    have horder := h.order
    rw [hactive] at horder
    refine ⟨?_, ?_, h.count, h.bounded, nofun, nofun⟩
    · rw [items_succ, ← horder]
      simp [Producer.item?]
    · have hle := h.next_le
      simp only
      omega
  | passes hputs hroom =>
    rcases hputs with hputting | hrefused
    · exact h.pass (congrArg Producer.item? hputting) hroom
    · exact h.pass (congrArg Producer.item? hrefused) hroom
  | refuses hputting hfull =>
    exact h.keep (congrArg Producer.item? hputting).symm hfull nofun
  | reserves hrefused hfull =>
    exact h.keep (congrArg Producer.item? hrefused).symm hfull nofun
  | consumes hidle hqueue =>
    have horder := h.order
    have hcount := h.count
    rw [hidle, hqueue] at horder
    simp only [inFlight, hidle, hqueue] at hcount
    refine ⟨?_, h.next_le, ?_, h.bounded, h.reserved, h.stopped⟩
    · simpa using horder
    · simp only [inFlight, Option.toList_some, Option.toList_none, List.length_cons,
        List.length_nil] at hcount ⊢
      omega
  | finishes hbusy =>
    have horder := h.order
    have hcount := h.count
    rw [hbusy] at horder
    simp only [inFlight, hbusy] at hcount
    refine ⟨?_, h.next_le, ?_, h.bounded, h.reserved, h.stopped⟩
    · simpa using horder
    · simp only [inFlight, Option.toList_some, Option.toList_none, List.length_cons,
        List.length_nil] at hcount ⊢
      omega
  | pulls hsignals hreserved hroom =>
    have horder := h.order
    rw [hreserved] at horder
    obtain ⟨-, hcount⟩ := h.decremented hsignals
    simp only [inFlight] at hcount
    refine ⟨?_, h.next_le, ?_, hroom, nofun, nofun⟩
    · simpa [Flow.pass, Producer.item?] using horder
    · simp only [Flow.pass, inFlight, List.length_append, List.length_singleton]
      omega
  | decrements hsignals hnone =>
    obtain ⟨hroom, hcount⟩ := h.decremented hsignals
    exact ⟨h.order, h.next_le, hcount, hroom.le,
      fun value hreserved => absurd hroom (hnone value hreserved), h.stopped⟩

/-- Unless everything is over, some node has something to do. -/
theorem progress (h : Ordered itemCount capacity s) (hcapacity : 0 < capacity)
    (hunfinished : ¬ s.Finished) : ∃ act s', s.step itemCount capacity act = some s' := by
  by_cases hsignals : s.signals = 0
  · cases hconsuming : s.consuming with
    | some value => exact ⟨.finish, _, by simp only [Flow.step, hconsuming]; rfl⟩
    | none =>
      cases hqueue : s.queue with
      | cons value rest => exact ⟨.consume, _, by simp only [Flow.step, hconsuming, hqueue]; rfl⟩
      | nil =>
        -- nothing is in flight, so the limiter is not full
        have hcount : s.count = 0 := by
          rw [h.count, inFlight, hqueue, hconsuming, hsignals]
          rfl
        cases hproducer : s.producer with
        | active =>
          refine ⟨.produce, ?_⟩
          simp only [Flow.step, hproducer]
          split
          · exact ⟨_, rfl⟩
          · exact ⟨_, rfl⟩
        | putting value =>
          refine ⟨.tryPut, ?_⟩
          simp only [Flow.step, hproducer]
          split
          · exact ⟨_, rfl⟩
          · exact ⟨_, rfl⟩
        | refused value =>
          refine ⟨.register, ?_⟩
          simp only [Flow.step, hproducer]
          split
          · exact ⟨_, rfl⟩
          · exact ⟨_, rfl⟩
        | reserved value =>
          have hfull := h.reserved value hproducer
          omega
        | stopped => exact absurd ⟨hproducer, hqueue, hconsuming, hsignals⟩ hunfinished
  · obtain ⟨signals, hsucc⟩ := Nat.exists_eq_succ_of_ne_zero hsignals
    refine ⟨.decrement, ?_⟩
    simp only [Flow.step, hsucc]
    split
    · split
      · exact ⟨_, rfl⟩
      · exact ⟨_, rfl⟩
    · exact ⟨_, rfl⟩

/-- At the end everything has been delivered. -/
theorem values_of_finished (h : Ordered itemCount capacity s) (hfinished : s.Finished) :
    s.values = items itemCount := by
  have horder := h.order
  rw [hfinished.stopped, hfinished.queue, hfinished.consuming,
    h.stopped hfinished.stopped] at horder
  simpa [Producer.item?] using horder

end Ordered

theorem ordered_invariant (itemCount capacity : ℕ) :
    (flowSystem itemCount capacity).Invariant (Ordered itemCount capacity) where
  init := by
    rintro s rfl
    exact .initial
  step _ _ _ h hstep := h.step (step_moves hstep)

/-- When everything is over no node has anything to do. -/
theorem Finished.step_eq_none {s : Flow} (h : s.Finished) (itemCount capacity : ℕ) (act : FlowAct) :
    s.step itemCount capacity act = none := by
  cases act <;> simp [step, h.stopped, h.queue, h.consuming, h.signals]

/-- How many steps the nodes can still make. -/
def remaining (itemCount : ℕ) (s : Flow) : ℕ :=
  7 * (itemCount - s.next) + 3 * s.queue.length + 2 * s.consuming.toList.length + s.signals +
    match s.producer with
    | .active => 1
    | .putting _ => 7
    | .refused _ => 6
    | .reserved _ => 5
    | .stopped => 0

theorem remaining_lt {itemCount capacity : ℕ} {s s' : Flow} (h : Ordered itemCount capacity s)
    (hmoves : Moves itemCount capacity s s') : s'.remaining itemCount < s.remaining itemCount := by
  have hle := h.next_le
  cases hmoves with
  | stops hactive _ =>
    simp only [remaining, hactive]
    omega
  | makes hactive _ =>
    simp only [remaining, hactive]
    omega
  | passes hputs _ =>
    rcases hputs with hputting | hrefused
    · simp only [remaining, pass, hputting, List.length_append, List.length_singleton]
      omega
    · simp only [remaining, pass, hrefused, List.length_append, List.length_singleton]
      omega
  | refuses hputting _ =>
    simp only [remaining, hputting]
    omega
  | reserves hrefused _ =>
    simp only [remaining, hrefused]
    omega
  | consumes hidle hqueue =>
    simp only [remaining, hidle, hqueue, Option.toList_some, Option.toList_none, List.length_cons,
      List.length_nil]
    omega
  | finishes hbusy =>
    simp only [remaining, hbusy, Option.toList_some, Option.toList_none, List.length_cons,
      List.length_nil]
    omega
  | pulls hsignals hreserved _ =>
    simp only [remaining, pass, hreserved, hsignals, List.length_append, List.length_singleton]
    omega
  | decrements hsignals _ =>
    simp only [remaining, hsignals]
    omega

end Flow

/-- `long long + long long`; `none` where it overflows. -/
def plusLongLong (a b : Int64) : Option Int64 :=
  if -2 ^ 63 ≤ a.toInt + b.toInt ∧ a.toInt + b.toInt ≤ 2 ^ 63 - 1 then some (a + b) else none

theorem plusLongLong_eq_some (a b c : Int64) :
    plusLongLong a b = some c ↔ c.toInt = a.toInt + b.toInt := by
  constructor
  · intro h
    obtain ⟨⟨hlow, hhigh⟩, heq⟩ := Option.ite_none_right_eq_some.mp h
    obtain rfl := Option.some.inj heq
    rw [Int64.toInt_add, Int.bmod_eq_of_le] <;> omega
  · intro h
    have hlow := c.le_toInt
    have hhigh := c.toInt_lt
    rw [plusLongLong, if_pos ⟨by omega, by omega⟩, Option.some_inj, ← Int64.toInt_inj, h,
      Int64.toInt_add, Int.bmod_eq_of_le] <;> omega

/-- `long long` with its exact values. -/
def longLongAdd : CheckedAdd Int64 ℤ where
  zero := 0
  add := plusLongLong
  exact := Int64.toInt
  exact_injective _ _ h := Int64.toInt_inj.mp h
  exact_zero := rfl
  add_eq_some := plusLongLong_eq_some

/-- `FlowPipelineResult`. -/
structure FlowPipelineResult where
  values : List Int32
  sum : Int64
deriving DecidableEq

/-- What the function returns: the values, accumulated from `0LL` on. -/
def Flow.result (s : Flow) : Option FlowPipelineResult :=
  (longLongAdd.fold 0 (s.values.map Int32.toInt64)).map fun sum => ⟨s.values, sum⟩

/-- The numbers from 1 to `n`. -/
def oneTo (n : ℕ) : List ℤ := (List.range n).map fun i : ℕ => (i : ℤ) + 1

theorem items_toInt {n : ℕ} (hn : n ≤ 2 ^ 31 - 1) : (items n).map Int32.toInt = oneTo n := by
  rw [items, oneTo, List.map_map]
  apply List.map_congr_left
  intro i hi
  have hlt := List.mem_range.mp hi
  rw [Function.comp_apply, Int32.toInt_ofNat_of_lt (by omega)]
  push_cast
  rfl

theorem two_mul_sum_oneTo (n : ℕ) : 2 * (oneTo n).sum = n * (n + 1) := by
  induction n with
  | zero => rfl
  | succ n ih =>
      have hsucc : oneTo (n + 1) = oneTo n ++ [(n : ℤ) + 1] := by
        simp [oneTo, List.range_succ]
      rw [hsucc, List.sum_append, List.sum_singleton, mul_add, ih]
      push_cast
      ring

theorem sum_items {n : ℕ} (hn : n ≤ 2 ^ 31 - 1) :
    longLongAdd.sum ((items n).map Int32.toInt64) = (oneTo n).sum := by
  rw [CheckedAdd.sum, List.map_map, ← items_toInt hn]
  congr 1
  apply List.map_congr_left
  exact fun value _ => Int32.toInt_toInt64 value

/-- Accumulating the items stays inside `long long`. -/
theorem fold_items {n : ℕ} (hn : n ≤ 2 ^ 31 - 1) :
    ∃ sum, longLongAdd.fold 0 ((items n).map Int32.toInt64) = some sum ∧
      sum.toInt = n * (n + 1) / 2 := by
  have htotal := two_mul_sum_oneTo n
  have hbound : (n : ℤ) * (n + 1) ≤ 2 ^ 31 * 2 ^ 31 := by
    gcongr <;> omega
  have hnonneg : ∀ l : List Int64, (∀ x ∈ l, x ∈ (items n).map Int32.toInt64) →
      0 ≤ longLongAdd.sum l := by
    intro l hl
    refine List.sum_nonneg fun x hx => ?_
    obtain ⟨y, hy, rfl⟩ := List.mem_map.mp hx
    obtain ⟨value, hvalue, rfl⟩ := List.mem_map.mp (hl y hy)
    have hmem : value.toInt ∈ oneTo n := items_toInt hn ▸ List.mem_map_of_mem hvalue
    obtain ⟨i, -, hi⟩ := List.mem_map.mp hmem
    change 0 ≤ value.toInt64.toInt
    rw [Int32.toInt_toInt64, ← hi]
    omega
  have hfits : ∀ front, front <+: (items n).map Int32.toInt64 →
      longLongAdd.Fits (longLongAdd.exact 0 + longLongAdd.sum front) := by
    rintro front ⟨back, hsplit⟩
    have hsum := longLongAdd.sum_append front back
    rw [hsplit, sum_items hn] at hsum
    have hfront := hnonneg front fun x hx => hsplit ▸ List.mem_append_left back hx
    have hback := hnonneg back fun x hx => hsplit ▸ List.mem_append_right front hx
    have hzero : longLongAdd.exact 0 = 0 := longLongAdd.exact_zero
    rw [hzero, zero_add]
    exact ⟨Int64.ofInt (longLongAdd.sum front), Int64.toInt_ofInt_of_le (by omega) (by omega)⟩
  obtain ⟨sum, hsum⟩ := longLongAdd.fold_of_fits hfits
  refine ⟨sum, hsum, ?_⟩
  have hexact : sum.toInt = 0 + longLongAdd.sum ((items n).map Int32.toInt64) :=
    longLongAdd.exact_of_fold hsum
  rw [hexact, sum_items hn]
  omega

theorem argumentError_eq_none {itemCount channelCapacity : ℕ} {maxConcurrency : Int32}
    (h : argumentError itemCount channelCapacity maxConcurrency = none) :
    itemCount ≤ 2 ^ 31 - 1 ∧ 0 < channelCapacity := by
  unfold argumentError at h
  split at h
  · cases h
  · next hcount =>
    split at h
    · cases h
    · next hcapacity => exact ⟨not_lt.mp hcount, Nat.pos_of_ne_zero hcapacity⟩

/-- Any run of the graph on arguments that are accepted: the values are the first
of 1 to `itemCount`, in order; no more items are in flight than the channel
holds; as long as not everything is over, and only so long, some node has
something to do, for a bounded number of steps; then the result holds all values
and their sum. -/
theorem flow_pipeline_delivers {itemCount channelCapacity : ℕ} {maxConcurrency : Int32}
    (hargs : argumentError itemCount channelCapacity maxConcurrency = none) {acts : List FlowAct}
    {s : Flow} (hrun : (flowSystem itemCount channelCapacity).Run {} acts s) :
    s.values.map Int32.toInt <+: oneTo itemCount ∧ s.inFlight ≤ channelCapacity ∧
      acts.length ≤ 7 * itemCount + 1 ∧
      (¬ s.Finished ↔ ∃ act s', s.step itemCount channelCapacity act = some s') ∧
      (s.Finished → ∃ result, s.result = some result ∧
        result.values.map Int32.toInt = oneTo itemCount ∧
        result.sum.toInt = itemCount * (itemCount + 1) / 2) := by
  obtain ⟨hcount, hcapacity⟩ := argumentError_eq_none hargs
  have h := (Flow.ordered_invariant itemCount channelCapacity).reachable ⟨{}, acts, rfl, hrun⟩
  refine ⟨?_, ?_, ?_, ?_, ?_⟩
  · rw [← items_toInt hcount]
    have hfront : s.values <+: items s.next := by
      rw [← h.order, List.append_assoc, List.append_assoc]
      exact List.prefix_append _ _
    exact (hfront.trans (items_isPrefix h.next_le)).map _
  · rw [← h.count]
    exact h.bounded
  · have hsteps := hrun.length_le (I := fun s => s.Ordered itemCount channelCapacity)
      (fun s act s' hs hstep => ⟨hs.step (Flow.step_moves hstep),
        Flow.remaining_lt hs (Flow.step_moves hstep)⟩) .initial
    have hstart : Flow.remaining itemCount {} = 7 * itemCount + 1 := by simp [Flow.remaining]
    omega
  · refine ⟨h.progress hcapacity, ?_⟩
    rintro ⟨act, s', hstep⟩ hfinished
    cases (hfinished.step_eq_none itemCount channelCapacity act).symm.trans hstep
  · intro hfinished
    have hvalues := h.values_of_finished hfinished
    obtain ⟨sum, hfold, hsum⟩ := fold_items hcount
    refine ⟨⟨items itemCount, sum⟩, ?_, items_toInt hcount, hsum⟩
    rw [Flow.result, hvalues, hfold]
    rfl

/-- Two items through a channel for one; the second is refused and pulled. -/
def twoItems : List FlowAct :=
  [.produce, .tryPut, .produce, .tryPut, .register, .consume, .finish, .decrement, .produce,
    .consume, .finish, .decrement]

theorem flow_pipeline_delivers_two_items : ∃ s result,
    (flowSystem 2 1).Run {} twoItems s ∧ s.Finished ∧ s.result = some result ∧
      result.values.map Int32.toInt = [1, 2] ∧ result.sum.toInt = 3 := by
  have hexec : twoItems.foldlM (Flow.step 2 1) {} =
      some ⟨2, .stopped, 0, [], none, 0, [1, 2]⟩ := by decide
  have hrun := Run.of_foldlM (S := flowSystem 2 1) (fun _ _ _ h => h) hexec
  have hargs : argumentError 2 1 1 = none := by decide
  have hfinished : Flow.Finished ⟨2, .stopped, 0, [], none, 0, [1, 2]⟩ := ⟨rfl, rfl, rfl, rfl⟩
  obtain ⟨-, -, -, -, hresult⟩ := flow_pipeline_delivers hargs hrun
  obtain ⟨result, hsome, hvalues, hsum⟩ := hresult hfinished
  exact ⟨_, result, hrun, hfinished, hsome, hvalues, hsum⟩

end CppWorkspace.Tbb
