import CppWorkspace.Csp.MpscDelivery
import CppWorkspace.Lib.TextStream

/-!
`mt_consumer` of `csp_mpsc.cpp`: the consumer that knows how many messages there will
be, and what it prints about their order.
-/

namespace CppWorkspace.Csp.CspMpsc

open Lib.TextStream

abbrev Text := List Char

/-- The locals of `mt_consumer`. -/
structure Checker (mtProducers : ℕ) where
  lastSeq : Vector ℕ (mtProducers + 1) := .replicate _ 0
  count : Vector ℕ (mtProducers + 1) := .replicate _ 0
  fifoViolations : ℕ := 0
deriving DecidableEq, Repr

/-- The element that `.at(producerId)` is about. -/
def index (mtProducers : ℕ) (producerId : ProducerId) : Option (Fin (mtProducers + 1)) :=
  if h : 0 ≤ producerId ∧ producerId.toNat < mtProducers + 1 then some ⟨producerId.toNat, h.2⟩
  else none

def producerLine (id : ProducerId) (count : ℕ) (verdict : Text) : Text :=
  "  producer ".toList ++ showInt id ++ ": ".toList ++ showInt count ++
    " messages, per-producer FIFO ".toList ++ verdict ++ ['\n']

namespace Checker

variable {mtProducers : ℕ}

/-- One round of the loop; none when `.at` throws. -/
def check (c : Checker mtProducers) (msg : Message) : Option (Checker mtProducers) := do
  let i ← index mtProducers msg.producerId
  return {
    lastSeq := c.lastSeq.set i msg.seq
    count := c.count.set i (c.count[i] + 1)
    fifoViolations :=
      if msg.seq ≠ c.lastSeq[i] + 1 then c.fifoViolations + 1 else c.fifoViolations }

def verdict (mtPerProducer : ℕ) (c : Checker mtProducers) (i : Fin (mtProducers + 1)) : Text :=
  if c.lastSeq[i] = mtPerProducer then "intact".toList else "BROKEN".toList

/-- What is printed after the loop, a line each. -/
def report (mtPerProducer : ℕ) (c : Checker mtProducers) : List Text :=
  ("consumer: received ".toList ++ showInt (mtProducers * mtPerProducer) ++
    " messages from ".toList ++ showInt mtProducers ++
    " producer threads, no locks in user code\n".toList) ::
  (List.finRange mtProducers).map (fun i : Fin mtProducers =>
    producerLine (i.val + 1) c.count[i.succ] (c.verdict mtPerProducer i.succ)) ++
  ["consumer: per-producer FIFO violations: ".toList ++ showInt c.fifoViolations ++
    " (expected 0)\n".toList]

end Checker

/-- The consumer waits for a message, an index was out of range, or it has returned with
these locals and has printed these lines. -/
inductive Outcome (mtProducers : ℕ) where
  | waiting
  | threw
  | returned (final : Checker mtProducers) (output : List Text)
deriving DecidableEq, Repr

/-- The loop, with the messages to come and how many are expected. -/
def receiveAll {mtProducers : ℕ} (mtPerProducer : ℕ) :
    ℕ → List Message → Checker mtProducers → Outcome mtProducers
  | 0, _, c => .returned c (c.report mtPerProducer)
  | _ + 1, [], _ => .waiting
  | n + 1, msg :: rest, c =>
      match c.check msg with
      | none => .threw
      | some c' => receiveAll mtPerProducer n rest c'

def mtConsumer (mtProducers mtPerProducer : ℕ) (arrivals : List Message) : Outcome mtProducers :=
  receiveAll mtPerProducer (mtProducers * mtPerProducer) arrivals {}

/-- Every producer contributes every number exactly once. -/
structure Complete (mtProducers mtPerProducer : ℕ) (arrivals : List Message) : Prop where
  length : arrivals.length = mtProducers * mtPerProducer
  once : ∀ (id : ℤ) (seq : ℕ), 1 ≤ id → id ≤ mtProducers → 1 ≤ seq →
    seq ≤ mtPerProducer → arrivals.count ⟨id, seq⟩ = 1

/-- The messages of the producer arrive in the order in which it sends them. -/
def InOrder (mtPerProducer : ℕ) (arrivals : List Message) (id : ProducerId) : Prop :=
  ofProducer id arrivals = messages id mtPerProducer

/-- The line for the producer says that its order is intact. -/
def PrintsIntact (output : List Text) (id : ProducerId) : Prop :=
  ∃ count, output[id.toNat]? = some (producerLine id count "intact".toList)

/-- What the report should tell of the arrivals. -/
structure Verdicts (mtProducers mtPerProducer : ℕ) (arrivals : List Message)
    (final : Checker mtProducers) (output : List Text) : Prop where
  intact : ∀ id : ℤ, 1 ≤ id → id ≤ mtProducers →
    (PrintsIntact output id ↔ InOrder mtPerProducer arrivals id)
  violations : final.fifoViolations = 0 ↔
    ∀ id : ℤ, 1 ≤ id → id ≤ mtProducers → InOrder mtPerProducer arrivals id

/-- The number of the last message of the producer, 0 when there is none. -/
def lastSeq (id : ProducerId) (msgs : List Message) : ℕ :=
  ((ofProducer id msgs).getLast?.map Message.seq).getD 0

section Counting

variable {mtProducers : ℕ}

theorem ofProducer_self (id : ProducerId) (seq : ℕ) :
    ofProducer id [⟨id, seq⟩] = [⟨id, seq⟩] := by
  simp [ofProducer]

theorem ofProducer_other {id other : ProducerId} (hne : other ≠ id) (seq : ℕ) :
    ofProducer other [⟨id, seq⟩] = [] := by
  simp [ofProducer, Ne.symm hne]

theorem messages_length (id : ProducerId) (n : ℕ) : (messages id n).length = n := by
  simp [messages]

/-- So far the messages of the producer have come in order. -/
def Ordered (msgs : List Message) (id : ProducerId) : Prop :=
  ofProducer id msgs = messages id (ofProducer id msgs).length

theorem lastSeq_snoc_self (msgs : List Message) (id : ProducerId) (seq : ℕ) :
    lastSeq id (msgs ++ [⟨id, seq⟩]) = seq := by
  rw [lastSeq, ofProducer_append, ofProducer_self, List.getLast?_append]
  rfl

theorem lastSeq_snoc_other {id other : ProducerId} (hne : other ≠ id) (msgs : List Message)
    (seq : ℕ) : lastSeq other (msgs ++ [⟨id, seq⟩]) = lastSeq other msgs := by
  rw [lastSeq, ofProducer_append, ofProducer_other hne, List.append_nil, lastSeq]

theorem lastSeq_of_eq_messages {id : ProducerId} {msgs : List Message} {n : ℕ}
    (h : ofProducer id msgs = messages id n) : lastSeq id msgs = n := by
  rw [lastSeq, h]
  cases n with
  | zero => rfl
  | succ n => rw [messages_succ, List.getLast?_append]; rfl

theorem ordered_snoc_other {id other : ProducerId} (hne : other ≠ id) (msgs : List Message)
    (seq : ℕ) : Ordered (msgs ++ [⟨id, seq⟩]) other ↔ Ordered msgs other := by
  rw [Ordered, ofProducer_append, ofProducer_other hne, List.append_nil, Ordered]

/-- A message keeps the order exactly when it is the next one. -/
theorem ordered_snoc_self (msgs : List Message) (id : ProducerId) (seq : ℕ) :
    Ordered (msgs ++ [⟨id, seq⟩]) id ↔ Ordered msgs id ∧ seq = lastSeq id msgs + 1 := by
  rw [Ordered, ofProducer_append, ofProducer_self, List.length_append, List.length_singleton,
    messages_succ]
  constructor
  · intro h
    obtain ⟨hbefore, hlast⟩ := List.append_inj' h rfl
    refine ⟨hbefore, ?_⟩
    rw [lastSeq_of_eq_messages hbefore]
    exact congrArg Message.seq (List.singleton_inj.mp hlast)
  · rintro ⟨hbefore, hseq⟩
    rw [lastSeq_of_eq_messages hbefore] at hseq
    rw [← hseq]
    exact congrArg (· ++ [(⟨id, seq⟩ : Message)]) hbefore

/-- The locals tell of the messages received so far. -/
structure Counted (c : Checker mtProducers) (msgs : List Message) : Prop where
  lastSeq : ∀ i : Fin (mtProducers + 1), c.lastSeq[i] = lastSeq i.val msgs
  count : ∀ i : Fin (mtProducers + 1), c.count[i] = (ofProducer i.val msgs).length
  violations : c.fifoViolations = 0 ↔ ∀ id, Ordered msgs id

theorem counted_start : Counted ({} : Checker mtProducers) [] where
  lastSeq i := by
    simp only [Fin.getElem_fin, Vector.getElem_replicate]
    rfl
  count i := by
    simp only [Fin.getElem_fin, Vector.getElem_replicate]
    rfl
  violations := iff_of_true rfl fun _ => rfl

theorem Counted.check {c : Checker mtProducers} {msgs : List Message} (h : Counted c msgs)
    (i : Fin (mtProducers + 1)) (seq : ℕ) :
    ∃ c', c.check ⟨i.val, seq⟩ = some c' ∧ Counted c' (msgs ++ [⟨i.val, seq⟩]) := by
  have hindex : index mtProducers (i.val : ℤ) = some i := by
    rw [index, dif_pos ⟨Int.natCast_nonneg _, i.isLt⟩]
    rfl
  refine ⟨_, by rw [Checker.check, hindex]; rfl, ?_, ?_, ?_⟩
  · intro j
    by_cases heq : j = i
    · rw [heq, lastSeq_snoc_self]
      exact Vector.getElem_set_self _
    · have hne : (j.val : ℤ) ≠ i.val := fun hval => heq (Fin.ext (Int.ofNat_inj.mp hval))
      rw [lastSeq_snoc_other hne, ← h.lastSeq j]
      exact Vector.getElem_set_ne i.isLt j.isLt fun hval => heq (Fin.ext hval.symm)
  · intro j
    by_cases heq : j = i
    · rw [heq, ofProducer_append, ofProducer_self, List.length_append, ← h.count i]
      exact Vector.getElem_set_self _
    · have hne : (j.val : ℤ) ≠ i.val := fun hval => heq (Fin.ext (Int.ofNat_inj.mp hval))
      rw [ofProducer_append, ofProducer_other hne, List.append_nil, ← h.count j]
      exact Vector.getElem_set_ne i.isLt j.isLt fun hval => heq (Fin.ext hval.symm)
  · have hordered : (∀ id, Ordered (msgs ++ [⟨i.val, seq⟩]) id) ↔
        (∀ id, Ordered msgs id) ∧ seq = CspMpsc.lastSeq i.val msgs + 1 := by
      constructor
      · intro hall
        have hself := (ordered_snoc_self msgs i.val seq).mp (hall i.val)
        refine ⟨fun id => ?_, hself.2⟩
        by_cases heq : id = i.val
        · exact heq ▸ hself.1
        · exact (ordered_snoc_other heq msgs seq).mp (hall id)
      · rintro ⟨hall, hseq⟩ id
        by_cases heq : id = i.val
        · exact heq ▸ (ordered_snoc_self msgs i.val seq).mpr ⟨hall i.val, hseq⟩
        · exact (ordered_snoc_other heq msgs seq).mpr (hall id)
    rw [hordered, ← h.violations, ← h.lastSeq i]
    dsimp only
    split <;> omega

/-- The loop over messages whose producers have an index. -/
theorem Counted.receiveAll (mtPerProducer : ℕ) {rest : List Message} :
    ∀ {c : Checker mtProducers} {msgs : List Message}, Counted c msgs →
      (∀ msg ∈ rest, ∃ i : Fin (mtProducers + 1), msg.producerId = i.val) →
      ∃ final, receiveAll mtPerProducer rest.length rest c =
        .returned final (final.report mtPerProducer) ∧ Counted final (msgs ++ rest) := by
  induction rest with
  | nil =>
      intro c msgs h _
      exact ⟨c, rfl, by rwa [List.append_nil]⟩
  | cons msg rest ih =>
      intro c msgs h hindices
      obtain ⟨i, hid⟩ := hindices msg List.mem_cons_self
      obtain ⟨c', hcheck, hnext⟩ := h.check i msg.seq
      rw [← hid] at hcheck hnext
      obtain ⟨final, hfinal, hcounted⟩ :=
        ih hnext fun m hm => hindices m (List.mem_cons_of_mem _ hm)
      refine ⟨final, ?_, ?_⟩
      · rw [List.length_cons, CspMpsc.receiveAll, hcheck]
        exact hfinal
      · rwa [List.append_assoc] at hcounted

end Counting

section Arrivals

variable {mtProducers mtPerProducer : ℕ} {arrivals : List Message}

/-- All that is sent. -/
def sentMessages (mtProducers mtPerProducer : ℕ) : List Message :=
  (List.range' 1 mtProducers).flatMap fun id : ℕ => messages id mtPerProducer

theorem mem_messages {id : ProducerId} {n : ℕ} {msg : Message} :
    msg ∈ messages id n ↔ msg.producerId = id ∧ 1 ≤ msg.seq ∧ msg.seq ≤ n := by
  rcases msg with ⟨producerId, seq⟩
  simp only [messages, List.mem_map, List.mem_range'_1, Message.mk.injEq]
  constructor
  · rintro ⟨k, hk, rfl, rfl⟩
    exact ⟨rfl, hk.1, by omega⟩
  · rintro ⟨rfl, hfirst, hlast⟩
    exact ⟨seq, ⟨hfirst, by omega⟩, rfl, rfl⟩

theorem mem_sentMessages {id : ℤ} {seq : ℕ} :
    ⟨id, seq⟩ ∈ sentMessages mtProducers mtPerProducer ↔
      (1 ≤ id ∧ id ≤ mtProducers) ∧ 1 ≤ seq ∧ seq ≤ mtPerProducer := by
  simp only [sentMessages, List.mem_flatMap, List.mem_range'_1, mem_messages]
  constructor
  · rintro ⟨n, hn, hproducer, hseq⟩
    have hid : id = n := hproducer
    exact ⟨by omega, hseq⟩
  · rintro ⟨hid, hseq⟩
    have hn : id = id.toNat := by omega
    exact ⟨id.toNat, by omega, hn, hseq⟩

theorem sentMessages_nodup : (sentMessages mtProducers mtPerProducer).Nodup := by
  rw [sentMessages, List.nodup_flatMap]
  constructor
  · intro id _
    exact (List.nodup_range' ..).map fun a b hab => congrArg Message.seq hab
  · refine List.Pairwise.imp ?_ (List.nodup_range' ..)
    intro first second hne msg hfirst hsecond
    have hid : (first : ℤ) = second :=
      (mem_messages.mp hfirst).1.symm.trans (mem_messages.mp hsecond).1
    omega

theorem sentMessages_length :
    (sentMessages mtProducers mtPerProducer).length = mtProducers * mtPerProducer := by
  simp [sentMessages, List.length_flatMap, messages_length]

theorem ofProducer_sentMessages {id : ℤ} (hlow : 1 ≤ id) (hhigh : id ≤ mtProducers) :
    ofProducer id (sentMessages mtProducers mtPerProducer) = messages id mtPerProducer := by
  have hone : ∀ other : ℕ, ofProducer id (messages other mtPerProducer) =
      if (other : ℤ) = id then messages id mtPerProducer else [] := by
    intro other
    split
    · next heq =>
      rw [heq]
      exact List.filter_eq_self.mpr fun msg hmsg => decide_eq_true (mem_messages.mp hmsg).1
    · next hne =>
      exact List.filter_eq_nil_iff.mpr fun msg hmsg hmine =>
        hne ((mem_messages.mp hmsg).1.symm.trans (of_decide_eq_true hmine))
  obtain ⟨n, rfl⟩ := Int.eq_ofNat_of_zero_le (by omega : 0 ≤ id)
  have hall : ∀ count : ℕ, ofProducer n (sentMessages count mtPerProducer) =
      if n ≤ count then messages n mtPerProducer else [] := by
    intro count
    induction count with
    | zero => exact (if_neg (by omega)).symm
    | succ count ih =>
        have hsent : sentMessages (count + 1) mtPerProducer =
            sentMessages count mtPerProducer ++ messages (count + 1 : ℕ) mtPerProducer := by
          rw [sentMessages, List.range'_1_concat, List.flatMap_append, List.flatMap_singleton,
            Nat.add_comm 1 count]
          rfl
        rw [hsent, ofProducer_append, ih, hone]
        split_ifs with hbefore hhere hthere <;> first | omega | simp
  rw [hall, if_pos (by omega)]

theorem Complete.perm (h : Complete mtProducers mtPerProducer arrivals) :
    (sentMessages mtProducers mtPerProducer).Perm arrivals := by
  have hsubset : sentMessages mtProducers mtPerProducer ⊆ arrivals := by
    rintro ⟨id, seq⟩ hmsg
    obtain ⟨⟨hlow, hhigh⟩, hfirst, hlast⟩ := mem_sentMessages.mp hmsg
    have honce := h.once id seq hlow hhigh hfirst hlast
    exact List.count_pos_iff.mp (honce ▸ Nat.one_pos)
  refine (List.subperm_of_subset sentMessages_nodup hsubset).perm_of_length_le ?_
  rw [h.length, sentMessages_length]

theorem Complete.index (h : Complete mtProducers mtPerProducer arrivals) {msg : Message}
    (hmsg : msg ∈ arrivals) : ∃ i : Fin (mtProducers + 1), msg.producerId = i.val := by
  obtain ⟨(id : ℤ), seq⟩ := msg
  obtain ⟨⟨hlow, hhigh⟩, -⟩ := mem_sentMessages.mp (h.perm.mem_iff.mpr hmsg)
  have hid : id = id.toNat := by omega
  exact ⟨⟨id.toNat, by omega⟩, hid⟩

theorem Complete.length_ofProducer (h : Complete mtProducers mtPerProducer arrivals) {id : ℤ}
    (hlow : 1 ≤ id) (hhigh : id ≤ mtProducers) :
    (ofProducer id arrivals).length = mtPerProducer := by
  have hperm := (h.perm.filter fun msg => msg.producerId = id).length_eq
  rw [← messages_length id mtPerProducer, ← ofProducer_sentMessages hlow hhigh]
  exact hperm.symm

/-- The consumer gets to its report. -/
theorem Complete.returns (h : Complete mtProducers mtPerProducer arrivals) :
    ∃ final, mtConsumer mtProducers mtPerProducer arrivals =
      .returned final (final.report mtPerProducer) ∧ Counted final arrivals := by
  have hloop := counted_start.receiveAll mtPerProducer fun msg hmsg => h.index hmsg
  rw [h.length] at hloop
  exact hloop

theorem report_producer (mtPerProducer : ℕ) (c : Checker mtProducers) (i : Fin mtProducers) :
    (c.report mtPerProducer)[i.val + 1]? =
      some (producerLine (i.val + 1) c.count[i.succ] (c.verdict mtPerProducer i.succ)) := by
  rw [Checker.report, List.cons_append, List.getElem?_cons_succ,
    List.getElem?_append_left (by simp), List.getElem?_map, List.getElem?_eq_getElem (by simp)]
  simp

theorem producerLine_verdict {id id' : ProducerId} {count count' : ℕ} {verdict verdict' : Text}
    (h : producerLine id count verdict = producerLine id' count' verdict')
    (hlength : verdict.length = verdict'.length) : verdict = verdict' :=
  (List.append_inj' (List.append_inj' h rfl).1 hlength).2

theorem printsIntact_iff (c : Checker mtProducers) (i : Fin mtProducers) :
    PrintsIntact (c.report mtPerProducer) (i.val + 1) ↔ c.lastSeq[i.succ] = mtPerProducer := by
  have hline := report_producer mtPerProducer c i
  have hnat : ((i.val : ℤ) + 1).toNat = i.val + 1 := rfl
  rw [PrintsIntact, hnat, hline]
  constructor
  · rintro ⟨count, heq⟩
    by_contra hbroken
    rw [Checker.verdict, if_neg hbroken] at heq
    have hverdict := producerLine_verdict (Option.some.inj heq) rfl
    exact absurd hverdict (by decide)
  · intro hlast
    exact ⟨_, by rw [Checker.verdict, if_pos hlast]⟩

/-- What the verdict goes by is the number of the last message of the producer. -/
theorem Counted.intact_iff {final : Checker mtProducers} (h : Counted final arrivals) {id : ℤ}
    (hlow : 1 ≤ id) (hhigh : id ≤ mtProducers) :
    PrintsIntact (final.report mtPerProducer) id ↔
      CspMpsc.lastSeq id arrivals = mtPerProducer := by
  obtain ⟨n, rfl⟩ : ∃ n : ℕ, id = n + 1 := ⟨(id - 1).toNat, by omega⟩
  have hn : n < mtProducers := by omega
  rw [printsIntact_iff final ⟨n, hn⟩, h.lastSeq]
  rfl

end Arrivals

/-- However the messages of the producers arrive, each exactly once: the report is right
about every producer and about the violations exactly when no producer whose own
number `mtPerProducer` arrives last of its messages has them out of order. -/
theorem verdicts_iff {mtProducers mtPerProducer : ℕ} {arrivals : List Message}
    (hcomplete : Complete mtProducers mtPerProducer arrivals) :
    ∃ final output, mtConsumer mtProducers mtPerProducer arrivals = .returned final output ∧
      (Verdicts mtProducers mtPerProducer arrivals final output ↔
        ∀ id : ℤ, 1 ≤ id → id ≤ mtProducers →
          (ofProducer id arrivals).getLast? = some ⟨id, mtPerProducer⟩ →
            InOrder mtPerProducer arrivals id) := by
  obtain ⟨final, hreturns, hcounted⟩ := hcomplete.returns
  refine ⟨final, _, hreturns, ?_⟩
  constructor
  · intro hverdicts id hlow hhigh hlast
    refine (hverdicts.intact id hlow hhigh).mp ((hcounted.intact_iff hlow hhigh).mpr ?_)
    rw [lastSeq, hlast]
    rfl
  · intro hcondition
    constructor
    · intro id hlow hhigh
      rw [hcounted.intact_iff hlow hhigh]
      refine ⟨fun hlast => ?_, lastSeq_of_eq_messages⟩
      cases hget : (ofProducer id arrivals).getLast? with
      | none =>
          have hnone := List.getLast?_eq_none_iff.mp hget
          have hzero := hcomplete.length_ofProducer hlow hhigh
          rw [hnone] at hzero
          rw [InOrder, hnone, ← hzero]
          rfl
      | some msg =>
          refine hcondition id hlow hhigh ?_
          have hmsg : msg.producerId = id :=
            of_decide_eq_true (List.mem_filter.mp (List.mem_of_getLast? hget)).2
          rw [lastSeq, hget] at hlast
          have hseq : msg.seq = mtPerProducer := hlast
          rw [hget, ← hmsg, ← hseq]
    · rw [hcounted.violations]
      constructor
      · intro hordered id hlow hhigh
        rw [InOrder, ← hcomplete.length_ofProducer hlow hhigh]
        exact hordered id
      · intro hall id
        by_cases hrange : 1 ≤ id ∧ id ≤ mtProducers
        · have hin := hall id hrange.1 hrange.2
          rw [InOrder, ← hcomplete.length_ofProducer hrange.1 hrange.2] at hin
          exact hin
        · have hnone : ofProducer id arrivals = [] := by
            refine List.filter_eq_nil_iff.mpr fun msg hmsg hmine => hrange ?_
            rcases msg with ⟨producerId, seq⟩
            have hid : producerId = id := of_decide_eq_true hmine
            exact hid ▸ (mem_sentMessages.mp (hcomplete.perm.mem_iff.mpr hmsg)).1
          rw [Ordered, hnone]
          rfl

/-- The messages of two producers, merged. -/
def mergedArrivals : List Message := [⟨2, 1⟩, ⟨1, 1⟩, ⟨1, 2⟩, ⟨2, 2⟩]

theorem merged_arrivals_verdicts : ∃ final output,
    mtConsumer 2 2 mergedArrivals = .returned final output ∧
      Verdicts 2 2 mergedArrivals final output := by
  have hcomplete : Complete 2 2 mergedArrivals := by
    refine ⟨rfl, fun id seq hlow hhigh hfirst hlast => ?_⟩
    have hbound : id ≤ 2 := hhigh
    interval_cases id <;> interval_cases seq <;> decide
  obtain ⟨final, output, hreturns, hiff⟩ := verdicts_iff hcomplete
  refine ⟨final, output, hreturns, hiff.mpr fun id hlow hhigh _ => ?_⟩
  have hbound : id ≤ 2 := hhigh
  interval_cases id <;> rfl

/-- One producer, whose second message overtakes the first. -/
def reorderedArrivals : List Message := [⟨1, 2⟩, ⟨1, 1⟩, ⟨1, 3⟩]

theorem reordered_arrivals_intact : Complete 1 3 reorderedArrivals ∧ ∃ final output,
    mtConsumer 1 3 reorderedArrivals = .returned final output ∧ final.fifoViolations = 3 ∧
      output[1]? = some "  producer 1: 3 messages, per-producer FIFO intact\n".toList ∧
      ¬ InOrder 3 reorderedArrivals 1 ∧ ¬ Verdicts 1 3 reorderedArrivals final output := by
  have hcomplete : Complete 1 3 reorderedArrivals := by
    refine ⟨rfl, fun id seq hlow hhigh hfirst hlast => ?_⟩
    have hbound : id ≤ 1 := hhigh
    interval_cases id
    interval_cases seq <;> decide
  have hdisordered : ¬ InOrder 3 reorderedArrivals 1 := by
    unfold InOrder
    decide
  refine ⟨hcomplete, _, _, rfl, by decide, by decide, hdisordered, fun hverdicts => ?_⟩
  exact hdisordered ((hverdicts.intact 1 le_rfl le_rfl).mp ⟨3, by decide⟩)

end CppWorkspace.Csp.CspMpsc
