import CppWorkspace.Csp.Duo

/-!
The flow control of `csp_duo.cpp`: where all schedules lead to, and that on the way
what the producer may still send and what it has sent is what the consumer waits for.
-/

namespace CppWorkspace.Csp.CspDuo

open Lib System

variable {producer producer' : Coroutine ProducerPc} {consumer consumer' : Coroutine ConsumerPc}
  {demand data c : Channel ℤ}

@[simp] theorem creditState_setProducer :
    (creditState producer consumer demand data).setProcess .producer producer' =
      creditState producer' consumer demand data := by
  simp only [NetState.setProcess, creditState, NetState.mk.injEq, true_and]
  funext p
  cases p <;> rfl

@[simp] theorem creditState_setConsumer :
    (creditState producer consumer demand data).setProcess .consumer consumer' =
      creditState producer consumer' demand data := by
  simp only [NetState.setProcess, creditState, NetState.mk.injEq, true_and]
  funext p
  cases p <;> rfl

@[simp] theorem creditState_setDemand :
    (creditState producer consumer demand data).setChannel .demand c =
      creditState producer consumer c data := by
  simp only [NetState.setChannel, creditState, NetState.mk.injEq, and_true]
  funext d
  cases d <;> rfl

@[simp] theorem creditState_setData :
    (creditState producer consumer demand data).setChannel .data c =
      creditState producer consumer demand c := by
  simp only [NetState.setChannel, creditState, NetState.mk.injEq, and_true]
  funext d
  cases d <;> rfl

def Flow.writer : Flow → Peer
  | .demand => .consumer
  | .data => .producer

def Flow.reader : Flow → Peer
  | .demand => .producer
  | .data => .consumer

theorem creditProgram_wired (batchSize : ℕ) :
    Wired (creditProgram batchSize) Flow.writer Flow.reader where
  writes {p locals c what} h hwrites := by
    cases p with
    | producer =>
        obtain ⟨pc, out⟩ := locals
        cases pc with
        | sending left value nextValue => cases h; rfl
        | receiving nextValue => cases h; exact absurd hwrites id
        | producing left nextValue => cases left <;> cases h
        | returned | threw | undefined => cases h
    | consumer =>
        obtain ⟨pc, out⟩ := locals
        cases pc with
        | requesting left => cases h; rfl
        | looping left =>
            cases left with
            | zero => cases h; rfl
            | succ left => cases h
        | receiving left missing =>
            cases missing with
            | zero => cases h
            | succ missing => cases h; exact absurd hwrites id
        | returned | threw => cases h
  reads {p locals c what} h hreads := by
    cases p with
    | producer =>
        obtain ⟨pc, out⟩ := locals
        cases pc with
        | sending left value nextValue => cases h; exact absurd trivial hreads
        | receiving nextValue => cases h; rfl
        | producing left nextValue => cases left <;> cases h
        | returned | threw | undefined => cases h
    | consumer =>
        obtain ⟨pc, out⟩ := locals
        cases pc with
        | requesting left => cases h; exact absurd trivial hreads
        | looping left =>
            cases left with
            | zero => cases h; exact absurd trivial hreads
            | succ left => cases h
        | receiving left missing =>
            cases missing with
            | zero => cases h
            | succ missing => cases h; rfl
        | returned | threw => cases h

variable {batchCount batchSize a b n k left : ℕ} {producerOut consumerOut : List Text}

/-- One value for which there is credit. -/
theorem credit_value {missing : ℕ} (hfits : FitsInt ((n : ℤ) + 1)) (hdata : data.Meets) :
    (creditDemo batchCount batchSize a b).Reaches
      (creditState ⟨.producing (k + 1) n, producerOut⟩
        ⟨.receiving left (missing + 1), consumerOut⟩ demand data)
      (creditState ⟨.producing k ((n + 1 : ℕ) : ℤ), producerOut⟩
        ⟨.receiving left missing, consumerOut ++ [gotText n]⟩ demand data) := by
  have hproduce : ProducerPc.produce k n = .sending k n ((n + 1 : ℕ) : ℤ) := by
    rw [ProducerPc.produce, int_of_fits hfits, Nat.cast_succ]
  have hgo : (creditDemo batchCount batchSize a b).Reaches _ _ := reaches_go
    (s := creditState ⟨.producing (k + 1) n, producerOut⟩
      ⟨.receiving left (missing + 1), consumerOut⟩ demand data) (p := .producer) rfl
  have hsend : (creditDemo batchCount batchSize a b).Reaches _ _ := reaches_transfer
    (s := creditState ⟨.sending k n ((n + 1 : ℕ) : ℤ), producerOut⟩
      ⟨.receiving left (missing + 1), consumerOut⟩ demand data)
    (p := .producer) (q := .consumer) (c := .data) rfl rfl hdata
  simp only [creditState_setProducer, creditState_setConsumer, hproduce] at hgo hsend
  exact hgo.trans hsend

/-- The values from `n` on that a batch consists of. -/
def batchTexts (n size : ℕ) : List Text := (List.range' n size).map fun value => gotText value

/-- The credit of a batch is used up. -/
theorem credit_values (hfits : FitsInt ((n + k : ℕ) : ℤ)) (hdata : data.Meets) :
    (creditDemo batchCount batchSize a b).Reaches
      (creditState ⟨.producing k n, producerOut⟩ ⟨.receiving left k, consumerOut⟩ demand data)
      (creditState ⟨.producing 0 ((n + k : ℕ) : ℤ), producerOut⟩
        ⟨.receiving left 0, consumerOut ++ batchTexts n k⟩ demand data) := by
  induction k generalizing n consumerOut with
  | zero => simpa [batchTexts] using Reaches.refl _
  | succ k ih =>
      have hone : FitsInt ((n : ℤ) + 1) := by
        obtain ⟨-, hhigh⟩ := hfits
        push_cast at hhigh
        exact ⟨by omega, by omega⟩
      have hrest := @ih (n + 1) (consumerOut ++ [gotText n]) (by rwa [Nat.add_right_comm])
      rw [List.append_assoc] at hrest
      have htexts : batchTexts n (k + 1) = [gotText n] ++ batchTexts (n + 1) k := by
        simp [batchTexts, List.range'_succ]
      rw [htexts, ← Nat.add_assoc, Nat.add_right_comm]
      exact (credit_value hone hdata).trans hrest

/-- One batch: the consumer asks for it and gets it. -/
theorem credit_batch (hfits : FitsInt ((n + batchSize : ℕ) : ℤ)) (hdemand : demand.Meets)
    (hdata : data.Meets) :
    (creditDemo batchCount batchSize a b).Reaches
      (creditState ⟨.receiving n, producerOut⟩ ⟨.looping (left + 1), consumerOut⟩ demand data)
      (creditState ⟨.receiving ((n + batchSize : ℕ) : ℤ), producerOut ++ [creditText batchSize]⟩
        ⟨.looping left, consumerOut ++ requestText batchSize :: batchTexts n batchSize⟩ demand
        data) := by
  have hloop : (creditDemo batchCount batchSize a b).Reaches _ _ := reaches_go
    (s := creditState ⟨.receiving n, producerOut⟩ ⟨.looping (left + 1), consumerOut⟩ demand data)
    (p := .consumer) rfl
  have hask : (creditDemo batchCount batchSize a b).Reaches _ _ := reaches_transfer
    (s := creditState ⟨.receiving n, producerOut⟩
      ⟨.requesting left, consumerOut ++ [requestText batchSize]⟩ demand data)
    (p := .consumer) (q := .producer) (c := .demand) rfl rfl hdemand
  have hvalues : (creditDemo batchCount batchSize a b).Reaches
      (creditState ⟨.producing batchSize n, producerOut ++ [creditText batchSize]⟩
        ⟨.receiving left batchSize, consumerOut ++ [requestText batchSize]⟩ demand data) _ :=
    credit_values hfits hdata
  have hproducer : (creditDemo batchCount batchSize a b).Reaches _ _ := reaches_go
    (s := creditState
      ⟨.producing 0 ((n + batchSize : ℕ) : ℤ), producerOut ++ [creditText batchSize]⟩
      ⟨.receiving left 0, consumerOut ++ [requestText batchSize] ++ batchTexts n batchSize⟩
      demand data) (p := .producer) rfl
  have hconsumer : (creditDemo batchCount batchSize a b).Reaches _ _ := reaches_go
    (s := creditState ⟨.receiving ((n + batchSize : ℕ) : ℤ), producerOut ++ [creditText batchSize]⟩
      ⟨.receiving left 0, consumerOut ++ [requestText batchSize] ++ batchTexts n batchSize⟩
      demand data) (p := .consumer) rfl
  simp only [creditState_setProducer, creditState_setConsumer, Int.toNat_natCast] at hloop hask
  simp only [creditState_setProducer, creditState_setConsumer] at hproducer hconsumer
  rw [List.append_assoc, List.singleton_append] at hvalues hproducer hconsumer
  exact (hloop.trans hask).trans ((hvalues.trans hproducer).trans hconsumer)

/-- What the consumer prints for the batches from `n` on. -/
def consumerTexts (batchSize : ℕ) (n : ℕ) : ℕ → List Text
  | 0 => []
  | left + 1 =>
      requestText batchSize :: batchTexts n batchSize ++
        consumerTexts batchSize (n + batchSize) left

theorem consumerTexts_eq (batchSize n left : ℕ) :
    consumerTexts batchSize n left = (List.range left).flatMap fun batch =>
      requestText batchSize :: batchTexts (n + batch * batchSize) batchSize := by
  induction left generalizing n with
  | zero => rfl
  | succ left ih =>
      rw [consumerTexts, ih, List.range_succ_eq_map, List.flatMap_cons, List.flatMap_map]
      simp [Nat.succ_mul, Nat.add_assoc, Nat.add_comm batchSize]

/-- The consumer goes through its batches. -/
theorem credit_batches (hfits : FitsInt ((n + left * batchSize : ℕ) : ℤ)) (hdemand : demand.Meets)
    (hdata : data.Meets) :
    (creditDemo batchCount batchSize a b).Reaches
      (creditState ⟨.receiving n, producerOut⟩ ⟨.looping left, consumerOut⟩ demand data)
      (creditState ⟨.receiving ((n + left * batchSize : ℕ) : ℤ),
          producerOut ++ List.replicate left (creditText batchSize)⟩
        ⟨.looping 0, consumerOut ++ consumerTexts batchSize n left⟩ demand data) := by
  induction left generalizing n producerOut consumerOut with
  | zero => simpa [consumerTexts] using Reaches.refl _
  | succ left ih =>
      have hend : n + (left + 1) * batchSize = n + batchSize + left * batchSize := by ring
      rw [hend] at hfits ⊢
      have hone : FitsInt ((n + batchSize : ℕ) : ℤ) := by
        obtain ⟨-, hhigh⟩ := hfits
        push_cast at hhigh ⊢
        have hnonneg : (0 : ℤ) ≤ left * batchSize := by positivity
        exact ⟨by omega, by omega⟩
      have hrest := @ih _ (producerOut ++ [creditText batchSize])
        (consumerOut ++ requestText batchSize :: batchTexts n batchSize) hfits
      rw [List.append_assoc, List.append_assoc, List.singleton_append] at hrest
      exact (credit_batch hone hdemand hdata).trans hrest

/-- The consumer wants no more. -/
theorem credit_close {nextValue : ℤ} (hdemand : demand.Meets) :
    (creditDemo batchCount batchSize a b).Reaches
      (creditState ⟨.receiving nextValue, producerOut⟩ ⟨.looping 0, consumerOut⟩ demand data)
      (creditState ⟨.returned, producerOut ++ [producedText (nextValue - 1)]⟩
        ⟨.returned, consumerOut⟩ demand.close data) := by
  have hclose : (creditDemo batchCount batchSize a b).Reaches _ _ := reaches_close
    (s := creditState ⟨.receiving nextValue, producerOut⟩ ⟨.looping 0, consumerOut⟩ demand data)
    (p := .consumer) (c := .demand) rfl
  have hended : (creditDemo batchCount batchSize a b).Reaches _ _ := reaches_ended
    (s := creditState ⟨.receiving nextValue, producerOut⟩ ⟨.returned, consumerOut⟩ demand.close
      data) (p := .producer) (c := .demand) rfl ⟨rfl, hdemand.2⟩
  simp only [creditState_setProducer, creditState_setConsumer,
    creditState_setDemand] at hclose hended
  exact hclose.trans hended

/-- Both coroutines have returned: all batches have been asked for and their values have
come in order. -/
def creditDone (batchCount batchSize demandCapacity dataCapacity : ℕ) : CreditState :=
  creditState
    ⟨.returned, List.replicate batchCount (creditText batchSize) ++
      [producedText ((batchCount * batchSize : ℕ) : ℤ)]⟩
    ⟨.returned, (List.range batchCount).flatMap fun batch =>
      requestText batchSize :: batchTexts (1 + batch * batchSize) batchSize⟩
    (Channel.make demandCapacity).close (.make dataCapacity)

theorem credit_leadsTo (batchCount batchSize demandCapacity dataCapacity : ℕ)
    (hfits : FitsInt ((1 + batchCount * batchSize : ℕ) : ℤ)) :
    (creditDemo batchCount batchSize demandCapacity dataCapacity).LeadsTo
      (creditStart batchCount demandCapacity dataCapacity)
      (creditDone batchCount batchSize demandCapacity dataCapacity) := by
  refine ((creditProgram_wired batchSize).commutes _).leadsTo (stuck_of_stopped ?_) ?_
  · intro p
    cases p <;> rfl
  · have hbatches : (creditDemo batchCount batchSize demandCapacity dataCapacity).Reaches
        (creditStart batchCount demandCapacity dataCapacity) _ :=
      credit_batches hfits (Channel.make_meets _) (Channel.make_meets _)
    have hclose : (creditDemo batchCount batchSize demandCapacity dataCapacity).Reaches
        (creditState ⟨.receiving ((1 + batchCount * batchSize : ℕ) : ℤ), [] ++
            List.replicate batchCount (creditText batchSize)⟩
          ⟨.looping 0, [] ++ consumerTexts batchSize 1 batchCount⟩ (.make demandCapacity)
          (.make dataCapacity)) _ := credit_close (Channel.make_meets _)
    have hcount : ((1 + batchCount * batchSize : ℕ) : ℤ) - 1 = (batchCount * batchSize : ℕ) := by
      push_cast
      ring
    rw [List.nil_append, List.nil_append, consumerTexts_eq, hcount] at hclose
    rw [List.nil_append, List.nil_append, consumerTexts_eq] at hbatches
    exact hbatches.trans hclose

/-! The balance of credit and values. -/

/-- The values for which the producer has credit and which it has not sent. -/
def ProducerPc.owed : ProducerPc → ℕ
  | .producing left _ => left
  | .sending left _ _ => left + 1
  | .receiving _ | .returned | .threw | .undefined => 0

/-- The values for which the consumer waits. -/
def ConsumerPc.awaited : ConsumerPc → ℕ
  | .receiving _ missing => missing
  | .looping _ | .requesting _ | .returned | .threw => 0

/-- The credit that is underway or not used up, and the values underway. -/
def underway (s : CreditState) : ℤ :=
  (s.channel .demand).buffer.sum + (s.process .producer).pc.owed + (s.channel .data).buffer.length

def awaited (s : CreditState) : ℕ := (s.process .consumer).pc.awaited

structure CreditFlow (batchSize : ℕ) (s : CreditState) : Prop where
  credits : ∀ credit ∈ (s.channel .demand).buffer, credit = batchSize
  balance : underway s = awaited s
  bounded : awaited s ≤ batchSize

theorem exists_creditState (s : CreditState) :
    ∃ producer consumer demand data, s = creditState producer consumer demand data := by
  refine ⟨s.process .producer, s.process .consumer, s.channel .demand, s.channel .data, ?_⟩
  obtain ⟨channel, process⟩ := s
  rw [creditState, NetState.mk.injEq]
  constructor
  · funext c
    cases c <;> rfl
  · funext p
    cases p <;> rfl

/-- No coroutine has failed. -/
def Unfailed (s : CreditState) : Prop :=
  (s.process .producer).pc ≠ .threw ∧ (s.process .producer).pc ≠ .undefined ∧
    (s.process .consumer).pc ≠ .threw

@[simp] theorem underway_creditState :
    underway (creditState producer consumer demand data) =
      demand.buffer.sum + producer.pc.owed + data.buffer.length := rfl

@[simp] theorem awaited_creditState :
    awaited (creditState producer consumer demand data) = consumer.pc.awaited := rfl

/-- The producer uses a channel. -/
theorem CreditFlow.producer_uses
    (h : CreditFlow batchSize (creditState producer consumer demand data))
    {flow : Flow} {what : Use ℤ (Coroutine ProducerPc)} {next : Coroutine ProducerPc}
    (hprogram : creditProducer producer = .use flow what)
    (hrun : what.run ((creditState producer consumer demand data).channel flow) = some (next, c))
    (hsound : next.pc ≠ .threw) :
    CreditFlow batchSize
      (((creditState producer consumer demand data).setChannel flow c).setProcess .producer
        next) := by
  obtain ⟨hcredits, hbalance, hbounded⟩ := h
  obtain ⟨pc, out⟩ := producer
  simp only [underway_creditState, awaited_creditState] at hbalance hbounded
  cases pc with
  | receiving nextValue =>
      cases hprogram
      rcases Use.run_receive hrun with ⟨credit, htake, rfl⟩ | ⟨-, -, rfl, rfl⟩
      · have hbuffer : demand.buffer = credit :: c.buffer := (Channel.take_spec htake).1
        have hcredit : credit = batchSize := hcredits credit (by
          change credit ∈ demand.buffer
          rw [hbuffer]
          exact List.mem_cons_self)
        rw [creditState_setDemand, creditState_setProducer]
        refine ⟨?_, ?_, hbounded⟩
        · intro other hother
          refine hcredits other ?_
          change other ∈ demand.buffer
          rw [hbuffer]
          exact List.mem_cons_of_mem _ hother
        · rw [hbuffer, List.sum_cons] at hbalance
          simp only [underway_creditState, awaited_creditState, ProducerPc.owed] at hbalance ⊢
          omega
      · rw [creditState_setDemand, creditState_setProducer]
        exact ⟨hcredits, hbalance, hbounded⟩
  | sending left value nextValue =>
      cases hprogram
      rcases Use.run_send hrun with ⟨-, rfl, -⟩ | ⟨-, rfl, hput⟩
      · exact absurd rfl hsound
      · have hbuffer : c.buffer = data.buffer ++ [value] := (Channel.put_spec hput).2.2.1
        rw [creditState_setData, creditState_setProducer]
        refine ⟨hcredits, ?_, hbounded⟩
        simp only [underway_creditState, awaited_creditState, ProducerPc.owed, hbuffer,
          List.length_append, List.length_singleton] at hbalance ⊢
        push_cast at hbalance ⊢
        omega
  | producing left nextValue => cases left <;> cases hprogram
  | returned | threw | undefined => cases hprogram

/-- The consumer uses a channel. -/
theorem CreditFlow.consumer_uses
    (h : CreditFlow batchSize (creditState producer consumer demand data))
    {flow : Flow} {what : Use ℤ (Coroutine ConsumerPc)} {next : Coroutine ConsumerPc}
    (hprogram : creditConsumer batchSize consumer = .use flow what)
    (hrun : what.run ((creditState producer consumer demand data).channel flow) = some (next, c))
    (hsound : next.pc ≠ .threw) :
    CreditFlow batchSize
      (((creditState producer consumer demand data).setChannel flow c).setProcess .consumer
        next) := by
  obtain ⟨hcredits, hbalance, hbounded⟩ := h
  obtain ⟨pc, out⟩ := consumer
  simp only [underway_creditState, awaited_creditState] at hbalance hbounded
  cases pc with
  | requesting left =>
      cases hprogram
      rcases Use.run_send hrun with ⟨-, rfl, -⟩ | ⟨-, rfl, hput⟩
      · exact absurd rfl hsound
      · have hbuffer : c.buffer = demand.buffer ++ [(batchSize : ℤ)] :=
          (Channel.put_spec hput).2.2.1
        rw [creditState_setDemand, creditState_setConsumer]
        refine ⟨?_, ?_, le_rfl⟩
        · intro credit hcredit
          change credit ∈ c.buffer at hcredit
          rw [hbuffer, List.mem_append, List.mem_singleton] at hcredit
          exact hcredit.elim (hcredits credit) id
        · simp only [underway_creditState, awaited_creditState, ConsumerPc.awaited, hbuffer,
            List.sum_append, List.sum_singleton] at hbalance ⊢
          omega
  | looping left =>
      cases left with
      | zero =>
          cases hprogram
          cases hrun
          rw [creditState_setDemand, creditState_setConsumer]
          exact ⟨hcredits, hbalance, hbounded⟩
      | succ left => cases hprogram
  | receiving left missing =>
      cases missing with
      | zero => cases hprogram
      | succ missing =>
          cases hprogram
          rcases Use.run_receive hrun with ⟨value, htake, rfl⟩ | ⟨-, -, rfl, -⟩
          · have hbuffer : data.buffer = value :: c.buffer := (Channel.take_spec htake).1
            rw [creditState_setData, creditState_setConsumer]
            refine ⟨hcredits, ?_, Nat.le_of_succ_le hbounded⟩
            simp only [underway_creditState, awaited_creditState, ConsumerPc.awaited, hbuffer,
              List.length_cons] at hbalance ⊢
            push_cast at hbalance
            omega
          · exact absurd rfl hsound
  | returned | threw => cases hprogram

/-- A coroutine goes on by itself. -/
theorem CreditFlow.goes {s : CreditState} (h : CreditFlow batchSize s) {p : Peer} {next : p.Locals}
    (hprogram : creditProgram batchSize p (s.process p) = .go next)
    (hsound : Unfailed (s.setProcess p next)) : CreditFlow batchSize (s.setProcess p next) := by
  obtain ⟨⟨producerPc, producerOut⟩, ⟨consumerPc, consumerOut⟩, demand, data, rfl⟩ :=
    exists_creditState s
  obtain ⟨hcredits, hbalance, hbounded⟩ := h
  simp only [underway_creditState, awaited_creditState] at hbalance hbounded
  cases p with
  | producer =>
      cases producerPc with
      | producing left nextValue =>
          cases left with
          | zero =>
              cases hprogram
              rw [creditState_setProducer]
              exact ⟨hcredits, hbalance, hbounded⟩
          | succ left =>
              cases hprogram
              rw [creditState_setProducer] at hsound ⊢
              cases hnext : int (nextValue + 1) with
              | none =>
                  refine absurd ?_ hsound.2.1
                  change ProducerPc.produce left nextValue = .undefined
                  rw [ProducerPc.produce, hnext]
              | some following =>
                  rw [ProducerPc.produce, hnext]
                  exact ⟨hcredits, hbalance, hbounded⟩
      | receiving _ | sending _ _ _ | returned | threw | undefined => cases hprogram
  | consumer =>
      cases consumerPc with
      | looping left =>
          cases left with
          | zero => cases hprogram
          | succ left =>
              cases hprogram
              rw [creditState_setConsumer]
              exact ⟨hcredits, hbalance, hbounded⟩
      | receiving left missing =>
          cases missing with
          | zero =>
              cases hprogram
              rw [creditState_setConsumer]
              exact ⟨hcredits, hbalance, hbounded⟩
          | succ missing => cases hprogram
      | requesting _ | returned | threw => cases hprogram

/-- The two meet at a channel without room. -/
theorem CreditFlow.hands {s : CreditState} (h : CreditFlow batchSize s) {p q : Peer} {flow : Flow}
    {value : ℤ} {sent refused : p.Locals} {got : ℤ → q.Locals} {ended : q.Locals}
    (hsend : creditProgram batchSize p (s.process p) = .use flow (.send value sent refused))
    (hreceive : creditProgram batchSize q (s.process q) = .use flow (.receive got ended)) :
    CreditFlow batchSize ((s.setProcess p sent).setProcess q (got value)) := by
  have hp := (creditProgram_wired batchSize).writes hsend trivial
  have hq := (creditProgram_wired batchSize).reads hreceive id
  obtain ⟨⟨producerPc, producerOut⟩, ⟨consumerPc, consumerOut⟩, demand, data, rfl⟩ :=
    exists_creditState s
  obtain ⟨hcredits, hbalance, hbounded⟩ := h
  simp only [underway_creditState, awaited_creditState] at hbalance hbounded
  cases flow with
  | demand =>
      subst hp hq
      cases consumerPc with
      | requesting left =>
          cases producerPc with
          | receiving nextValue =>
              cases hsend
              cases hreceive
              change CreditFlow batchSize ((NetState.setProcess _ Peer.consumer _).setProcess
                Peer.producer _)
              rw [creditState_setConsumer, creditState_setProducer]
              refine ⟨hcredits, ?_, le_rfl⟩
              simp only [underway_creditState, awaited_creditState, ProducerPc.owed,
                ConsumerPc.awaited, Int.toNat_natCast] at hbalance ⊢
              omega
          | producing left _ => cases left <;> cases hreceive
          | sending _ _ _ | returned | threw | undefined => cases hreceive
      | looping left => cases left <;> cases hsend
      | receiving _ missing => cases missing <;> cases hsend
      | returned | threw => cases hsend
  | data =>
      subst hp hq
      cases producerPc with
      | sending left value nextValue =>
          cases consumerPc with
          | receiving left missing =>
              cases missing with
              | zero => cases hreceive
              | succ missing =>
                  cases hsend
                  cases hreceive
                  change CreditFlow batchSize ((NetState.setProcess _ Peer.producer _).setProcess
                    Peer.consumer _)
                  rw [creditState_setProducer, creditState_setConsumer]
                  refine ⟨hcredits, ?_, Nat.le_of_succ_le hbounded⟩
                  simp only [underway_creditState, awaited_creditState, ProducerPc.owed,
                    ConsumerPc.awaited] at hbalance ⊢
                  omega
          | looping left => cases left <;> cases hreceive
          | requesting _ | returned | threw => cases hreceive
      | producing left _ => cases left <;> cases hsend
      | receiving _ | returned | threw | undefined => cases hsend

theorem CreditFlow.step {s s' : CreditState} {label : Label Peer} (h : CreditFlow batchSize s)
    (hmove : s.Moves (creditProgram batchSize) label s') (hsound : Unfailed s') :
    CreditFlow batchSize s' := by
  cases hmove with
  | @uses p c what next after hprogram hrun =>
      obtain ⟨producer, consumer, demand, data, rfl⟩ := exists_creditState s
      obtain ⟨hthrew, -, hthrew'⟩ := hsound
      cases p with
      | producer => exact h.producer_uses hprogram hrun (by simpa using hthrew)
      | consumer => exact h.consumer_uses hprogram hrun (by simpa using hthrew')
  | goes hprogram => exact h.goes hprogram hsound
  | hands hsend hreceive _ _ => exact h.hands hsend hreceive

section Runs

variable {labels : List (Label Peer)} {s : CreditState}
  (hfits : FitsInt ((1 + batchCount * batchSize : ℕ) : ℤ))
  (hrun : (creditDemo batchCount batchSize a b).Run (creditStart batchCount a b) labels s)

include hfits hrun

theorem producer_returned (hstop : creditProducer (s.process .producer) = .stop) :
    (s.process .producer).pc = .returned := by
  have hend : s.process .producer = (creditDone batchCount batchSize a b).process .producer :=
    stopped_of_leadsTo (credit_leadsTo batchCount batchSize a b hfits) hrun hstop
  rw [hend]
  rfl

theorem consumer_returned (hstop : creditConsumer batchSize (s.process .consumer) = .stop) :
    (s.process .consumer).pc = .returned := by
  have hend : s.process .consumer = (creditDone batchCount batchSize a b).process .consumer :=
    stopped_of_leadsTo (credit_leadsTo batchCount batchSize a b hfits) hrun hstop
  rw [hend]
  rfl

/-- A coroutine that fails would not have returned at the end. -/
theorem unfailed_of_run : Unfailed s := by
  have hproducer := producer_returned hfits hrun
  have hconsumer := consumer_returned hfits hrun
  obtain ⟨⟨producerPc, producerOut⟩, ⟨consumerPc, consumerOut⟩, demand, data, rfl⟩ :=
    exists_creditState s
  refine ⟨?_, ?_, ?_⟩
  · rintro hthrew
    cases hthrew
    cases hproducer rfl
  · rintro hundefined
    cases hundefined
    cases hproducer rfl
  · rintro hthrew
    cases hthrew
    cases hconsumer rfl

/-- What every reachable state has in common. -/
theorem creditFlow_of_run : CreditFlow batchSize s := by
  induction hrun with
  | nil =>
      refine ⟨?_, rfl, Nat.zero_le _⟩
      intro credit hcredit
      cases hcredit
  | snoc label hbefore hstep ih =>
      exact ih.step (NetState.moves_of_step hstep)
        (unfailed_of_run hfits (hbefore.snoc label hstep))

end Runs

/-- For every schedule the values that are sent and the credit for those that are not are
the ones for which the consumer waits, a batch at most; all batches come in order and both
sides come to their end. -/
theorem credit_bounds_flow (batchCount batchSize demandCapacity dataCapacity : ℕ)
    (hfits : FitsInt ((1 + batchCount * batchSize : ℕ) : ℤ)) :
    (∀ labels s, (creditDemo batchCount batchSize demandCapacity dataCapacity).Run
        (creditStart batchCount demandCapacity dataCapacity) labels s →
      underway s = awaited s ∧ awaited s ≤ batchSize) ∧
    (creditDemo batchCount batchSize demandCapacity dataCapacity).LeadsTo
      (creditStart batchCount demandCapacity dataCapacity)
      (creditDone batchCount batchSize demandCapacity dataCapacity) := by
  refine ⟨?_, credit_leadsTo batchCount batchSize demandCapacity dataCapacity hfits⟩
  intro labels s hrun
  have hflow := creditFlow_of_run hfits hrun
  exact ⟨hflow.balance, hflow.bounded⟩

/-- The batches of the source. -/
theorem credit_bounds_flow_three :
    (∀ labels s, (creditDemo 3 2 0 0).Run (creditStart 3 0 0) labels s →
      underway s = awaited s ∧ awaited s ≤ 2) ∧
    (creditDemo 3 2 0 0).LeadsTo (creditStart 3 0 0) (creditDone 3 2 0 0) :=
  credit_bounds_flow 3 2 0 0 (by decide)

end CppWorkspace.Csp.CspDuo
