import CppWorkspace.Csp.SieveStreams

/-!
The runs of the sieve: a channel is closed when its stage has returned, stages
return in the order of the chain, and until all have returned a value or the
end can move on.
-/

namespace CppWorkspace.Csp.CspSieve

open Lib System TrialSieve

def State.StageReturned (s : State) : ℕ → Prop
  | 0 => s.generate = .returned
  | i + 1 => ∃ prime, s.filters[i]? = some ⟨prime, .returned⟩

structure Control (s : State) : Prop where
  capacity : ∀ i, (s.channel i).capacity = 0
  closed : ∀ i, i ≤ s.filters.length → ((s.channel i).closed = true ↔ s.StageReturned i)
  order : ∀ i, i < s.filters.length → s.StageReturned (i + 1) → s.StageReturned i
  ended : s.sieve = .returned → s.StageReturned s.filters.length

theorem control_initial : Control {} where
  capacity _ := rfl
  closed i hi := by
    obtain rfl := Nat.le_zero.mp hi
    simp [State.StageReturned]
  order i hi := by cases hi
  ended h := by cases h

section Steps

variable {limit : ℤ} {s s' : State}

/-- A filter that has not returned and does not return in this step. -/
theorem modify_returned {filters : List Filter} {i : ℕ} {f : Filter} (change : Filter → Filter)
    (hf : filters[i]? = some f) (hbefore : f.pc ≠ .returned)
    (hafter : (change f).pc ≠ .returned) (j : ℕ) :
    (∃ prime, (filters.modify i change)[j]? = some ⟨prime, .returned⟩) ↔
      ∃ prime, filters[j]? = some ⟨prime, .returned⟩ := by
  by_cases hij : i = j
  · subst hij
    have hchanged : (filters.modify i change)[i]? = some (change f) := by
      simp [hf]
    rw [hchanged, hf]
    constructor
    · rintro ⟨prime, heq⟩
      exact absurd (congrArg Filter.pc (Option.some.inj heq)) hafter
    · rintro ⟨prime, heq⟩
      exact absurd (congrArg Filter.pc (Option.some.inj heq)) hbefore
  · have hsame : (filters.modify i change)[j]? = filters[j]? := by
      simp [hij]
    rw [hsame]

theorem sent_returned {value stage : ℕ} (hsends : s.Sends limit value stage) (n : ℕ) :
    (s.sent value stage).StageReturned n ↔ s.StageReturned n := by
  cases stage with
  | zero =>
      cases n with
      | zero => simp [State.sent, State.StageReturned, hsends.1]
      | succ n => exact Iff.rfl
  | succ j =>
      obtain ⟨prime, hpc⟩ := hsends
      cases n with
      | zero => exact Iff.rfl
      | succ n => exact modify_returned _ hpc (by simp) (by simp) n

theorem sent_rest (value stage : ℕ) : (s.sent value stage).channel = s.channel ∧
    (s.sent value stage).sieve = s.sieve ∧
      (s.sent value stage).filters.length = s.filters.length := by
  cases stage with
  | zero => exact ⟨rfl, rfl, rfl⟩
  | succ j => exact ⟨rfl, rfl, by simp [State.sent]⟩

/-- A step in which no stage returns and no filter is spawned. -/
theorem Control.frame (h : Control s) (hreturned : ∀ n, s'.StageReturned n ↔ s.StageReturned n)
    (hchannel : s'.channel = s.channel) (hsieve : s'.sieve = s.sieve)
    (hlength : s'.filters.length = s.filters.length) : Control s' where
  capacity i := by
    rw [hchannel]
    exact h.capacity i
  closed i hi := by
    rw [hlength] at hi
    rw [hchannel, hreturned]
    exact h.closed i hi
  order i hi := by
    rw [hlength] at hi
    rw [hreturned, hreturned]
    exact h.order i hi
  ended hended := by
    rw [hsieve] at hended
    rw [hlength, hreturned]
    exact h.ended hended

theorem Control.pass (h : Control s) {stage value prime : ℕ}
    (hsends : s.Sends limit value stage) (hreader : s.filters[stage]? = some ⟨prime, .receiving⟩)
    (hgenerate : s'.generate = (s.sent value stage).generate)
    (hfilters : s'.filters = (s.sent value stage).filters.modify stage (fun f => f.receive value))
    (hchannel : s'.channel = s.channel) (hsieve : s'.sieve = s.sieve) : Control s' := by
  obtain ⟨-, hother, hlength⟩ := sent_stream hsends
  refine h.frame (fun n => ?_) hchannel hsieve (by simp [hfilters, hlength])
  rw [← sent_returned hsends n]
  cases n with
  | zero => rw [State.StageReturned, State.StageReturned, hgenerate]
  | succ n =>
      have hbefore : (s.sent value stage).filters[stage]? = some ⟨prime, .receiving⟩ := by
        rw [hother stage (by omega)]
        exact hreader
      rw [State.StageReturned, State.StageReturned, hfilters]
      refine modify_returned _ hbefore (by simp) ?_ n
      simp only [Filter.receive]
      split <;> simp

/-- A new filter at the end of the chain, with an open channel after it. -/
theorem Control.passToSieve (h : Control s) {value : ℕ}
    (hsends : s.Sends limit value s.filters.length) (hreceiving : s.sieve = .receiving)
    (hgenerate : s'.generate = (s.sent value s.filters.length).generate)
    (hfilters : s'.filters = (s.sent value s.filters.length).filters ++ [⟨value, .receiving⟩])
    (hchannel : s'.channel = Function.update s.channel (s.filters.length + 1) (.make 0))
    (hsieve : s'.sieve = s.sieve) : Control s' := by
  obtain ⟨-, -, hlength⟩ := sent_stream hsends
  have hlength' : s'.filters.length = s.filters.length + 1 := by simp [hfilters, hlength]
  have hold : ∀ n, n ≤ s.filters.length → (s'.StageReturned n ↔ s.StageReturned n) := by
    intro n hn
    rw [← sent_returned hsends n]
    cases n with
    | zero => rw [State.StageReturned, State.StageReturned, hgenerate]
    | succ n =>
        rw [State.StageReturned, State.StageReturned, hfilters,
          List.getElem?_append_left (by rw [hlength]; exact hn)]
  have hnew : ¬ s'.StageReturned (s.filters.length + 1) := by
    rintro ⟨prime, heq⟩
    rw [hfilters, List.getElem?_append_right (le_of_eq hlength), hlength, Nat.sub_self] at heq
    cases heq
  constructor
  · intro i
    rw [hchannel]
    by_cases hi : i = s.filters.length + 1
    · rw [hi, Function.update_self]
      rfl
    · rw [Function.update_of_ne hi]
      exact h.capacity i
  · intro i hi
    rw [hchannel]
    by_cases hlast : i = s.filters.length + 1
    · rw [hlast, Function.update_self]
      simpa using hnew
    · rw [Function.update_of_ne hlast, hold i (by omega)]
      exact h.closed i (by omega)
  · intro i hi hreturned
    by_cases hlast : i = s.filters.length
    · rw [hlast] at hreturned
      exact absurd hreturned hnew
    · rw [hold i (by omega)]
      rw [hold (i + 1) (by omega)] at hreturned
      exact h.order i (by omega) hreturned
  · intro hended
    rw [hsieve, hreceiving] at hended
    cases hended

/-- A stage returns once the stage before it has, and closes its channel. -/
theorem Control.close (h : Control s) {stage : ℕ}
    (hreturned : ∀ n, s'.StageReturned n ↔ n = stage ∨ s.StageReturned n)
    (hbefore : ∀ n, stage = n + 1 → s.StageReturned n)
    (hchannel : s'.channel = Function.update s.channel stage (s.channel stage).close)
    (hsieve : s'.sieve = s.sieve) (hlength : s'.filters.length = s.filters.length) :
    Control s' := by
  constructor
  · intro i
    rw [hchannel]
    by_cases hi : i = stage
    · rw [hi, Function.update_self]
      exact h.capacity stage
    · rw [Function.update_of_ne hi]
      exact h.capacity i
  · intro i hi
    rw [hlength] at hi
    rw [hchannel, hreturned]
    by_cases hlast : i = stage
    · simp [hlast]
    · rw [Function.update_of_ne hlast, h.closed i hi]
      simp [hlast]
  · intro i hi hnext
    rw [hlength] at hi
    rw [hreturned] at hnext ⊢
    rcases hnext with hnext | hnext
    · exact Or.inr (hbefore i hnext.symm)
    · exact Or.inr (h.order i hi hnext)
  · intro hended
    rw [hsieve] at hended
    rw [hlength, hreturned]
    exact Or.inr (h.ended hended)

theorem Control.buffer (h : Control s) (i : ℕ) : (s.channel i).buffer = [] := by
  have hfits := (s.channel i).fits
  rw [h.capacity i] at hfits
  exact List.length_eq_zero_iff.mp (Nat.le_zero.mp hfits)

theorem Control.step (h : Control s) {act : Act} (hstep : Step limit s act s') : Control s' := by
  cases act with
  | pass stage value =>
      obtain ⟨hsends, -, ⟨prime, hreader⟩, rfl⟩ := hstep
      obtain ⟨hchannel, hsieve, -⟩ := sent_rest (s := s) value stage
      exact h.pass hsends hreader rfl rfl hchannel hsieve
  | passToSieve value =>
      obtain ⟨hsends, -, hreceiving, rfl⟩ := hstep
      obtain ⟨-, hsieve, -⟩ := sent_rest (s := s) value s.filters.length
      exact h.passToSieve hsends hreceiving rfl rfl rfl hsieve
  | generateCloses =>
      obtain ⟨value, hpc, -, rfl⟩ := hstep
      refine h.close (fun n => ?_) (fun n hn => by cases hn) rfl rfl rfl
      cases n with
      | zero => simp [State.StageReturned]
      | succ n => simp [State.StageReturned]
  | filterCloses i =>
      obtain ⟨prime, hpc, hexhausted, rfl⟩ := hstep
      have hlt : i < s.filters.length := (List.getElem?_eq_some_iff.mp hpc).1
      refine h.close (fun n => ?_) (fun n hn => ?_) rfl rfl (by simp)
      · cases n with
        | zero => simp [State.StageReturned]
        | succ n =>
            by_cases hin : i = n
            · subst hin
              simp [State.StageReturned, hpc]
            · simp [State.StageReturned, hin, Ne.symm hin]
      · obtain rfl := Nat.succ.inj hn
        exact (h.closed i hlt.le).mp hexhausted.1
  | sieveEnds =>
      obtain ⟨-, hexhausted, rfl⟩ := hstep
      exact ⟨h.capacity, h.closed, h.order, fun _ =>
        (h.closed _ (Nat.le_refl _)).mp hexhausted.1⟩

/-- Some coroutine can go on. -/
def CanStep (limit : ℤ) (s : State) : Prop := ∃ act s', Step limit s act s'

/-- The reader of the channel waits at its receive. -/
def State.ReaderWaits (s : State) (n : ℕ) : Prop :=
  (∃ prime, s.filters[n]? = some ⟨prime, .receiving⟩) ∨
    (n = s.filters.length ∧ s.sieve = .receiving)

theorem sends_not_returned {value stage : ℕ} (hsends : s.Sends limit value stage) :
    ¬ s.StageReturned stage := by
  cases stage with
  | zero =>
      intro hreturned
      cases hsends.1.symm.trans hreturned
  | succ j =>
      obtain ⟨prime, hpc⟩ := hsends
      rintro ⟨prime', hreturned⟩
      cases hpc.symm.trans hreturned

/-- No send finds its channel closed. -/
theorem Control.sender_open (h : Control s) {n value : ℕ} (hn : n ≤ s.filters.length)
    (hsends : s.Sends limit value n) : (s.channel n).closed = false := by
  cases hclosed : (s.channel n).closed with
  | false => rfl
  | true => exact absurd ((h.closed n hn).mp hclosed) (sends_not_returned hsends)

/-- A sender passes its value on when its reader waits. -/
theorem Control.sender_steps (h : Control s) {n value : ℕ} (hn : n ≤ s.filters.length)
    (hreader : s.ReaderWaits n) (hsends : s.Sends limit value n) : CanStep limit s := by
  have hmeets : (s.channel n).Meets := ⟨h.sender_open hn hsends, h.buffer n⟩
  rcases hreader with hfilter | ⟨rfl, hsieve⟩
  · exact ⟨.pass n value, _, hsends, hmeets, hfilter, rfl⟩
  · exact ⟨.passToSieve value, _, hsends, hmeets, hsieve, rfl⟩

/-- The end passes on when the reader of a stage that has returned waits. -/
theorem Control.end_steps (h : Control s) {n : ℕ} (hn : n ≤ s.filters.length)
    (hreader : s.ReaderWaits n) (hreturned : s.StageReturned n) : CanStep limit s := by
  have hexhausted : (s.channel n).Exhausted := ⟨(h.closed n hn).mpr hreturned, h.buffer n⟩
  rcases hreader with ⟨prime, hfilter⟩ | ⟨rfl, hsieve⟩
  · exact ⟨.filterCloses n, _, prime, hfilter, hexhausted, rfl⟩
  · exact ⟨.sieveEnds, _, hsieve, hexhausted, rfl⟩

/-- Up the chain from a reader that waits, the first stage that does not wait
itself can go on. -/
theorem Control.reader_steps (h : Control s) {n : ℕ} (hn : n ≤ s.filters.length)
    (hreader : s.ReaderWaits n) : CanStep limit s := by
  induction n with
  | zero =>
      cases hpc : s.generate with
      | sending value =>
          by_cases hle : (value : ℤ) ≤ limit
          · exact h.sender_steps hn hreader ⟨hpc, hle⟩
          · exact ⟨.generateCloses, _, value, hpc, Int.not_le.mp hle, rfl⟩
      | returned => exact h.end_steps hn hreader hpc
  | succ j ih =>
      obtain ⟨⟨prime, pc⟩, hfilter⟩ : ∃ f, s.filters[j]? = some f :=
        ⟨_, List.getElem?_eq_getElem hn⟩
      cases pc with
      | receiving => exact ih (Nat.le_of_succ_le hn) (Or.inl ⟨prime, hfilter⟩)
      | sending value => exact h.sender_steps hn hreader ⟨prime, hfilter⟩
      | returned => exact h.end_steps hn hreader ⟨prime, hfilter⟩

/-- When a stage has returned, so have the ones before it. -/
theorem Control.returned_before (h : Control s) {n m : ℕ} (hnm : n ≤ m)
    (hm : m ≤ s.filters.length) (hreturned : s.StageReturned m) : s.StageReturned n := by
  induction hnm using Nat.decreasingInduction with
  | self => exact hreturned
  | of_succ k hk ih => exact h.order k (hk.trans_le hm) ih

/-- `sieve` is the last to return. -/
theorem Control.finished (h : Control s) (hsieve : s.sieve = .returned) : s.Finished := by
  have hall : ∀ n, n ≤ s.filters.length → s.StageReturned n :=
    fun n hn => h.returned_before hn (Nat.le_refl _) (h.ended hsieve)
  refine ⟨hsieve, hall 0 (Nat.zero_le _), fun f hf => ?_⟩
  obtain ⟨i, hi, rfl⟩ := List.getElem_of_mem hf
  obtain ⟨prime, hreturned⟩ := hall (i + 1) hi
  rw [List.getElem?_eq_getElem hi] at hreturned
  rw [Option.some.inj hreturned]

theorem Control.can_step (h : Control s) (hunfinished : ¬ s.Finished) : CanStep limit s := by
  cases hsieve : s.sieve with
  | receiving => exact h.reader_steps (Nat.le_refl _) (Or.inr ⟨rfl, hsieve⟩)
  | returned => exact absurd (h.finished hsieve) hunfinished

theorem Finished.closed (h : Control s) (hfinished : s.Finished) {i : ℕ}
    (hi : i ≤ s.filters.length) : (s.channel i).closed = true := by
  rw [h.closed i hi]
  cases i with
  | zero => exact hfinished.2.1
  | succ j =>
      obtain ⟨⟨prime, pc⟩, hfilter⟩ : ∃ f, s.filters[j]? = some f :=
        ⟨_, List.getElem?_eq_getElem hi⟩
      have hpc : pc = .returned := hfinished.2.2 _ (List.mem_of_getElem? hfilter)
      exact ⟨prime, by rw [hfilter, hpc]⟩

theorem Sieving.received_begins (h : Sieving limit s) : s.received <+: primesUpTo limit.toNat :=
  ⟨_, h.conserved⟩

theorem Sieving.complete (h : Sieving limit s) (hfinished : s.Finished) :
    s.received = primesUpTo limit.toNat := by
  have hconserved := h.conserved
  rwa [stream_returned hfinished.2.1 hfinished.2.2, trialSieve, List.append_nil] at hconserved

end Steps

section Runs

variable {limit : ℤ} {labels : List Act} {s : State}

theorem run_invariant (hrun : (sieveSystem limit).Run {} labels s) :
    Sieving limit s ∧ Control s := by
  have hstart : Sieving limit {} ∧ Control {} := ⟨sieving_initial limit, control_initial⟩
  refine hrun.preserves (I := fun s => Sieving limit s ∧ Control s) ?_ hstart
  rintro s label s' ⟨hsieving, hcontrol⟩ hstep
  exact ⟨hsieving.step hstep, hcontrol.step hstep⟩

end Runs

/-- Whatever the order in which the coroutines go on, until all have finished
one can, `sieve` receives the primes up to the limit in order, with a filter
for each, and at the end it has received all of them and every stage has closed
its channel. -/
theorem sieve_finds_primes (limit : ℤ) (labels : List Act) (s : State)
    (hrun : (sieveSystem limit).Run {} labels s) :
    (¬ s.Finished → CanStep limit s) ∧
      s.received <+: primesUpTo limit.toNat ∧
      s.filters.map Filter.prime = s.received ∧
      (s.Finished → s.received = primesUpTo limit.toNat ∧
        ∀ i, i ≤ s.filters.length → (s.channel i).closed = true) := by
  obtain ⟨hsieving, hcontrol⟩ := run_invariant hrun
  refine ⟨hcontrol.can_step, hsieving.received_begins, hsieving.primes, fun hfinished => ?_⟩
  exact ⟨hsieving.complete hfinished, fun i hi => Finished.closed hcontrol hfinished hi⟩

/-- The filter for two and the filter for three, one reading from the other. -/
theorem sieve_finds_two_and_three : ∃ labels s, (sieveSystem 3).Run {} labels s ∧
    s.Finished ∧ s.received = [2, 3] ∧ s.received = primesUpTo 3 := by
  obtain ⟨labels, s, hrun, hfinished, hreceived⟩ : ∃ labels s,
      (sieveSystem 3).Run {} labels s ∧ s.Finished ∧ s.received = [2, 3] :=
    ⟨_, _,
      Run.cons (Act.passToSieve 2) ⟨⟨rfl, by decide⟩, ⟨rfl, rfl⟩, rfl, rfl⟩ <|
      Run.cons (Act.pass 0 3) ⟨⟨rfl, by decide⟩, ⟨rfl, rfl⟩, ⟨_, rfl⟩, rfl⟩ <|
      Run.cons Act.generateCloses ⟨_, rfl, by decide, rfl⟩ <|
      Run.cons (Act.passToSieve 3) ⟨⟨_, rfl⟩, ⟨rfl, rfl⟩, rfl, rfl⟩ <|
      Run.cons (Act.filterCloses 0) ⟨_, rfl, ⟨rfl, rfl⟩, rfl⟩ <|
      Run.cons (Act.filterCloses 1) ⟨_, rfl, ⟨rfl, rfl⟩, rfl⟩ <|
      Run.cons Act.sieveEnds ⟨rfl, ⟨rfl, rfl⟩, rfl⟩ .nil,
      ⟨rfl, rfl, by decide⟩, rfl⟩
  obtain ⟨-, -, -, hend⟩ := sieve_finds_primes 3 labels s hrun
  exact ⟨labels, s, hrun, hfinished, hreceived, (hend hfinished).1⟩

end CppWorkspace.Csp.CspSieve
