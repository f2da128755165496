import CppWorkspace.Asio.Strand

/-!
The runs of `strand.cpp`. The strand lets one handler run at a time, so that nothing comes
between its load and its store: no count is lost, although the threads use no lock.
-/

namespace CppWorkspace.Asio.Strand

open Lib System

variable {T : Type} [DecidableEq T] {taskCount : ℕ} {threads : Finset T} {s s' : State T}
  {event : Event T}

/-- The handlers that have been posted to the strand. -/
def MainPc.strandPosted (taskCount : ℕ) : MainPc → ℕ
  | .postingStrand posted => posted
  | .postingPlain _ | .joining | .returned => taskCount

def MainPc.plainPosted (taskCount : ℕ) : MainPc → ℕ
  | .postingStrand _ => 0
  | .postingPlain posted => posted
  | .joining | .returned => taskCount

/-- The loops are entered for a handler that is still to be posted. -/
def MainPc.Ok (taskCount : ℕ) : MainPc → Prop
  | .postingStrand posted | .postingPlain posted => posted < taskCount
  | .joining | .returned => True

/-- A handler on its way, when `posted` have been posted. -/
def HandlerOk (posted : ℕ) (s : State T) : ThreadPc T → Prop
  | .idle => False
  | .loading => s.counter + 1 + s.queued = posted
  | .storing counter => counter = s.counter ∧ s.counter + 1 + s.queued = posted
  | .inserting => s.counter + s.queued = posted
  | .writing workerThreads => workerThreads = s.workerThreads ∧ s.counter + s.queued = posted

/-- What the strand does when this thread has a handler of it, or no thread has. -/
def StrandOk (posted : ℕ) (threads : Finset T) (s : State T) : Option T → Prop
  | none => s.running = false ∧ (∀ t, s.thread t = .idle) ∧ s.counter + s.queued = posted ∧
      (0 < s.counter → s.workerThreads.Nonempty)
  | some t => s.running = true ∧ t ∈ threads ∧ (∀ other, other ≠ t → s.thread other = .idle) ∧
      HandlerOk posted s (s.thread t)

structure Inv (taskCount : ℕ) (threads : Finset T) (s : State T) : Prop where
  main : s.main.Ok taskCount
  strand : ∃ owner, StrandOk (s.main.strandPosted taskCount) threads s owner
  members : s.workerThreads ⊆ threads
  plain : s.atomicCounter + s.plain = s.main.plainPosted taskCount
  silent : s.main ≠ .returned → s.output = []
  joined : s.main = .returned → s.queued = 0 ∧ s.plain = 0 ∧ s.running = false ∧
    s.output = s.report taskCount

/-- The events, one constructor for each. -/
inductive Moves (taskCount : ℕ) (threads : Finset T) (s : State T) : Event T → State T → Prop
  | postStrand {posted : ℕ} : s.main = .postingStrand posted →
      Moves taskCount threads s .post
        { s with queued := s.queued + 1, main := strandLoop taskCount (posted + 1) }
  | postPlain {posted : ℕ} : s.main = .postingPlain posted →
      Moves taskCount threads s .post
        { s with plain := s.plain + 1, main := plainLoop taskCount (posted + 1) }
  | start {t : T} : t ∈ threads → s.thread t = .idle → s.running = false → 0 < s.queued →
      Moves taskCount threads s (.start t)
        ({ s with queued := s.queued - 1, running := true }.setThread t .loading)
  | load {t : T} : s.thread t = .loading →
      Moves taskCount threads s (.load t) (s.setThread t (.storing s.counter))
  | store {t : T} {counter : ℕ} : s.thread t = .storing counter →
      Moves taskCount threads s (.store t)
        ({ s with counter := counter + 1 }.setThread t .inserting)
  | insert {t : T} : s.thread t = .inserting →
      Moves taskCount threads s (.insert t) (s.setThread t (.writing s.workerThreads))
  | finish {t : T} {workerThreads : Finset T} : s.thread t = .writing workerThreads →
      Moves taskCount threads s (.finish t)
        ({ s with
          workerThreads := Insert.insert t workerThreads
          running := false }.setThread t .idle)
  | bump {t : T} : t ∈ threads → s.thread t = .idle → 0 < s.plain →
      Moves taskCount threads s (.bump t)
        { s with plain := s.plain - 1, atomicCounter := s.atomicCounter + 1 }
  | join : s.main = .joining → s.queued = 0 → s.plain = 0 → (∀ t ∈ threads, s.thread t = .idle) →
      Moves taskCount threads s .join
        { s with main := .returned, output := s.output ++ s.report taskCount }

theorem moves_of_step (h : s.step taskCount threads event = some s') :
    Moves taskCount threads s event s' := by
  cases event with
  | post =>
      cases hmain : s.main with
      | postingStrand posted =>
          simp only [State.step, hmain, Option.some.injEq] at h
          rw [← h]
          exact .postStrand hmain
      | postingPlain posted =>
          simp only [State.step, hmain, Option.some.injEq] at h
          rw [← h]
          exact .postPlain hmain
      | joining => simp [State.step, hmain] at h
      | returned => simp [State.step, hmain] at h
  | start t =>
      obtain ⟨⟨ht, hidle, hrunning, hqueued⟩, heq⟩ := Option.ite_none_right_eq_some.mp h
      cases heq
      exact .start ht hidle hrunning hqueued
  | load t =>
      cases ht : s.thread t with
      | loading =>
          simp only [State.step, ht, Option.some.injEq] at h
          rw [← h]
          exact .load ht
      | idle | storing _ | inserting | writing _ => simp [State.step, ht] at h
  | store t =>
      cases ht : s.thread t with
      | storing counter =>
          simp only [State.step, ht, Option.some.injEq] at h
          rw [← h]
          exact .store ht
      | idle | loading | inserting | writing _ => simp [State.step, ht] at h
  | insert t =>
      cases ht : s.thread t with
      | inserting =>
          simp only [State.step, ht, Option.some.injEq] at h
          rw [← h]
          exact .insert ht
      | idle | loading | storing _ | writing _ => simp [State.step, ht] at h
  | finish t =>
      cases ht : s.thread t with
      | writing workerThreads =>
          simp only [State.step, ht, Option.some.injEq] at h
          rw [← h]
          exact .finish ht
      | idle | loading | storing _ | inserting => simp [State.step, ht] at h
  | bump t =>
      obtain ⟨⟨ht, hidle, hplain⟩, heq⟩ := Option.ite_none_right_eq_some.mp h
      cases heq
      exact .bump ht hidle hplain
  | join =>
      obtain ⟨⟨hmain, hqueued, hplain, hidle⟩, heq⟩ := Option.ite_none_right_eq_some.mp h
      cases heq
      exact .join hmain hqueued hplain hidle

theorem plainLoop_spec {posted : ℕ} (hle : posted ≤ taskCount) :
    (plainLoop taskCount posted).Ok taskCount ∧
      (plainLoop taskCount posted).strandPosted taskCount = taskCount ∧
      (plainLoop taskCount posted).plainPosted taskCount = posted ∧
      plainLoop taskCount posted ≠ .returned := by
  unfold plainLoop
  split
  · next hmore => exact ⟨hmore, rfl, rfl, by simp⟩
  · next hlast => exact ⟨trivial, rfl, by simp only [MainPc.plainPosted]; omega, by simp⟩

theorem strandLoop_spec {posted : ℕ} (hle : posted ≤ taskCount) :
    (strandLoop taskCount posted).Ok taskCount ∧
      (strandLoop taskCount posted).strandPosted taskCount = posted ∧
      (strandLoop taskCount posted).plainPosted taskCount = 0 ∧
      strandLoop taskCount posted ≠ .returned := by
  unfold strandLoop
  split
  · next hmore => exact ⟨hmore, rfl, rfl, by simp⟩
  · next hlast =>
    obtain ⟨hok, hstrand, hplain, hreturned⟩ := plainLoop_spec (Nat.zero_le taskCount)
    exact ⟨hok, by rw [hstrand]; omega, hplain, hreturned⟩

theorem setThread_thread (t other : T) (pc : ThreadPc T) :
    (s.setThread t pc).thread other = if other = t then pc else s.thread other := by
  simp [State.setThread, Function.update_apply]

section Strand

variable {posted : ℕ} {owner : Option T} {t : T}

/-- Only the thread that has the handler of the strand is not idle. -/
theorem StrandOk.owner_eq (h : StrandOk posted threads s owner) (ht : s.thread t ≠ .idle) :
    owner = some t := by
  cases owner with
  | none => exact absurd (h.2.1 t) ht
  | some other =>
      by_contra hne
      exact ht (h.2.2.1 t fun heq => hne (congrArg some heq.symm))

omit [DecidableEq T] in
theorem StrandOk.none_of_free (h : StrandOk posted threads s owner) (hfree : s.running = false) :
    owner = none := by
  cases owner with
  | none => rfl
  | some other => cases hfree.symm.trans h.1

/-- The handler goes on. -/
theorem StrandOk.proceed {pc : ThreadPc T} (h : StrandOk posted threads s owner)
    (ht : s.thread t ≠ .idle) (hsame : s'.thread = s.thread) (hrunning : s'.running = s.running)
    (hpc : HandlerOk posted s (s.thread t) → HandlerOk posted (s'.setThread t pc) pc) :
    StrandOk posted threads (s'.setThread t pc) (some t) := by
  cases h.owner_eq ht
  obtain ⟨hbusy, hmem, hothers, hok⟩ := h
  refine ⟨hrunning.trans hbusy, hmem, ?_, ?_⟩
  · intro other hne
    rw [setThread_thread, if_neg hne, hsame]
    exact hothers other hne
  · rw [setThread_thread, if_pos rfl]
    exact hpc hok

omit [DecidableEq T] in
theorem StrandOk.post (h : StrandOk posted threads s owner) (main : MainPc) :
    StrandOk (posted + 1) threads { s with queued := s.queued + 1, main } owner := by
  cases owner with
  | none => exact ⟨h.1, h.2.1, by rw [← h.2.2.1, Nat.add_assoc], h.2.2.2⟩
  | some t =>
      obtain ⟨hbusy, hmem, hothers, hok⟩ := h
      refine ⟨hbusy, hmem, hothers, ?_⟩
      change HandlerOk _ _ (s.thread t)
      cases hpc : s.thread t with
      | idle =>
          rw [hpc] at hok
          exact hok
      | loading =>
          rw [hpc] at hok
          exact congrArg (· + 1) hok
      | storing counter =>
          rw [hpc] at hok
          exact ⟨hok.1, congrArg (· + 1) hok.2⟩
      | inserting =>
          rw [hpc] at hok
          exact congrArg (· + 1) hok
      | writing workerThreads =>
          rw [hpc] at hok
          exact ⟨hok.1, congrArg (· + 1) hok.2⟩

omit [DecidableEq T] in
/-- What does not concern the strand. -/
theorem StrandOk.frame (h : StrandOk posted threads s owner) (main : MainPc)
    (plain atomicCounter : ℕ) (output : Text) :
    StrandOk posted threads { s with main, plain, atomicCounter, output } owner := by
  cases owner with
  | none => exact h
  | some t =>
      obtain ⟨hbusy, hmem, hothers, hok⟩ := h
      refine ⟨hbusy, hmem, hothers, ?_⟩
      change HandlerOk _ _ (s.thread t)
      cases hpc : s.thread t <;> (rw [hpc] at hok; exact hok)

theorem StrandOk.start (h : StrandOk posted threads s owner) (ht : t ∈ threads)
    (hfree : s.running = false) (hqueued : 0 < s.queued) :
    StrandOk posted threads
      ({ s with queued := s.queued - 1, running := true }.setThread t .loading) (some t) := by
  cases h.none_of_free hfree
  obtain ⟨-, hidle, hcount, -⟩ := h
  refine ⟨rfl, ht, ?_, ?_⟩
  · intro other hne
    rw [setThread_thread, if_neg hne]
    exact hidle other
  · rw [setThread_thread, if_pos rfl]
    change s.counter + 1 + (s.queued - 1) = posted
    omega

theorem StrandOk.finish {workerThreads : Finset T} (h : StrandOk posted threads s owner)
    (ht : s.thread t = .writing workerThreads) :
    workerThreads = s.workerThreads ∧ t ∈ threads ∧
      StrandOk posted threads
        ({ s with
          workerThreads := Insert.insert t workerThreads
          running := false }.setThread t .idle) none := by
  have hbusy : s.thread t ≠ .idle := by simp [ht]
  cases h.owner_eq hbusy
  obtain ⟨-, hmem, hothers, hok⟩ := h
  rw [ht] at hok
  refine ⟨hok.1, hmem, rfl, ?_, hok.2, ?_⟩
  · intro other
    rw [setThread_thread]
    split
    · rfl
    · next hne => exact hothers other hne
  · intro _
    exact Finset.insert_nonempty t workerThreads

end Strand

omit [DecidableEq T] in
theorem inv_started (taskCount : ℕ) (threads : Finset T) :
    Inv taskCount threads (started T taskCount) := by
  obtain ⟨hok, hstrand, hplain, hreturned⟩ := strandLoop_spec (Nat.zero_le taskCount)
  exact
    { main := hok
      strand := ⟨none, rfl, fun _ => rfl, hstrand.symm, fun hcount => absurd hcount (lt_irrefl 0)⟩
      members := Finset.empty_subset threads
      plain := hplain.symm
      silent := fun _ => rfl
      joined := fun heq => absurd heq hreturned }

/-- After the join nothing happens any more. -/
theorem Inv.not_returned (h : Inv taskCount threads s)
    (hmove : Moves taskCount threads s event s') :
    s.main ≠ .returned := by
  intro hreturned
  obtain ⟨hqueued, hplain, hfree, -⟩ := h.joined hreturned
  obtain ⟨owner, hstrand⟩ := h.strand
  have hnone := hstrand.none_of_free hfree
  have hidle : ∀ t, s.thread t = .idle := by
    rw [hnone] at hstrand
    exact hstrand.2.1
  cases hmove with
  | postStrand hmain => cases hreturned.symm.trans hmain
  | postPlain hmain => cases hreturned.symm.trans hmain
  | start _ _ _ hpositive => exact absurd hqueued hpositive.ne'
  | load ht => cases (hidle _).symm.trans ht
  | store ht => cases (hidle _).symm.trans ht
  | insert ht => cases (hidle _).symm.trans ht
  | finish ht => cases (hidle _).symm.trans ht
  | bump _ _ hpositive => exact absurd hplain hpositive.ne'
  | join hmain _ _ _ => cases hreturned.symm.trans hmain

theorem Inv.step (h : Inv taskCount threads s) (hmove : Moves taskCount threads s event s') :
    Inv taskCount threads s' := by
  have hrunning := h.not_returned hmove
  obtain ⟨owner, hstrand⟩ := h.strand
  cases hmove with
  | @postStrand posted hmain =>
      have hmore := h.main
      have hplain := h.plain
      rw [hmain] at hstrand hmore hplain
      obtain ⟨hok, hposted, hnone, hnot⟩ := strandLoop_spec (Nat.succ_le_of_lt hmore)
      exact
        { main := hok
          strand := ⟨owner, by rw [hposted]; exact hstrand.post _⟩
          members := h.members
          plain := hplain.trans hnone.symm
          silent := fun _ => h.silent hrunning
          joined := fun heq => absurd heq hnot }
  | @postPlain posted hmain =>
      have hmore := h.main
      have hplain := h.plain
      rw [hmain] at hstrand hmore hplain
      obtain ⟨hok, hposted, hmade, hnot⟩ := plainLoop_spec (Nat.succ_le_of_lt hmore)
      exact
        { main := hok
          strand := ⟨owner, by rw [hposted]; exact hstrand.frame _ _ _ _⟩
          members := h.members
          plain := by
            rw [hmade, ← Nat.add_assoc, hplain]
            rfl
          silent := fun _ => h.silent hrunning
          joined := fun heq => absurd heq hnot }
  | start ht hidle hfree hqueued =>
      exact
        { main := h.main
          strand := ⟨_, hstrand.start ht hfree hqueued⟩
          members := h.members
          plain := h.plain
          silent := fun _ => h.silent hrunning
          joined := fun heq => absurd heq hrunning }
  | @load t ht =>
      have hnext : HandlerOk (s.main.strandPosted taskCount) s (s.thread t) →
          HandlerOk (s.main.strandPosted taskCount) (s.setThread t (.storing s.counter))
            (.storing s.counter) := by
        intro hok
        rw [ht] at hok
        exact ⟨rfl, hok⟩
      exact
        { main := h.main
          strand := ⟨_, hstrand.proceed (by simp [ht]) rfl rfl hnext⟩
          members := h.members
          plain := h.plain
          silent := fun _ => h.silent hrunning
          joined := fun heq => absurd heq hrunning }
  | @store t counter ht =>
      have hnext : HandlerOk (s.main.strandPosted taskCount) s (s.thread t) →
          HandlerOk (s.main.strandPosted taskCount)
            ({ s with counter := counter + 1 }.setThread t .inserting) .inserting := by
        intro hok
        rw [ht] at hok
        obtain ⟨rfl, hcount⟩ := hok
        exact hcount
      exact
        { main := h.main
          strand := ⟨_, hstrand.proceed (by simp [ht]) rfl rfl hnext⟩
          members := h.members
          plain := h.plain
          silent := fun _ => h.silent hrunning
          joined := fun heq => absurd heq hrunning }
  | @insert t ht =>
      have hnext : HandlerOk (s.main.strandPosted taskCount) s (s.thread t) →
          HandlerOk (s.main.strandPosted taskCount) (s.setThread t (.writing s.workerThreads))
            (.writing s.workerThreads) := by
        intro hok
        rw [ht] at hok
        exact ⟨rfl, hok⟩
      exact
        { main := h.main
          strand := ⟨_, hstrand.proceed (by simp [ht]) rfl rfl hnext⟩
          members := h.members
          plain := h.plain
          silent := fun _ => h.silent hrunning
          joined := fun heq => absurd heq hrunning }
  | @finish t workerThreads ht =>
      obtain ⟨rfl, hmem, hfree⟩ := hstrand.finish ht
      exact
        { main := h.main
          strand := ⟨_, hfree⟩
          members := Finset.insert_subset hmem h.members
          plain := h.plain
          silent := fun _ => h.silent hrunning
          joined := fun heq => absurd heq hrunning }
  | bump ht hidle hplain =>
      exact
        { main := h.main
          strand := ⟨owner, hstrand.frame _ _ _ _⟩
          members := h.members
          plain := by
            have hsum := h.plain
            change s.atomicCounter + 1 + (s.plain - 1) = s.main.plainPosted taskCount
            omega
          silent := fun _ => h.silent hrunning
          joined := fun heq => absurd heq hrunning }
  | join hmain hqueued hplain hidle =>
      have hfree : s.running = false := by
        cases owner with
        | none => exact hstrand.1
        | some t =>
            have hok := hstrand.2.2.2
            rw [hidle t hstrand.2.1] at hok
            exact hok.elim
      have hsum := h.plain
      rw [hmain] at hstrand hsum
      exact
        { main := trivial
          strand := ⟨owner, hstrand.frame _ _ _ _⟩
          members := h.members
          plain := hsum
          silent := fun hnot => absurd rfl hnot
          joined := by
            intro _
            refine ⟨hqueued, hplain, hfree, ?_⟩
            change s.output ++ s.report taskCount = s.report taskCount
            rw [h.silent hrunning, List.nil_append] }

/-- The strand never has two handlers that run. -/
theorem Inv.exclusive (h : Inv taskCount threads s) {t other : T} (ht : s.thread t ≠ .idle)
    (hother : s.thread other ≠ .idle) : t = other := by
  obtain ⟨owner, hstrand⟩ := h.strand
  have hboth : some t = some other := (hstrand.owner_eq ht).symm.trans (hstrand.owner_eq hother)
  exact Option.some.inj hboth

section Work

/-- What is left of a handler of the strand. -/
def ThreadPc.work : ThreadPc T → ℕ
  | .idle => 0
  | .loading => 4
  | .storing _ => 3
  | .inserting => 2
  | .writing _ => 1

/-- What is left to post: a handler of the strand takes six steps, one of the pool two. -/
def MainPc.work (taskCount : ℕ) : MainPc → ℕ
  | .postingStrand posted => 6 * (taskCount - posted) + 2 * taskCount + 1
  | .postingPlain posted => 2 * (taskCount - posted) + 1
  | .joining => 1
  | .returned => 0

def State.work (taskCount : ℕ) (threads : Finset T) (s : State T) : ℕ :=
  s.main.work taskCount + 5 * s.queued + s.plain + ∑ t ∈ threads, (s.thread t).work

theorem plainLoop_work {posted : ℕ} (hle : posted ≤ taskCount) :
    (plainLoop taskCount posted).work taskCount = 2 * (taskCount - posted) + 1 := by
  unfold plainLoop
  split
  · rfl
  · next hlast =>
    rw [MainPc.work]
    omega

theorem strandLoop_work {posted : ℕ} (hle : posted ≤ taskCount) :
    (strandLoop taskCount posted).work taskCount =
      6 * (taskCount - posted) + 2 * taskCount + 1 := by
  unfold strandLoop
  split
  · rfl
  · next hlast =>
    rw [plainLoop_work (Nat.zero_le taskCount)]
    omega

/-- Only what is left for `t` changes. -/
theorem sum_setThread {t : T} (ht : t ∈ threads) (pc : ThreadPc T) :
    ∑ other ∈ threads, ((s.setThread t pc).thread other).work + (s.thread t).work =
      ∑ other ∈ threads, (s.thread other).work + pc.work := by
  have hothers : ∑ other ∈ threads.erase t, ((s.setThread t pc).thread other).work =
      ∑ other ∈ threads.erase t, (s.thread other).work := by
    apply Finset.sum_congr rfl
    intro other hother
    rw [setThread_thread, if_neg (Finset.ne_of_mem_erase hother)]
  have hbefore := Finset.add_sum_erase threads (fun other => (s.thread other).work) ht
  have hafter := Finset.add_sum_erase threads
    (fun other => ((s.setThread t pc).thread other).work) ht
  rw [← hbefore, ← hafter, hothers, setThread_thread, if_pos rfl]
  omega

theorem Inv.mem_of_busy (h : Inv taskCount threads s) {t : T} (ht : s.thread t ≠ .idle) :
    t ∈ threads := by
  obtain ⟨owner, hstrand⟩ := h.strand
  cases hstrand.owner_eq ht
  exact hstrand.2.1

/-- A step of a handler. -/
theorem Inv.work_proceed (h : Inv taskCount threads s) {t : T} {pc : ThreadPc T}
    (ht : s.thread t ≠ .idle) (hpc : pc.work + 1 = (s.thread t).work)
    (hmain : s'.main = s.main) (hqueued : s'.queued = s.queued) (hplain : s'.plain = s.plain)
    (hsame : s'.thread = s.thread) :
    (s'.setThread t pc).work taskCount threads + 1 = s.work taskCount threads := by
  have hsum := sum_setThread (s := s') (h.mem_of_busy ht) pc
  rw [hsame] at hsum
  have hdrop : ∑ other ∈ threads, ((s'.setThread t pc).thread other).work + 1 =
      ∑ other ∈ threads, (s.thread other).work := by omega
  change s'.main.work taskCount + 5 * s'.queued + s'.plain + _ + 1 = _
  rw [hmain, hqueued, hplain, add_assoc, hdrop]
  rfl

/-- Every step is one of those that are left. -/
theorem Inv.work_step (h : Inv taskCount threads s) (hmove : Moves taskCount threads s event s') :
    s'.work taskCount threads + 1 = s.work taskCount threads := by
  cases hmove with
  | @postStrand posted hmain =>
      have hmore := h.main
      rw [hmain] at hmore
      change (strandLoop taskCount (posted + 1)).work taskCount + 5 * (s.queued + 1) + s.plain +
        ∑ t ∈ threads, (s.thread t).work + 1 = _
      rw [strandLoop_work (Nat.succ_le_of_lt hmore), State.work, hmain, MainPc.work]
      change posted < taskCount at hmore
      omega
  | @postPlain posted hmain =>
      have hmore := h.main
      rw [hmain] at hmore
      change (plainLoop taskCount (posted + 1)).work taskCount + 5 * s.queued + (s.plain + 1) +
        ∑ t ∈ threads, (s.thread t).work + 1 = _
      rw [plainLoop_work (Nat.succ_le_of_lt hmore), State.work, hmain, MainPc.work]
      change posted < taskCount at hmore
      omega
  | @start t ht hidle hfree hqueued =>
      have hsum := sum_setThread (s := s) ht .loading
      rw [hidle] at hsum
      change _ + 0 = _ + 4 at hsum
      change s.main.work taskCount + 5 * (s.queued - 1) + s.plain +
        ∑ other ∈ threads, ((s.setThread t .loading).thread other).work + 1 = _
      rw [State.work]
      omega
  | load ht => exact h.work_proceed (by simp [ht]) (by rw [ht]; rfl) rfl rfl rfl rfl
  | store ht => exact h.work_proceed (by simp [ht]) (by rw [ht]; rfl) rfl rfl rfl rfl
  | insert ht => exact h.work_proceed (by simp [ht]) (by rw [ht]; rfl) rfl rfl rfl rfl
  | finish ht => exact h.work_proceed (by simp [ht]) (by rw [ht]; rfl) rfl rfl rfl rfl
  | bump ht hidle hplain =>
      change s.main.work taskCount + 5 * s.queued + (s.plain - 1) +
        ∑ t ∈ threads, (s.thread t).work + 1 = _
      rw [State.work]
      omega
  | join hmain hqueued hplain hidle =>
      change 0 + 5 * s.queued + s.plain + ∑ t ∈ threads, (s.thread t).work + 1 = _
      rw [State.work, hmain, MainPc.work]
      omega

omit [DecidableEq T] in
theorem work_started (taskCount : ℕ) (threads : Finset T) :
    (started T taskCount).work taskCount threads = 8 * taskCount + 1 := by
  have hidle : ∑ t ∈ threads, ((started T taskCount).thread t).work = 0 :=
    Finset.sum_eq_zero fun _ _ => rfl
  rw [State.work, hidle]
  change (strandLoop taskCount 0).work taskCount + 5 * 0 + 0 + 0 = _
  rw [strandLoop_work (Nat.zero_le taskCount)]
  omega

end Work

section Ends

/-- A thread that has a handler of the strand can go on with it. -/
theorem exists_step_of_busy (taskCount : ℕ) (threads : Finset T) {t : T}
    (ht : s.thread t ≠ .idle) :
    ∃ event s', s.step taskCount threads event = some s' := by
  cases hpc : s.thread t with
  | idle => exact absurd hpc ht
  | loading => exact ⟨.load t, s.setThread t (.storing s.counter), by simp only [State.step, hpc]⟩
  | storing counter => exact ⟨.store t, _, by simp only [State.step, hpc]; rfl⟩
  | inserting => exact ⟨.insert t, _, by simp only [State.step, hpc]; rfl⟩
  | writing workerThreads => exact ⟨.finish t, _, by simp only [State.step, hpc]; rfl⟩

/-- Nothing is left behind: before the join has returned, something can be done. -/
theorem Inv.exists_step (h : Inv taskCount threads s) (hthreads : threads.Nonempty)
    (hrunning : s.main ≠ .returned) : ∃ event s', s.step taskCount threads event = some s' := by
  by_contra hnone
  push Not at hnone
  have hidle : ∀ t, s.thread t = .idle := by
    intro t
    by_contra hbusy
    obtain ⟨event, s', hstep⟩ := exists_step_of_busy taskCount threads hbusy
    exact hnone event s' hstep
  have hfree : s.running = false := by
    obtain ⟨owner, hstrand⟩ := h.strand
    cases owner with
    | none => exact hstrand.1
    | some t =>
        have hok := hstrand.2.2.2
        rw [hidle t] at hok
        exact hok.elim
  obtain ⟨t, ht⟩ := hthreads
  have hqueued : s.queued = 0 := by
    by_contra hmore
    exact hnone (.start t) _ (if_pos ⟨ht, hidle t, hfree, Nat.pos_of_ne_zero hmore⟩)
  have hplain : s.plain = 0 := by
    by_contra hmore
    exact hnone (.bump t) _ (if_pos ⟨ht, hidle t, Nat.pos_of_ne_zero hmore⟩)
  cases hmain : s.main with
  | postingStrand posted => exact hnone .post _ (by simp only [State.step, hmain]; rfl)
  | postingPlain posted => exact hnone .post _ (by simp only [State.step, hmain]; rfl)
  | joining => exact hnone .join _ (if_pos ⟨hmain, hqueued, hplain, fun t _ => hidle t⟩)
  | returned => exact hrunning hmain

omit [DecidableEq T] in
theorem Inv.work_of_returned (h : Inv taskCount threads s) (hreturned : s.main = .returned) :
    s.work taskCount threads = 0 := by
  obtain ⟨hqueued, hplain, hfree, -⟩ := h.joined hreturned
  obtain ⟨owner, hstrand⟩ := h.strand
  cases hstrand.none_of_free hfree
  have hidle : ∑ t ∈ threads, (s.thread t).work = 0 := by
    apply Finset.sum_eq_zero
    intro t _
    rw [hstrand.2.1 t]
    rfl
  rw [State.work, hreturned, hqueued, hplain, hidle]
  rfl

omit [DecidableEq T] in
/-- After the join all handlers have been counted. -/
theorem Inv.counted (h : Inv taskCount threads s) (hreturned : s.main = .returned) :
    s.counter = taskCount ∧ s.atomicCounter = taskCount ∧
      (0 < taskCount → s.workerThreads.Nonempty) ∧
      s.output = [.serialized taskCount taskCount, .threads s.workerThreads.card,
        .plain taskCount taskCount].flatMap Line.text := by
  obtain ⟨hqueued, hplain, hfree, houtput⟩ := h.joined hreturned
  obtain ⟨owner, hstrand⟩ := h.strand
  cases hstrand.none_of_free hfree
  obtain ⟨-, -, hcount, hsome⟩ := hstrand
  have hatomic := h.plain
  rw [hreturned, hqueued] at hcount
  rw [hreturned, hplain] at hatomic
  change s.counter = taskCount at hcount
  change s.atomicCounter = taskCount at hatomic
  rw [State.report, hcount, hatomic] at houtput
  rw [hcount] at hsome
  exact ⟨hcount, hatomic, hsome, houtput⟩

theorem inv_of_run {labels : List (Event T)}
    (hrun : (strandDemo taskCount threads).Run (started T taskCount) labels s) :
    Inv taskCount threads s :=
  hrun.preserves (fun _ _ _ h hstep => h.step (moves_of_step hstep))
    (inv_started taskCount threads)

/-- Every step is one of the steps of the demo. -/
theorem work_of_run {labels : List (Event T)}
    (hrun : (strandDemo taskCount threads).Run (started T taskCount) labels s) :
    s.work taskCount threads + labels.length = 8 * taskCount + 1 := by
  induction hrun with
  | nil => exact work_started taskCount threads
  | snoc label hrun hstep ih =>
      have hwork := (inv_of_run hrun).work_step (moves_of_step hstep)
      rw [List.length_append, List.length_singleton]
      omega

/-- The strand serializes: no two threads are in a handler of it, in whatever order the
threads run, and no count is lost for want of a lock. All runs come to the end of the join
after the same number of steps, and then every handler has been counted. -/
theorem strand_counts (taskCount : ℕ) (hthreads : threads.Nonempty) :
    (∀ s, (strandDemo taskCount threads).Reachable s → ∀ t other,
      s.thread t ≠ .idle → s.thread other ≠ .idle → t = other) ∧
    ∀ labels s, (strandDemo taskCount threads).Run (started T taskCount) labels s →
      labels.length ≤ 8 * taskCount + 1 ∧
      ((strandDemo taskCount threads).Stuck s ↔ labels.length = 8 * taskCount + 1) ∧
      ((strandDemo taskCount threads).Stuck s →
        s.main = .returned ∧ s.counter = taskCount ∧ s.atomicCounter = taskCount ∧
        s.workerThreads ⊆ threads ∧ (0 < taskCount → s.workerThreads.Nonempty) ∧
        s.output = [.serialized taskCount taskCount, .threads s.workerThreads.card,
          .plain taskCount taskCount].flatMap Line.text) := by
  refine ⟨?_, ?_⟩
  · rintro s ⟨start, labels, rfl, hrun⟩ t other ht hother
    exact (inv_of_run hrun).exclusive ht hother
  · intro labels s hrun
    have h := inv_of_run hrun
    have hwork := work_of_run hrun
    have hreturned : (strandDemo taskCount threads).Stuck s → s.main = .returned := by
      intro hstuck
      by_contra hrunning
      obtain ⟨event, s', hstep⟩ := h.exists_step hthreads hrunning
      exact hstuck event s' hstep
    refine ⟨by omega, ⟨?_, ?_⟩, ?_⟩
    · intro hstuck
      have hdone := h.work_of_returned (hreturned hstuck)
      omega
    · intro hall event s' hstep
      have hless := h.work_step (moves_of_step hstep)
      omega
    · intro hstuck
      obtain ⟨hcounter, hatomic, hsome, houtput⟩ := h.counted (hreturned hstuck)
      exact ⟨hreturned hstuck, hcounter, hatomic, h.members, hsome, houtput⟩

/-- The demo as it is: ten thousand handlers of each kind, on four threads. -/
theorem strand_counts_four :
    (∀ s, (strandDemo 10000 ({1, 2, 3, 4} : Finset ℕ)).Reachable s → ∀ t other,
      s.thread t ≠ .idle → s.thread other ≠ .idle → t = other) ∧
    ∀ labels s, (strandDemo 10000 ({1, 2, 3, 4} : Finset ℕ)).Run (started ℕ 10000) labels s →
      labels.length ≤ 80001 ∧
      ((strandDemo 10000 ({1, 2, 3, 4} : Finset ℕ)).Stuck s →
        s.counter = 10000 ∧ s.atomicCounter = 10000) := by
  have hthreads : ({1, 2, 3, 4} : Finset ℕ).Nonempty := by decide
  refine ⟨(strand_counts 10000 hthreads).1, ?_⟩
  intro labels s hrun
  obtain ⟨hlength, -, hends⟩ := (strand_counts 10000 hthreads).2 labels s hrun
  refine ⟨hlength, ?_⟩
  intro hstuck
  obtain ⟨-, hcounter, hatomic, -⟩ := hends hstuck
  exact ⟨hcounter, hatomic⟩

end Ends

end CppWorkspace.Asio.Strand
