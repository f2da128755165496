import CppWorkspace.Tokio.Bridge

/-!
The initiation of `fetch_greeting`. The operation is parked before the name is
made a `::rust::Str`, which throws when the bytes are not UTF-8, and nobody
takes the operation back then.
-/

namespace CppWorkspace.Tokio.Bridge

open Lib System

variable {E : Type*}

/-- `::rust::Str {ptr, len}`; `none` stands for the exception. -/
def rustStr (name : ByteArray) : Option (List Char) := (String.fromUTF8? name).map String.toList

namespace State

/-- `park`. -/
def parkOp (s : State E) (result : Kind) (executor : E) (ctx : Nat) : State E :=
  { s with
    heap := Function.update s.heap ctx
      (some ⟨result, some ⟨s.awaits.length, executor⟩, executor⟩)
    outstanding := s.outstanding + 1 }

/-- The call into Rust, which spawns the task. -/
def spawnTask (s : State E) (call : Call) (executor : E) (ctx : Nat) : State E :=
  { s with
    awaits := s.awaits ++ [(call, executor)]
    tasks := s.tasks ++ [⟨call, ctx⟩] }

theorem park_eq (s : State E) (call : Call) (executor : E) (ctx : Nat) :
    s.park call executor ctx = (s.parkOp call.kind executor ctx).spawnTask call executor ctx :=
  rfl

end State

/-- What an initiation leaves, and whether an exception came out of it. -/
structure Initiated (E : Type*) where
  state : State E
  threw : Bool

/-- `rust_tokio::fetch_greeting`, with the address that `make_unique` returns. -/
def fetchGreeting (s : State E) (name : ByteArray) (delay : Int64) (executor : E) (ctx : Nat) :
    Initiated E :=
  let parked := s.parkOp .greet executor ctx
  match rustStr name with
  | none => ⟨parked, true⟩
  | some text => ⟨parked.spawnTask (.greet text delay.toUInt64.toNat) executor ctx, false⟩

/-- Either a task is spawned that has the context of the parked operation, or
the call throws with no operation allocated and no guard held for it. -/
def NothingLeftParked (s : State E) (executor : E) (ctx : Nat) (r : Initiated E) : Prop :=
  (r.threw = false ∧
    (∃ call, call.kind = .greet ∧ r.state.tasks = s.tasks ++ [⟨call, ctx⟩]) ∧
    ∃ handler, r.state.heap ctx = some ⟨.greet, some handler, executor⟩) ∨
  (r.threw = true ∧ r.state.heap = s.heap ∧ r.state.outstanding = s.outstanding)

inductive InitiationAct (E : Type*) where
  | bridge (act : Act E)
  | fetch (name : ByteArray) (delay : Int64) (executor : E) (ctx : Nat)

/-- The bridge with initiations that may fail. -/
def initiationSystem : System (State E) (InitiationAct E) where
  init s := s = {}
  step s
    | .bridge act, s' => Step s act s'
    | .fetch name delay executor ctx, s' => 0 < s.running ∧ s.heap ctx = none ∧
        s' = (fetchGreeting s name delay executor ctx).state

theorem isSome_rustStr (name : ByteArray) :
    (rustStr name).isSome = true ↔ name.IsValidUTF8 := by
  unfold rustStr String.fromUTF8?
  split
  · next hvalid => simp [hvalid]
  · next hvalid => simp [hvalid]

theorem nothingLeftParked_iff (s : State E) (name : ByteArray) (delay : Int64) (executor : E)
    {ctx : Nat} (hfree : s.heap ctx = none) :
    NothingLeftParked s executor ctx (fetchGreeting s name delay executor ctx) ↔
      name.IsValidUTF8 := by
  rw [← isSome_rustStr]
  unfold fetchGreeting
  cases hstr : rustStr name with
  | none =>
      refine iff_of_false ?_ (by simp)
      rintro (⟨hthrew, -⟩ | ⟨-, hheap, -⟩)
      · cases hthrew
      · have hctx := congrFun hheap ctx
        simp [State.parkOp, hfree] at hctx
  | some text =>
      refine iff_of_true (Or.inl ⟨rfl, ⟨_, rfl, rfl⟩, ⟨s.awaits.length, executor⟩, ?_⟩) rfl
      simp [State.spawnTask, State.parkOp]

/-- At least `extra` guards are held that nobody will drop. -/
structure Overcounted (extra : Nat) (s : State E) : Prop where
  work : extra + s.tasks.length + s.resuming.length + s.releasing.length + s.queue.length +
    s.running ≤ s.outstanding
  stopped : s.stopped = true → s.outstanding = 0

namespace Overcounted

variable {extra : Nat} {s s' : State E}

theorem not_stopped (h : Overcounted (extra + 1) s) : s.stopped = false := by
  cases hstopped : s.stopped with
  | false => rfl
  | true =>
      have hwork := h.work
      have hzero := h.stopped hstopped
      omega

theorem of_succ (h : Overcounted (extra + 1) s) : Overcounted extra s := by
  have hwork := h.work
  exact ⟨by omega, h.stopped⟩

theorem workFinished (h : Overcounted (extra + 1) s) : Overcounted extra s.workFinished := by
  have hwork := h.work
  constructor
  · simp only [State.workFinished]
    omega
  · intro hstopped
    simpa [State.workFinished, h.not_stopped] using hstopped

theorem parkOp (h : Overcounted extra s) (hrunning : 0 < s.running) (result : Kind) (executor : E)
    (ctx : Nat) : Overcounted (extra + 1) (s.parkOp result executor ctx) := by
  have hwork := h.work
  constructor
  · simp only [State.parkOp]
    omega
  · intro hstopped
    have hzero := h.stopped hstopped
    omega

/-- The guard of a parked operation belongs to the task from now on. -/
theorem spawnTask (h : Overcounted (extra + 1) s) (call : Call) (executor : E) (ctx : Nat) :
    Overcounted extra (s.spawnTask call executor ctx) := by
  have hwork := h.work
  constructor
  · simp only [State.spawnTask, List.length_append, List.length_singleton]
    omega
  · exact h.stopped

theorem bridge {act : Act E} (h : Overcounted extra s) (hstep : Step s act s') :
    Overcounted extra s' := by
  have hwork := h.work
  cases act with
  | spawn =>
      obtain ⟨hstopped, rfl⟩ := hstep
      refine ⟨?_, fun htrue => absurd (hstopped.symm.trans htrue) (by decide)⟩
      simp only [List.length_append, List.length_singleton]
      omega
  | start call executor ctx =>
      obtain ⟨hrunning, -, rfl⟩ := hstep
      rw [State.park_eq]
      exact (h.parkOp hrunning _ executor ctx).spawnTask call executor ctx
  | complete task =>
      obtain ⟨before, after, htasks, rfl⟩ := hstep
      refine ⟨?_, h.stopped⟩
      simp only [htasks, List.length_append, List.length_cons, List.length_nil] at hwork ⊢
      omega
  | post ctx =>
      obtain ⟨before, value, after, hresuming, rfl⟩ := hstep
      simp only [hresuming, List.length_append, List.length_cons] at hwork
      have hbad : Overcounted extra { s with resuming := before ++ after, undefined := true } := by
        refine ⟨?_, h.stopped⟩
        simp only [List.length_append]
        omega
      unfold State.post
      split
      · split
        · refine ⟨?_, fun hstopped => ?_⟩
          · simp only [List.length_append, List.length_cons, List.length_nil]
            omega
          · have hzero := h.stopped hstopped
            omega
        · exact hbad
      · exact hbad
  | release ctx =>
      obtain ⟨before, after, hreleasing, rfl⟩ := hstep
      unfold State.release
      split
      · apply workFinished
        refine ⟨?_, h.stopped⟩
        simp only [hreleasing, List.length_append, List.length_cons] at hwork ⊢
        omega
      · refine ⟨?_, h.stopped⟩
        simp only [hreleasing, List.length_append, List.length_cons] at hwork ⊢
        omega
  | run thread item =>
      obtain ⟨-, -, before, after, hqueue, rfl⟩ := hstep
      simp only [hqueue, List.length_append, List.length_cons] at hwork
      cases item with
      | plain =>
          refine ⟨?_, h.stopped⟩
          simp only [State.enter, List.length_append]
          omega
      | resume handler value executor =>
          refine ⟨?_, h.stopped⟩
          simp only [State.enter, List.length_append]
          omega
  | finish =>
      obtain ⟨hrunning, rfl⟩ := hstep
      apply workFinished
      refine ⟨?_, h.stopped⟩
      simp only
      omega

theorem step {act : InitiationAct E} (h : Overcounted extra s)
    (hstep : (initiationSystem (E := E)).step s act s') : Overcounted extra s' := by
  cases act with
  | bridge act => exact h.bridge hstep
  | fetch name delay executor ctx =>
      obtain ⟨hrunning, -, rfl⟩ := hstep
      have hparked := h.parkOp hrunning .greet executor ctx
      unfold fetchGreeting
      cases rustStr name with
      | none => exact hparked.of_succ
      | some text => exact hparked.spawnTask _ executor ctx

end Overcounted

theorem overcounted_invariant : (initiationSystem (E := E)).Invariant (Overcounted 0) where
  init := by
    rintro s rfl
    exact ⟨by simp, by simp⟩
  step _ _ _ h hstep := h.step hstep

/-- `fetch_greeting` leaves nothing parked exactly if the name is UTF-8. After any
other name the `io_context` never stops, whatever happens later. -/
theorem fetch_greeting_clean_iff {s : State E} (hs : (initiationSystem (E := E)).Reachable s)
    (name : ByteArray) (delay : Int64) (executor : E) (ctx : Nat) (hrunning : 0 < s.running)
    (hfree : s.heap ctx = none) :
    (NothingLeftParked s executor ctx (fetchGreeting s name delay executor ctx) ↔
      name.IsValidUTF8) ∧
    (¬ name.IsValidUTF8 → ∀ labels s',
      (initiationSystem (E := E)).Run (fetchGreeting s name delay executor ctx).state labels s' →
        s'.stopped = false) := by
  refine ⟨nothingLeftParked_iff s name delay executor hfree, ?_⟩
  intro hvalid labels s' hrun
  have hnone : rustStr name = none := by
    rw [← isSome_rustStr] at hvalid
    simpa using hvalid
  have hstate : (fetchGreeting s name delay executor ctx).state = s.parkOp .greet executor ctx := by
    simp [fetchGreeting, hnone]
  rw [hstate] at hrun
  have hparked := (overcounted_invariant.reachable hs).parkOp hrunning .greet executor ctx
  exact (hrun.preserves (fun _ _ _ h hstep => h.step hstep) hparked).not_stopped

/-- A state in which a coroutine runs, and nothing is parked. -/
def awaiting : State Bool := { running := 1, outstanding := 1 }

theorem awaiting_reachable : (initiationSystem (E := Bool)).Reachable awaiting :=
  ⟨{}, _, rfl,
    Run.cons (InitiationAct.bridge Act.spawn) ⟨rfl, rfl⟩ <|
    Run.cons (InitiationAct.bridge (Act.run .loop .plain)) ⟨rfl, rfl, [], [], rfl, rfl⟩ <|
    .nil⟩

theorem fetch_greeting_clean_awaiting :
    ¬ NothingLeftParked awaiting true 7 (fetchGreeting awaiting ⟨#[0xff]⟩ 0 true 7) ∧
      ∀ labels s', (initiationSystem (E := Bool)).Run
        (fetchGreeting awaiting ⟨#[0xff]⟩ 0 true 7).state labels s' → s'.stopped = false := by
  have hff : ¬ (⟨#[0xff]⟩ : ByteArray).IsValidUTF8 := by decide
  obtain ⟨hiff, hnever⟩ :=
    fetch_greeting_clean_iff awaiting_reachable ⟨#[0xff]⟩ 0 true 7 (by decide) rfl
  exact ⟨fun h => hff (hiff.mp h), hnever hff⟩

/-- A name of one byte, which no UTF-8 text contains. -/
theorem fetch_greeting_leaks : ∃ s : State Bool, ∃ r,
    (initiationSystem (E := Bool)).Reachable s ∧ 0 < s.running ∧ s.heap 7 = none ∧
      r = fetchGreeting s ⟨#[0xff]⟩ 0 true 7 ∧ r.threw = true ∧ r.state.heap 7 ≠ none ∧
      r.state.outstanding = s.outstanding + 1 ∧ ¬ NothingLeftParked s true 7 r := by
  have hff : rustStr ⟨#[0xff]⟩ = none := by
    rw [← Option.not_isSome_iff_eq_none, isSome_rustStr]
    decide
  have hfetch : fetchGreeting awaiting ⟨#[0xff]⟩ 0 true 7 =
      ⟨awaiting.parkOp .greet true 7, true⟩ := by
    simp [fetchGreeting, hff]
  have hiff :=
    nothingLeftParked_iff awaiting ⟨#[0xff]⟩ 0 true (show awaiting.heap 7 = none from rfl)
  refine ⟨awaiting, _, awaiting_reachable, by decide, rfl, rfl, ?_, ?_, ?_, fun h => ?_⟩
  · rw [hfetch]
  · rw [hfetch]
    simp [State.parkOp]
  · rw [hfetch]
    rfl
  · exact absurd (hiff.mp h) (by decide)

end CppWorkspace.Tokio.Bridge
