import CppWorkspace.Actors.DelayedMessages

/-!
The runs of the rocket. Every start request leaves one tick underway, so that requests
that come during a countdown make it faster; they also take the promise over. Each
request is answered once, and the one that was handled last with the ignition.
-/

namespace CppWorkspace.Actors.DelayedMessages

open Lib System

/-- What a countdown from `count` prints down to `remaining`, which is not printed yet. -/
def countdown (count remaining : ℤ) : List Text :=
  (List.range (count - remaining).toNat).map fun (i : ℕ) => countdownText (count - i)

theorem countdown_self (count : ℤ) : countdown count count = [] := by
  rw [countdown, sub_self]
  rfl

theorem countdown_succ {count remaining : ℤ} (hle : remaining ≤ count) :
    countdown count (remaining - 1) = countdown count remaining ++ [countdownText remaining] := by
  have hnext : (count - (remaining - 1)).toNat = (count - remaining).toNat + 1 := by omega
  have hlast : count - ((count - remaining).toNat : ℤ) = remaining := by omega
  rw [countdown, hnext, List.range_succ, List.map_append, List.map_singleton, hlast]
  rfl

/-- The ticks among the messages. -/
def ticks (mailbox : List Message) : ℕ := mailbox.count .tick

@[simp] theorem requests_append (first second : List Message) :
    requests (first ++ second) = requests first ++ requests second := List.filterMap_append ..

@[simp] theorem requests_start (request : RequestId) (count : ℤ) (rest : List Message) :
    requests (.start request count :: rest) = request :: requests rest := rfl

@[simp] theorem requests_tick (rest : List Message) :
    requests (.tick :: rest) = requests rest := rfl

@[simp] theorem requests_nil : requests [] = [] := rfl

@[simp] theorem ticks_append (first second : List Message) :
    ticks (first ++ second) = ticks first + ticks second := List.count_append ..

@[simp] theorem ticks_start (request : RequestId) (count : ℤ) (rest : List Message) :
    ticks (.start request count :: rest) = ticks rest := by
  simp [ticks]

@[simp] theorem ticks_tick (rest : List Message) : ticks (.tick :: rest) = ticks rest + 1 := by
  simp [ticks]

@[simp] theorem ticks_nil : ticks [] = 0 := rfl

/-- The countdown that is going on: what is left of it, and what it has printed. -/
structure Counting (s : World) (request : RequestId) (remaining : ℤ) : Prop where
  printed : ∃ count before, (request, count) ∈ s.sent ∧ remaining ≤ count ∧
    (0 < remaining ∨ remaining = count) ∧ s.output = before ++ countdown count remaining

/-- The rocket has not started. -/
structure Running (s : World) (state : RocketState) : Prop where
  distinct : (s.sent.map Prod.fst).Nodup
  fits : ∀ r ∈ s.sent, FitsInt r.2
  answered : List.Perm (s.sent.map Prod.fst)
    (s.replies.map Prod.fst ++ state.launched.toList ++ requests s.mailbox)
  broken : ∀ r ∈ s.replies, r.2 = .brokenPromise
  underway : s.delayedTicks + ticks s.mailbox = s.replies.length + state.launched.toList.length
  unlaunched : state.launched = none → s.replies = []
  counting : ∀ request, state.launched = some request → Counting s request state.remaining
  starts : ∀ request count, .start request count ∈ s.mailbox → (request, count) ∈ s.sent

/-- The rocket has started, and its last countdown was complete. -/
structure Launched (s : World) : Prop where
  distinct : (s.sent.map Prod.fst).Nodup
  fits : ∀ r ∈ s.sent, FitsInt r.2
  answered : List.Perm (s.sent.map Prod.fst) (s.replies.map Prod.fst)
  empty : s.mailbox = []
  ignition : ∃ request count before, (request, count) ∈ s.sent ∧
    s.replies.filter (fun r => r.2 = .ignition) = [(request, .ignition)] ∧
    s.output = before ++ countdown count (min (count - 1) 0)

def Inv (s : World) : Prop :=
  match s.rocket with
  | .running state => Running s state
  | .quit => Launched s
  | .undefined => ∃ request, (request, -2 ^ 31) ∈ s.sent

theorem inv_initial : Inv {} where
  distinct := List.nodup_nil
  fits := by simp
  answered := .nil
  broken := by simp
  underway := rfl
  unlaunched _ := rfl
  counting := by simp
  starts := by simp

section Steps

variable {s s' : World} {state : RocketState} {event : Event}

theorem nodup_sent {id : RequestId} {count : ℤ} (hdistinct : (s.sent.map Prod.fst).Nodup)
    (hnew : id ∉ s.sent.map Prod.fst) : ((s.sent ++ [(id, count)]).map Prod.fst).Nodup := by
  rw [List.map_append, List.map_singleton]
  exact hdistinct.append (List.nodup_singleton id) (List.disjoint_singleton.mpr hnew)

theorem fits_sent {id : RequestId} {count : ℤ} (hfits : ∀ r ∈ s.sent, FitsInt r.2)
    (hnew : FitsInt count) : ∀ r ∈ s.sent ++ [(id, count)], FitsInt r.2 := by
  intro r hr
  rcases List.mem_append.mp hr with hold | hlast
  · exact hfits r hold
  · rw [List.mem_singleton.mp hlast]
    exact hnew

theorem Running.request (h : Running s state) {id : RequestId} {count : ℤ}
    (hnew : id ∉ s.sent.map Prod.fst) (hfits : FitsInt count) :
    Running { s with
      sent := s.sent ++ [(id, count)]
      mailbox := s.mailbox ++ [.start id count] } state where
  distinct := nodup_sent h.distinct hnew
  fits := fits_sent h.fits hfits
  answered := by
    simp only [List.map_append, List.map_singleton, requests_append, requests_start, requests_nil,
      ← List.append_assoc]
    exact h.answered.append_right _
  broken := h.broken
  underway := by simpa using h.underway
  unlaunched := h.unlaunched
  counting := by
    intro request hlaunched
    obtain ⟨count', before, hsent, hrest⟩ := (h.counting request hlaunched).printed
    exact ⟨count', before, List.mem_append_left _ hsent, hrest⟩
  starts := by
    intro request count' hmem
    rcases List.mem_append.mp hmem with hold | hlast
    · exact List.mem_append_left _ (h.starts request count' hold)
    · cases List.mem_singleton.mp hlast
      exact List.mem_append_right _ List.mem_cons_self

theorem Running.delayOver (h : Running s state) (hdelayed : 0 < s.delayedTicks) :
    Running { s with
      delayedTicks := s.delayedTicks - 1
      mailbox := s.mailbox ++ [.tick] } state where
  distinct := h.distinct
  fits := h.fits
  answered := by simpa using h.answered
  broken := h.broken
  underway := by
    have hticks := h.underway
    simp only [ticks_append, ticks_tick, ticks_nil]
    omega
  unlaunched := h.unlaunched
  counting request hlaunched := ⟨(h.counting request hlaunched).printed⟩
  starts := by
    intro request count hmem
    rcases List.mem_append.mp hmem with hold | hlast
    · exact h.starts request count hold
    · cases List.mem_singleton.mp hlast

theorem Running.onStart (h : Running s state) {request : RequestId} {count : ℤ}
    {rest : List Message} (hmailbox : s.mailbox = .start request count :: rest) :
    Running ({ s with mailbox := rest }.onStart state request count) ⟨count, some request⟩ where
  distinct := h.distinct
  fits := h.fits
  answered := by
    have hanswered := h.answered
    rw [hmailbox, requests_start] at hanswered
    simpa [World.onStart, Function.comp_def] using hanswered
  broken := by
    intro r hr
    rcases List.mem_append.mp hr with hold | hnew
    · exact h.broken r hold
    · obtain ⟨old, -, rfl⟩ := List.mem_map.mp hnew
      rfl
  underway := by
    have hticks := h.underway
    rw [hmailbox, ticks_start] at hticks
    simp only [World.onStart, List.length_append, List.length_map, Option.toList_some,
      List.length_singleton]
    omega
  unlaunched := by simp
  counting := by
    rintro request' ⟨⟩
    refine ⟨count, s.output, h.starts request count ?_, le_rfl, .inr rfl, ?_⟩
    · rw [hmailbox]
      exact List.mem_cons_self
    · rw [countdown_self, List.append_nil]
      rfl
  starts := by
    intro request' count' hmem
    refine h.starts request' count' ?_
    rw [hmailbox]
    exact List.mem_cons_of_mem _ hmem

/-- A tick comes only where a request has been handled. -/
theorem Running.launched_of_tick (h : Running s state) {rest : List Message}
    (hmailbox : s.mailbox = .tick :: rest) : ∃ request, state.launched = some request := by
  cases hlaunched : state.launched with
  | some request => exact ⟨request, rfl⟩
  | none =>
      have hticks := h.underway
      rw [hmailbox, ticks_tick, h.unlaunched hlaunched, hlaunched] at hticks
      simp at hticks

/-- What a tick does: it overflows, counts on or ends the countdown. -/
theorem onTick_cases (s : World) (state : RocketState) :
    (¬ FitsInt (state.remaining - 1) ∧ (s.onTick state).rocket = .undefined ∧
      (s.onTick state).sent = s.sent ∧ (s.onTick state).delayedTicks = s.delayedTicks) ∨
    (0 < state.remaining - 1 ∧ s.onTick state =
      { s with
        rocket := .running { state with remaining := state.remaining - 1 }
        delayedTicks := s.delayedTicks + 1
        output := s.output ++ [countdownText state.remaining] }) ∨
    (state.remaining - 1 ≤ 0 ∧ s.onTick state =
      { s with output := s.output ++ [countdownText state.remaining] }.quit state) := by
  unfold World.onTick
  cases hint : int (state.remaining - 1) with
  | none => exact .inl ⟨int_eq_none.mp hint, rfl, rfl, rfl⟩
  | some remaining =>
      obtain ⟨-, rfl⟩ := int_eq_some.mp hint
      rcases lt_or_ge 0 (state.remaining - 1) with hpos | hend
      · exact .inr (.inl ⟨hpos, if_pos hpos⟩)
      · exact .inr (.inr ⟨hend, if_neg (not_lt.mpr hend)⟩)

theorem Running.onTick (h : Running s state) {rest : List Message}
    (hmailbox : s.mailbox = .tick :: rest) : Inv ({ s with mailbox := rest }.onTick state) := by
  obtain ⟨request, hlaunched⟩ := h.launched_of_tick hmailbox
  obtain ⟨count, before, hsent, hle, hleft, houtput⟩ := (h.counting request hlaunched).printed
  have hfits := h.fits _ hsent
  have hanswered := h.answered
  have hticks := h.underway
  rw [hmailbox, requests_tick] at hanswered
  rw [hmailbox, ticks_tick] at hticks
  have hless : state.remaining - 1 ≤ count := by omega
  have hprinted : s.output ++ [countdownText state.remaining] =
      before ++ countdown count (state.remaining - 1) := by
    rw [countdown_succ hle, houtput, List.append_assoc]
  rcases onTick_cases { s with mailbox := rest } state with ⟨hlow, hrocket, hsame, -⟩ |
    ⟨hpos, heq⟩ | ⟨hend, heq⟩
  · have hcount : count = -2 ^ 31 := by
      unfold FitsInt at hfits hlow
      simp only at hfits
      omega
    rw [Inv, hrocket, hsame]
    exact ⟨request, hcount ▸ hsent⟩
  · rw [heq]
    exact
      { distinct := h.distinct
        fits := h.fits
        answered := hanswered
        broken := h.broken
        underway := by
          change s.delayedTicks + 1 + ticks rest = s.replies.length + state.launched.toList.length
          omega
        unlaunched := h.unlaunched
        counting := by
          intro request' hlaunched'
          cases hlaunched.symm.trans hlaunched'
          exact ⟨count, before, hsent, hless, .inl hpos, hprinted⟩
        starts := by
          intro request' count' hmem
          refine h.starts request' count' ?_
          rw [hmailbox]
          exact List.mem_cons_of_mem _ hmem }
  · have hlast : state.remaining - 1 = min (count - 1) 0 := by omega
    have hbroken : s.replies.filter (fun r => r.2 = .ignition) = [] := by
      rw [List.filter_eq_nil_iff]
      intro r hr
      simp [h.broken r hr]
    rw [heq]
    exact
      { distinct := h.distinct
        fits := h.fits
        answered := by
          simpa [World.quit, hlaunched, Function.comp_def] using hanswered
        empty := rfl
        ignition := by
          refine ⟨request, count, before, hsent, ?_, ?_⟩
          · simp [World.quit, hlaunched, hbroken, List.filter_map, Function.comp_def]
          · rw [← hlast]
            exact hprinted }

theorem Launched.request (h : Launched s) {id : RequestId} {count : ℤ}
    (hnew : id ∉ s.sent.map Prod.fst) (hfits : FitsInt count) :
    Launched { s with
      sent := s.sent ++ [(id, count)]
      replies := s.replies ++ [(id, .receiverDown)] } where
  distinct := nodup_sent h.distinct hnew
  fits := fits_sent h.fits hfits
  answered := by
    simp only [List.map_append, List.map_singleton]
    exact h.answered.append_right _
  empty := h.empty
  ignition := by
    obtain ⟨request, count', before, hsent, hreplies, houtput⟩ := h.ignition
    refine ⟨request, count', before, List.mem_append_left _ hsent, ?_, houtput⟩
    rw [List.filter_append, hreplies]
    rfl

theorem Inv.step (h : Inv s) (hstep : s.step event = some s') : Inv s' := by
  obtain ⟨rocket, mailbox, delayedTicks, sent, replies, output⟩ := s
  cases rocket with
  | running state =>
      have hrunning : Running _ state := h
      cases event with
      | request id count =>
          obtain ⟨⟨hnew, hfits⟩, heq⟩ := Option.ite_none_right_eq_some.mp hstep
          cases heq
          exact hrunning.request hnew hfits
      | delayOver =>
          obtain ⟨hdelayed, heq⟩ := Option.ite_none_right_eq_some.mp hstep
          cases heq
          exact hrunning.delayOver hdelayed
      | handle =>
          cases mailbox with
          | nil => cases hstep
          | cons message rest =>
              cases hstep
              cases message with
              | start request count => exact hrunning.onStart rfl
              | tick => exact hrunning.onTick rfl
  | quit =>
      have hlaunched : Launched _ := h
      cases event with
      | request id count =>
          obtain ⟨⟨hnew, hfits⟩, heq⟩ := Option.ite_none_right_eq_some.mp hstep
          cases heq
          exact hlaunched.request hnew hfits
      | delayOver =>
          obtain ⟨-, heq⟩ := Option.ite_none_right_eq_some.mp hstep
          cases heq
          exact ⟨hlaunched.distinct, hlaunched.fits, hlaunched.answered, hlaunched.empty,
            hlaunched.ignition⟩
      | handle => cases hstep
  | undefined => cases event <;> simp [World.step] at hstep

/-- How long a countdown takes. -/
def rounds (count : ℤ) : ℕ := (max count 1).toNat

/-- The ticks that the requests in the mailbox will take at most. -/
def pendingRounds (mailbox : List Message) : ℕ :=
  (mailbox.map fun
    | .start _ count => rounds count
    | .tick => 0).sum

/-- The steps that are left when no more requests come. -/
def World.work (s : World) : ℕ :=
  match s.rocket with
  | .running state => 3 * (rounds state.remaining + pendingRounds s.mailbox) + s.delayedTicks
  | .quit | .undefined => s.delayedTicks

theorem one_le_rounds (count : ℤ) : 1 ≤ rounds count := by
  unfold rounds
  omega

theorem onTick_work_lt (s : World) (state : RocketState) {rest : List Message} :
    ({ s with mailbox := rest }.onTick state).work <
      3 * (rounds state.remaining + pendingRounds (.tick :: rest)) + s.delayedTicks := by
  have hone := one_le_rounds state.remaining
  have hsame : pendingRounds (.tick :: rest) = pendingRounds rest := by simp [pendingRounds]
  rw [hsame]
  rcases onTick_cases { s with mailbox := rest } state with ⟨-, hrocket, -, hdelayed⟩ |
    ⟨hpos, heq⟩ | ⟨-, heq⟩
  · simp only [World.work, hrocket, hdelayed]
    omega
  · have hless : rounds (state.remaining - 1) + 1 = rounds state.remaining := by
      unfold rounds
      omega
    rw [heq]
    simp only [World.work]
    omega
  · rw [heq]
    simp only [World.work, World.quit]
    omega

theorem step_work_lt (hevent : event = .delayOver ∨ event = .handle)
    (hstep : s.step event = some s') : s'.work < s.work := by
  obtain ⟨rocket, mailbox, delayedTicks, sent, replies, output⟩ := s
  cases rocket with
  | running state =>
      rcases hevent with rfl | rfl
      · obtain ⟨hdelayed, heq⟩ := Option.ite_none_right_eq_some.mp hstep
        cases heq
        simp only [World.work, pendingRounds, List.map_append, List.map_singleton,
          List.sum_append, List.sum_singleton] at hdelayed ⊢
        omega
      · cases mailbox with
        | nil => cases hstep
        | cons message rest =>
            cases hstep
            cases message with
            | start request count =>
                have hone := one_le_rounds state.remaining
                simp only [World.work, World.react, World.onStart, pendingRounds, List.map_cons,
                  List.sum_cons]
                omega
            | tick => exact onTick_work_lt ⟨_, _, _, _, _, _⟩ state
  | quit =>
      rcases hevent with rfl | rfl
      · obtain ⟨hdelayed, heq⟩ := Option.ite_none_right_eq_some.mp hstep
        cases heq
        simp only [World.work] at hdelayed ⊢
        omega
      · cases hstep
  | undefined => rcases hevent with rfl | rfl <;> simp [World.step] at hstep

theorem onTick_sent (s : World) (state : RocketState) : (s.onTick state).sent = s.sent := by
  rcases onTick_cases s state with ⟨-, -, hsame, -⟩ | ⟨-, heq⟩ | ⟨-, heq⟩
  · exact hsame
  · rw [heq]
  · rw [heq, World.quit]

theorem step_sent (hevent : event = .delayOver ∨ event = .handle)
    (hstep : s.step event = some s') : s'.sent = s.sent := by
  obtain ⟨rocket, mailbox, delayedTicks, sent, replies, output⟩ := s
  cases rocket with
  | running state =>
      rcases hevent with rfl | rfl
      · obtain ⟨-, heq⟩ := Option.ite_none_right_eq_some.mp hstep
        cases heq
        rfl
      · cases mailbox with
        | nil => cases hstep
        | cons message rest =>
            cases hstep
            cases message with
            | start request count => rfl
            | tick => exact onTick_sent ⟨.running state, rest, _, _, _, _⟩ state
  | quit =>
      rcases hevent with rfl | rfl
      · obtain ⟨-, heq⟩ := Option.ite_none_right_eq_some.mp hstep
        cases heq
        rfl
      · cases hstep
  | undefined => rcases hevent with rfl | rfl <;> simp [World.step] at hstep

/-- Where no message is left the rocket has started, if it was asked to. -/
theorem Inv.cases_of_stuck (h : Inv s) (hdelay : s.step .delayOver = none)
    (hhandle : s.step .handle = none) (hsafe : ∀ r ∈ s.sent, -2 ^ 31 < r.2) :
    s.sent = [] ∨ s.rocket = .quit := by
  cases hrocket : s.rocket with
  | running state =>
      rw [Inv, hrocket] at h
      have hrunning : Running s state := h
      have hnone : s.delayedTicks = 0 := by
        by_contra hsome
        simp [World.step, hrocket, Nat.pos_of_ne_zero hsome] at hdelay
      have hempty : s.mailbox = [] := by
        cases hmailbox : s.mailbox with
        | nil => rfl
        | cons message rest =>
            simp only [World.step, hrocket, hmailbox] at hhandle
            cases hhandle
      have hunderway := hrunning.underway
      rw [hnone, hempty, ticks_nil] at hunderway
      have hreplies : s.replies = [] := List.length_eq_zero_iff.mp (by omega)
      have hlaunched : state.launched.toList = [] := List.length_eq_zero_iff.mp (by omega)
      have hanswered := hrunning.answered
      rw [hreplies, hlaunched, hempty] at hanswered
      exact .inl (List.map_eq_nil_iff.mp hanswered.eq_nil)
  | quit => exact .inr rfl
  | undefined =>
      rw [Inv, hrocket] at h
      obtain ⟨request, hsent⟩ := h
      exact absurd (hsafe _ hsent) (lt_irrefl _)

end Steps

/-- For all requests and all orders in which they and the ticks arrive, when no request
has the lowest count: nothing overflows; without more requests only so many steps are
left, and where none is left every request has been answered once, one of them with the
ignition, behind the complete countdown of that request. -/
theorem rocket_answers {s : World} (hreach : rocketSystem.Reachable s)
    (hsafe : ∀ r ∈ s.sent, -2 ^ 31 < r.2) :
    s.rocket ≠ .undefined ∧
    ∀ labels s', launchOnly.Run s labels s' → s'.sent = s.sent ∧ labels.length ≤ s.work ∧
      (launchOnly.Stuck s' → s.sent ≠ [] → s'.rocket = .quit ∧
        (s'.replies.map Prod.fst).Perm (s.sent.map Prod.fst) ∧ (s.sent.map Prod.fst).Nodup ∧
        ∃ request count before, (request, count) ∈ s.sent ∧
          s'.replies.filter (fun r => r.2 = .ignition) = [(request, .ignition)] ∧
          s'.output = before ++ countdown count (min (count - 1) 0)) := by
  have h : Inv s := by
    obtain ⟨start, labels, rfl, hrun⟩ := hreach
    exact hrun.preserves (fun _ _ _ h hstep => h.step hstep) inv_initial
  constructor
  · intro hrocket
    rw [Inv, hrocket] at h
    obtain ⟨request, hsent⟩ := h
    exact lt_irrefl _ (hsafe _ hsent)
  · intro labels s' hrun
    have hone : ∀ a event b, launchOnly.step a event b →
        (event = .delayOver ∨ event = .handle) ∧ a.step event = some b := fun _ _ _ hstep => hstep
    obtain ⟨h', hsent⟩ := hrun.preserves (I := fun s' => Inv s' ∧ s'.sent = s.sent)
      (fun _ _ _ hs hstep => ⟨hs.1.step (hone _ _ _ hstep).2,
        (step_sent (hone _ _ _ hstep).1 (hone _ _ _ hstep).2).trans hs.2⟩) ⟨h, rfl⟩
    have hwork : labels.length + s'.work ≤ s.work := hrun.length_le (I := fun _ => True)
      (fun _ _ _ _ hstep => ⟨trivial, step_work_lt (hone _ _ _ hstep).1 (hone _ _ _ hstep).2⟩)
      trivial
    refine ⟨hsent, by omega, ?_⟩
    intro hstuck hsome
    have hnone : ∀ event, event = .delayOver ∨ event = .handle → s'.step event = none := by
      intro event hevent
      cases hnext : s'.step event with
      | none => rfl
      | some next => exact absurd ⟨hevent, hnext⟩ (hstuck event next)
    rcases h'.cases_of_stuck (hnone _ (.inl rfl)) (hnone _ (.inr rfl)) (hsent ▸ hsafe) with
      hempty | hquit
    · exact absurd (hsent.symm.trans hempty) hsome
    · rw [Inv, hquit] at h'
      have hlaunched : Launched s' := h'
      obtain ⟨request, count, before, hmem, hrest⟩ := hlaunched.ignition
      exact ⟨hquit, hsent ▸ hlaunched.answered.symm, hsent ▸ hlaunched.distinct, request, count,
        before, hsent ▸ hmem, hrest⟩

/-- The rocket counts down from three, and before the first tick a request for a countdown
from two replaces its promise. -/
def replacedPromise : World where
  rocket := .running ⟨3, some 0⟩
  mailbox := [.start 1 2]
  delayedTicks := 1
  sent := [(0, 3), (1, 2)]

theorem rocket_answers_replaced :
    rocketSystem.Reachable replacedPromise ∧
    (∃ labels s, launchOnly.Run replacedPromise labels s ∧
      s.replies = [(0, .brokenPromise), (1, .ignition)]) ∧
    ∀ labels s', launchOnly.Run replacedPromise labels s' → launchOnly.Stuck s' →
      s'.rocket = .quit ∧ (s'.replies.map Prod.fst).Perm [0, 1] := by
  have hreach : rocketSystem.Reachable replacedPromise :=
    ⟨_, [.request 0 3, .handle, .request 1 2], rfl,
      Run.of_foldlM (fun _ _ _ hstep => hstep) (by decide)⟩
  have hreplaced : ([.handle, .delayOver, .handle, .delayOver, .handle].foldlM
      (fun s event => if event = .delayOver ∨ event = .handle then World.step s event else none)
      replacedPromise).map World.replies = some [(0, .brokenPromise), (1, .ignition)] := by decide
  obtain ⟨s, hsteps, hreplies⟩ := Option.map_eq_some_iff.mp hreplaced
  have hlaunch := Run.of_foldlM (S := launchOnly)
    (fun _ _ _ hstep => Option.ite_none_right_eq_some.mp hstep) hsteps
  refine ⟨hreach, ⟨_, s, hlaunch, hreplies⟩, fun labels s' hrun hstuck => ?_⟩
  obtain ⟨-, -, hend⟩ := (rocket_answers hreach (by decide)).2 labels s' hrun
  obtain ⟨hquit, hanswered, -⟩ := hend hstuck (by decide)
  exact ⟨hquit, hanswered⟩

end CppWorkspace.Actors.DelayedMessages
