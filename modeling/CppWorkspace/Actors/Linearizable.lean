import CppWorkspace.Actors.CallReplies

/-!
The counter server over whole runs: every call returns the sum of the
increments handled before it, the server never waits for a reply channel, the
last call sees every increment and nothing is left when the server stops.
-/

namespace CppWorkspace.Actors.GenServer

open Lib System

variable {ι : Type*}

/-- A reply channel with one place that takes values. -/
def OpenReply (c : Channel Int) : Prop := c.closed = false ∧ c.capacity = 1

/-- What a step does to the server and the reply channels. -/
structure ServerMove (s : State ι) (act : Act ι) (s' : State ι) : Prop where
  reply : ∀ caller, ∀ v ∈ (s'.reply caller).buffer,
    v ∈ (s.reply caller).buffer ∨ (s.server = .replying caller ∧ v = s.value)
  replying : ∀ caller, s'.server = .replying caller →
    (s.server = .replying caller ∧ act.taken = none) ∨ act = .handle (.getValue caller)
  stopped : s'.server = .stopped ↔ s.server = .stopped ∨ act = .handle .stop
  opened : ∀ caller, OpenReply (s.reply caller) → OpenReply (s'.reply caller)

/-- A step that leaves the server and the reply channels alone. -/
theorem ServerMove.same {s s' : State ι} {act : Act ι} (htaken : act.taken = none)
    (hserver : s'.server = s.server) (hreply : s'.reply = s.reply) : ServerMove s act s' where
  reply caller v hv := by
    rw [hreply] at hv
    exact Or.inl hv
  replying caller h := by
    rw [hserver] at h
    exact Or.inl ⟨h, htaken⟩
  stopped := by
    rw [hserver, or_iff_left]
    rintro rfl
    cases htaken
  opened caller h := by
    rwa [hreply]

variable [DecidableEq ι]

theorem step_serverMove {totals : ι → Int} {s s' : State ι} {act : Act ι}
    (hstep : Step totals s act s') : ServerMove s act s' := by
  cases act with
  | cast i =>
      obtain ⟨mailbox, -, -, rfl⟩ := hstep
      obtain ⟨-, -, hserver, hreply, -⟩ := advanced_frame { s with mailbox := mailbox } i
      exact .same rfl hserver hreply
  | firstDone i =>
      obtain ⟨j, -, -, rfl⟩ := hstep
      exact .same rfl rfl rfl
  | secondDone i =>
      obtain ⟨j, -, -, rfl⟩ := hstep
      exact .same rfl rfl rfl
  | join =>
      obtain ⟨-, -, rfl⟩ := hstep
      exact .same rfl rfl rfl
  | stop =>
      obtain ⟨mailbox, -, -, rfl⟩ := hstep
      exact .same rfl rfl rfl
  | call other =>
      obtain ⟨mailbox, -, -, rfl⟩ := hstep
      obtain ⟨-, -, hserver, hreply⟩ := called_frame { s with mailbox := mailbox } other
      constructor
      · intro caller v hv
        rw [hreply] at hv
        by_cases heq : caller = other
        · simp [heq] at hv
        · rw [Function.update_of_ne heq] at hv
          exact Or.inl hv
      · intro caller h
        rw [hserver] at h
        exact Or.inl ⟨h, rfl⟩
      · rw [hserver]
        simp
      · intro caller h
        rw [hreply]
        by_cases heq : caller = other
        · rw [heq, Function.update_self]
          exact ⟨rfl, rfl⟩
        · rwa [Function.update_of_ne heq]
  | result other value =>
      obtain ⟨reply, -, htake, rfl⟩ := hstep
      obtain ⟨hbuffer, hclosed, hcapacity⟩ := Channel.take_spec htake
      obtain ⟨-, -, hserver, hreply⟩ := answered_frame
        { s with reply := Function.update s.reply other reply } totals other
      constructor
      · intro caller v hv
        simp only [hreply] at hv
        by_cases heq : caller = other
        · subst heq
          rw [Function.update_self] at hv
          rw [hbuffer]
          exact Or.inl (List.mem_cons_of_mem _ hv)
        · rw [Function.update_of_ne heq] at hv
          exact Or.inl hv
      · intro caller h
        rw [hserver] at h
        exact Or.inl ⟨h, rfl⟩
      · rw [hserver]
        simp
      · intro caller h
        simp only [hreply]
        by_cases heq : caller = other
        · subst heq
          rw [Function.update_self]
          exact ⟨hclosed.trans h.1, hcapacity.trans h.2⟩
        · rwa [Function.update_of_ne heq]
  | handle message =>
      obtain ⟨mailbox, hserver, -, rfl⟩ := hstep
      obtain ⟨-, -, -, -, hreply⟩ := serve_frame { s with mailbox := mailbox } message
      constructor
      · intro caller v hv
        rw [hreply] at hv
        exact Or.inl hv
      · intro caller h
        cases message with
        | increment amount => cases hserver.symm.trans h
        | getValue other =>
            cases h
            exact Or.inr rfl
        | stop => cases h
      · cases message <;> simp [State.serve, hserver]
      · intro caller h
        rwa [hreply]
  | sendReply other =>
      obtain ⟨reply, hserver, hput, rfl⟩ := hstep
      obtain ⟨-, -, hbuffer, hclosed, hcapacity⟩ := Channel.put_spec hput
      constructor
      · intro caller v hv
        by_cases heq : caller = other
        · subst heq
          simp only [Function.update_self, hbuffer] at hv
          rcases List.mem_append.mp hv with hold | hnew
          · exact Or.inl hold
          · exact Or.inr ⟨hserver, List.mem_singleton.mp hnew⟩
        · simp only [Function.update_of_ne heq] at hv
          exact Or.inl hv
      · intro caller h
        cases h
      · simp [hserver]
      · intro caller h
        by_cases heq : caller = other
        · subst heq
          simp only [Function.update_self]
          exact ⟨hclosed, hcapacity.trans h.2⟩
        · simpa only [Function.update_of_ne heq] using h

theorem sumBefore_append_self {messages : List (Message ι)} {caller : Caller ι}
    (h : .getValue caller ∉ messages) :
    sumBefore (messages ++ [.getValue caller]) caller = sumIncrements messages := by
  rw [sumBefore, List.takeWhile_append_of_pos]
  · simp
  · intro message hmem
    simp only [decide_eq_true_eq]
    rintro rfl
    exact h hmem

section Steps

variable {totals : ι → Int} {capacity : Nat} {labels : List (Act ι)} {s s' : State ι} {act : Act ι}

/-- A message of the server's past, and the sum before it, stay what they
were. -/
theorem handled_mono {caller : Caller ι} {v : Int} (act : Act ι)
    (h : .getValue caller ∈ handledMessages labels ∧ v = sumBefore (handledMessages labels) caller) :
    .getValue caller ∈ handledMessages (labels ++ [act]) ∧
      v = sumBefore (handledMessages (labels ++ [act])) caller := by
  rw [handledMessages_append, sumBefore_append_of_mem h.1]
  exact ⟨List.mem_append_left _ h.1, h.2⟩

/-- Once every client has returned, no client moves. -/
theorem client_of_returned (hstep : Step totals s act s') (hall : ∀ i, s.client i = .returned) :
    s'.client = s.client := by
  cases step_clientMove hstep with
  | none hact hclient => exact hclient
  | first k j hpc hlt hclient => cases (hall k).symm.trans hpc
  | firstDone k j hpc hge hclient => cases (hall k).symm.trans hpc
  | call k hpc hclient => cases (hall k).symm.trans hpc
  | result k value hpc hclient => cases (hall k).symm.trans hpc
  | second k j hpc hlt hclient => cases (hall k).symm.trans hpc
  | secondDone k j hpc hge hclient => cases (hall k).symm.trans hpc

/-- Once the orchestrator has returned, nothing is sent. -/
theorem nothing_sent_after_stop (hstep : Step totals s act s')
    (hall : ∀ i, s.client i = .returned) (hdone : s.orchestrator = .returned) :
    act.sent = none ∧ s'.orchestrator = .returned := by
  have horchestrator := step_orchestratorMove hstep
  cases act with
  | cast i =>
      cases step_clientMove hstep with
      | none hact _ => exact absurd rfl (hact i).1
      | first _ j hpc _ _ => cases (hall i).symm.trans hpc
      | second _ j hpc _ _ => cases (hall i).symm.trans hpc
  | call caller =>
      cases caller with
      | none =>
          cases horchestrator with
          | none hact _ => exact absurd rfl hact.2.1
          | call hpc _ => cases hdone.symm.trans hpc
      | some i =>
          cases step_clientMove hstep with
          | none hact _ => exact absurd rfl (hact i).2.1
          | call _ hpc _ => cases (hall i).symm.trans hpc
  | stop =>
      cases horchestrator with
      | none hact _ => exact absurd rfl hact.2.2.1
      | stop hpc _ => cases hdone.symm.trans hpc
  | firstDone i =>
      cases horchestrator with
      | none _ h => exact ⟨rfl, h.trans hdone⟩
  | secondDone i =>
      cases horchestrator with
      | none _ h => exact ⟨rfl, h.trans hdone⟩
  | result caller value =>
      cases horchestrator with
      | none _ h => exact ⟨rfl, h.trans hdone⟩
      | result _ hpc _ => cases hdone.symm.trans hpc
  | join =>
      cases horchestrator with
      | none hact _ => exact absurd rfl hact.1
      | join hpc _ _ => cases hdone.symm.trans hpc
  | handle message =>
      cases horchestrator with
      | none _ h => exact ⟨rfl, h.trans hdone⟩
  | sendReply caller =>
      cases horchestrator with
      | none _ h => exact ⟨rfl, h.trans hdone⟩

theorem not_awaiting_of_call {caller : Caller ι} (hstep : Step totals s (.call caller) s') :
    ¬ s.Awaiting caller := by
  obtain ⟨mailbox, hcalling, -, -⟩ := hstep
  cases caller with
  | none => simp_all [State.Calling, State.Awaiting]
  | some i => simp_all [State.Calling, State.Awaiting]

/-- The state after the steps `labels`. -/
structure Tally [Fintype ι] (totals : ι → Int) (capacity : Nat) (labels : List (Act ι))
    (s : State ι) : Prop where
  fifo : sentMessages labels = handledMessages labels ++ s.mailbox.buffer
  value : s.value = sumIncrements (handledMessages labels)
  mailbox_open : s.mailbox.closed = false ∧ s.mailbox.capacity = capacity
  reply_open : ∀ caller, OpenReply (s.reply caller)
  in_range : ∀ i, InRange (totals i) (s.client i)
  casts : ∀ i, (castsBy labels i : Int) = progress (totals i) (s.client i)
  asked : ∀ caller, (sentMessages labels).count (.getValue caller) = (s.past caller).toNat
  joined : s.orchestrator ≠ .joining → ∀ i, s.client i = .returned
  in_flight : ∀ caller, (s.Awaiting caller → s.inFlight caller = 1) ∧
    (¬ s.Awaiting caller → s.inFlight caller = 0)
  replying : ∀ caller, s.server = .replying caller →
    .getValue caller ∈ handledMessages labels ∧ s.value = sumBefore (handledMessages labels) caller
  replied : ∀ caller, ∀ v ∈ (s.reply caller).buffer,
    .getValue caller ∈ handledMessages labels ∧ v = sumBefore (handledMessages labels) caller
  stop_sent : .stop ∈ sentMessages labels ↔ s.orchestrator = .returned
  stop_last : ∀ before after, sentMessages labels = before ++ .stop :: after → after = []
  stopped : s.server = .stopped ↔ .stop ∈ handledMessages labels
  final : s.past none = true → sumBefore (sentMessages labels) none = ∑ i, max (totals i) 0

variable [Fintype ι]

theorem tally_initial (totals : ι → Int) (capacity : Nat) :
    Tally totals capacity [] { mailbox := .make capacity } where
  fifo := rfl
  value := rfl
  mailbox_open := ⟨rfl, rfl⟩
  reply_open _ := ⟨rfl, rfl⟩
  in_range _ := ⟨le_rfl, le_max_right _ _⟩
  casts _ := rfl
  asked caller := by cases caller <;> rfl
  joined h := absurd rfl h
  in_flight caller := by
    cases caller <;> simp [State.Awaiting, State.inFlight]
  replying _ h := by cases h
  replied _ _ h := by cases h
  stop_sent := by simp [sentMessages]
  stop_last before after h := by simp [sentMessages] at h
  stopped := by simp [handledMessages]
  final h := by cases h

theorem Tally.fifo_step (h : Tally totals capacity labels s) (hstep : Step totals s act s') :
    sentMessages (labels ++ [act]) = handledMessages (labels ++ [act]) ++ s'.mailbox.buffer := by
  rw [sentMessages_append, handledMessages_append, h.fifo, List.append_assoc, List.append_assoc,
    (step_mailbox hstep).1]

theorem Tally.joined_step (h : Tally totals capacity labels s) (hstep : Step totals s act s')
    (hleft : s'.orchestrator ≠ .joining) (i : ι) : s'.client i = .returned := by
  have hall : ∀ i, s.client i = .returned := by
    cases step_orchestratorMove hstep with
    | none hact horchestrator =>
        rw [horchestrator] at hleft
        exact h.joined hleft
    | join hpc hall horchestrator => exact hall
    | call hpc horchestrator => exact h.joined (by rw [hpc]; simp)
    | result value hpc horchestrator => exact h.joined (by rw [hpc]; simp)
    | stop hpc horchestrator => exact h.joined (by rw [hpc]; simp)
  rw [client_of_returned hstep hall]
  exact hall i

theorem Tally.in_flight_step (h : Tally totals capacity labels s) (hstep : Step totals s act s')
    (caller : Caller ι) : (s'.Awaiting caller → s'.inFlight caller = 1) ∧
      (¬ s'.Awaiting caller → s'.inFlight caller = 0) := by
  have hold := h.in_flight caller
  have hfresh : act = .call caller → s.inFlight caller = 0 := by
    rintro rfl
    exact hold.2 (not_awaiting_of_call hstep)
  obtain ⟨hcall, hresult, hother⟩ := step_inFlight hstep caller hfresh
  rw [step_awaiting hstep caller]
  by_cases hact : act = .call caller
  · refine ⟨fun _ => hcall hact, ?_⟩
    intro hnot
    exact absurd (Or.inl hact) hnot
  · by_cases hres : ∃ value, act = .result caller value
    · obtain ⟨value, rfl⟩ := hres
      have hawaiting : s.Awaiting caller := by
        obtain ⟨reply, hawaiting, -⟩ := hstep
        exact hawaiting
      have hone := hold.1 hawaiting
      have hless := hresult ⟨value, rfl⟩
      constructor
      · rintro (heq | ⟨-, hne⟩)
        · cases heq
        · exact absurd rfl (hne value)
      · intro _
        omega
    · have hne : ∀ value, act ≠ .result caller value := fun value heq => hres ⟨value, heq⟩
      rw [hother hact hne]
      constructor
      · rintro (heq | ⟨hawaiting, -⟩)
        · exact absurd heq hact
        · exact hold.1 hawaiting
      · intro hnot
        exact hold.2 (fun hawaiting => hnot (Or.inr ⟨hawaiting, hne⟩))

theorem Tally.asked_step (h : Tally totals capacity labels s) (hstep : Step totals s act s')
    (caller : Caller ι) :
    (sentMessages (labels ++ [act])).count (.getValue caller) = (s'.past caller).toNat := by
  rw [sentMessages_append, List.count_append, h.asked caller, step_past hstep caller]

theorem Tally.replying_step (h : Tally totals capacity labels s) (hstep : Step totals s act s')
    (caller : Caller ι) (hreplying : s'.server = .replying caller) :
    .getValue caller ∈ handledMessages (labels ++ [act]) ∧
      s'.value = sumBefore (handledMessages (labels ++ [act])) caller := by
  rcases (step_serverMove hstep).replying caller hreplying with ⟨hold, htaken⟩ | rfl
  · have hvalue := step_value hstep
    rw [htaken, Option.toList_none, show sumIncrements ([] : List (Message ι)) = 0 from rfl,
      add_zero] at hvalue
    rw [hvalue]
    exact handled_mono act (h.replying caller hold)
  · have hbuffer := (step_mailbox hstep).1
    have hasked := h.asked caller
    rw [h.fifo, List.count_append] at hasked
    simp only [Act.sent, Act.taken, Option.toList_none, Option.toList_some, List.append_nil,
      List.singleton_append] at hbuffer
    rw [hbuffer, List.count_cons_self] at hasked
    -- the message is sent once, and that one was in the mailbox
    have hnew : .getValue caller ∉ handledMessages labels := by
      intro hmem
      have hpos := List.count_pos_iff.mpr hmem
      have hle := (s.past caller).toNat_le
      omega
    rw [handledMessages_append]
    simp only [Act.taken, Option.toList_some]
    refine ⟨by simp, ?_⟩
    rw [sumBefore_append_self hnew, step_value hstep, h.value]
    simp [Act.taken, sumIncrements, Message.amount]

theorem Tally.replied_step (h : Tally totals capacity labels s) (hstep : Step totals s act s')
    (caller : Caller ι) (v : Int) (hv : v ∈ (s'.reply caller).buffer) :
    .getValue caller ∈ handledMessages (labels ++ [act]) ∧
      v = sumBefore (handledMessages (labels ++ [act])) caller := by
  rcases (step_serverMove hstep).reply caller v hv with hold | ⟨hreplying, rfl⟩
  · exact handled_mono act (h.replied caller v hold)
  · exact handled_mono act (h.replying caller hreplying)

theorem Tally.stop_sent_step (h : Tally totals capacity labels s) (hstep : Step totals s act s') :
    .stop ∈ sentMessages (labels ++ [act]) ↔ s'.orchestrator = .returned := by
  rw [sentMessages_append, List.mem_append, h.stop_sent]
  constructor
  · rintro (hdone | hnew)
    · exact (nothing_sent_after_stop hstep (h.joined (by rw [hdone]; simp)) hdone).2
    · have hact : act = .stop := by
        cases act <;> simp [Act.sent] at hnew ⊢
      subst hact
      obtain ⟨mailbox, -, -, rfl⟩ := hstep
      rfl
  · intro hdone
    cases step_orchestratorMove hstep with
    | none hact horchestrator => exact Or.inl (horchestrator.symm.trans hdone)
    | join hpc hall horchestrator => cases horchestrator.symm.trans hdone
    | call hpc horchestrator => cases horchestrator.symm.trans hdone
    | result value hpc horchestrator => cases horchestrator.symm.trans hdone
    | stop hpc horchestrator => exact Or.inr (by simp [Act.sent])

theorem Tally.stop_last_step (h : Tally totals capacity labels s) (hstep : Step totals s act s')
    (before after : List (Message ι))
    (hsplit : sentMessages (labels ++ [act]) = before ++ .stop :: after) : after = [] := by
  rw [sentMessages_append] at hsplit
  by_cases hold : .stop ∈ sentMessages labels
  · have hdone := h.stop_sent.mp hold
    rw [(nothing_sent_after_stop hstep (h.joined (by rw [hdone]; simp)) hdone).1,
      Option.toList_none, List.append_nil] at hsplit
    exact h.stop_last before after hsplit
  · cases hsent : act.sent with
    | none =>
        rw [hsent, Option.toList_none, List.append_nil] at hsplit
        exact absurd (by rw [hsplit]; simp) hold
    | some message =>
        rw [hsent, Option.toList_some] at hsplit
        rcases History.split_snoc hsplit with ⟨hnil, -, -⟩ | ⟨front, -, hfront⟩
        · exact hnil
        · exact absurd (by rw [hfront]; simp) hold

theorem Tally.final_step (h : Tally totals capacity labels s) (hstep : Step totals s act s')
    (hpast : s'.past none = true) :
    sumBefore (sentMessages (labels ++ [act])) none = ∑ i, max (totals i) 0 := by
  rw [sentMessages_append]
  have hasked := h.asked none
  by_cases hold : s.past none = true
  · rw [hold] at hasked
    have hmem : .getValue none ∈ sentMessages labels :=
      List.count_pos_iff.mp (by rw [hasked]; simp)
    rw [sumBefore_append_of_mem hmem]
    exact h.final hold
  · have hfalse : s.past none = false := by simpa using hold
    rw [hfalse] at hasked
    have hnew : .getValue none ∉ sentMessages labels := List.count_eq_zero.mp hasked
    -- the call itself: every client has returned
    have hact : act = .call none ∧ s.orchestrator ≠ .joining := by
      cases step_orchestratorMove hstep with
      | none hact horchestrator =>
          rw [State.past, horchestrator] at hpast
          exact absurd hpast hold
      | join hpc hall horchestrator => simp [State.past, horchestrator, OrchestratorPc.past] at hpast
      | call hpc horchestrator => exact ⟨rfl, by rw [hpc]; simp⟩
      | result value hpc horchestrator =>
          simp [State.past, hpc, OrchestratorPc.past] at hfalse
      | stop hpc horchestrator => simp [State.past, hpc, OrchestratorPc.past] at hfalse
    obtain ⟨rfl, hjoined⟩ := hact
    simp only [Act.sent, Option.toList_some]
    rw [sumBefore_append_self hnew, sumIncrements_sentMessages]
    apply Finset.sum_congr rfl
    intro i _
    rw [h.casts i, h.joined hjoined i, progress]

theorem Tally.step (h : Tally totals capacity labels s) (hstep : Step totals s act s') :
    Tally totals capacity (labels ++ [act]) s' where
  fifo := h.fifo_step hstep
  value := by
    rw [step_value hstep, handledMessages_append, sumIncrements_append, h.value]
  mailbox_open :=
    ⟨(step_mailbox hstep).2.1.trans h.mailbox_open.1, (step_mailbox hstep).2.2.trans h.mailbox_open.2⟩
  reply_open caller := (step_serverMove hstep).opened caller (h.reply_open caller)
  in_range i := ((step_clientMove hstep).progress i (h.in_range i)).1
  casts i := by
    rw [((step_clientMove hstep).progress i (h.in_range i)).2, castsBy_append, Nat.cast_add,
      h.casts i]
    push_cast
    rfl
  asked := h.asked_step hstep
  joined hleft := h.joined_step hstep hleft
  in_flight := h.in_flight_step hstep
  replying := h.replying_step hstep
  replied := h.replied_step hstep
  stop_sent := h.stop_sent_step hstep
  stop_last := h.stop_last_step hstep
  stopped := by
    rw [(step_serverMove hstep).stopped, handledMessages_append, List.mem_append, h.stopped]
    cases act <;> simp [Act.taken, eq_comm]
  final := h.final_step hstep

theorem run_tally (hrun : (genServer totals capacity).Run { mailbox := .make capacity } labels s) :
    Tally totals capacity labels s :=
  Run.preserves_history (fun _ _ _ _ h hstep => Tally.step h hstep)
    (tally_initial totals capacity) hrun

/-- The server finds its reply channel empty. -/
theorem Tally.reply_room (h : Tally totals capacity labels s) {caller : Caller ι}
    (hreplying : s.server = .replying caller) (v : Int) :
    ∃ reply, (s.reply caller).put v = some reply := by
  have hone : s.inFlight caller ≤ 1 := by
    by_cases hawaiting : s.Awaiting caller
    · exact ((h.in_flight caller).1 hawaiting).le
    · rw [(h.in_flight caller).2 hawaiting]
      exact Nat.zero_le 1
  rw [State.inFlight, if_pos hreplying] at hone
  obtain ⟨hopen, hcapacity⟩ := h.reply_open caller
  exact Channel.put_of_room hopen (by omega) v

/-- When the server waits at an empty mailbox, a caller that waits has its
reply. -/
theorem Tally.reply_ready (h : Tally totals capacity labels s) (hserver : s.server = .receiving)
    (hempty : s.mailbox.buffer = []) {caller : Caller ι} (hawaiting : s.Awaiting caller) :
    ∃ act s', Step totals s act s' := by
  have hone := (h.in_flight caller).1 hawaiting
  simp only [State.inFlight, hempty, hserver, List.count_nil, reduceCtorEq, if_false] at hone
  obtain ⟨v, reply, htake⟩ := Channel.take_of_ne_nil (c := s.reply caller) (by
    intro hnil
    rw [hnil] at hone
    cases hone)
  exact ⟨.result caller v, _, reply, hawaiting, htake, rfl⟩

/-- Until the server has stopped, some coroutine can go on. -/
theorem Tally.not_stuck (h : Tally totals capacity labels s) (hcapacity : 0 < capacity)
    (hrunning : s.server ≠ .stopped) : ∃ act s', Step totals s act s' := by
  cases hserver : s.server with
  | stopped => exact absurd hserver hrunning
  | replying caller =>
      obtain ⟨reply, hput⟩ := h.reply_room hserver s.value
      exact ⟨.sendReply caller, _, reply, hserver, hput, rfl⟩
  | receiving =>
      by_cases hempty : s.mailbox.buffer = []
      · have hroom : ∀ message, ∃ mailbox, s.mailbox.put message = some mailbox :=
          Channel.put_of_room h.mailbox_open.1 (by
            rw [hempty, h.mailbox_open.2]
            exact hcapacity)
        cases horchestrator : s.orchestrator with
        | joining =>
            by_cases hall : ∀ i, s.client i = .returned
            · exact ⟨.join, _, horchestrator, hall, rfl⟩
            · obtain ⟨i, hi⟩ := not_forall.mp hall
              cases hclient : s.client i with
              | first j =>
                  by_cases hlt : j < (totals i).tdiv 2
                  · obtain ⟨mailbox, hput⟩ := hroom (.increment 1)
                    exact ⟨.cast i, _, mailbox, Or.inl ⟨j, hclient, hlt⟩, hput, rfl⟩
                  · exact ⟨.firstDone i, _, j, hclient, hlt, rfl⟩
              | calling =>
                  obtain ⟨mailbox, hput⟩ := hroom (.getValue (some i))
                  exact ⟨.call (some i), _, mailbox, hclient, hput, rfl⟩
              | awaiting => exact h.reply_ready hserver hempty (show s.Awaiting (some i) from hclient)
              | second j =>
                  by_cases hlt : j < totals i
                  · obtain ⟨mailbox, hput⟩ := hroom (.increment 1)
                    exact ⟨.cast i, _, mailbox, Or.inr ⟨j, hclient, hlt⟩, hput, rfl⟩
                  · exact ⟨.secondDone i, _, j, hclient, hlt, rfl⟩
              | returned => exact absurd hclient hi
        | calling =>
            obtain ⟨mailbox, hput⟩ := hroom (.getValue none)
            exact ⟨.call none, _, mailbox, horchestrator, hput, rfl⟩
        | awaiting => exact h.reply_ready hserver hempty (show s.Awaiting none from horchestrator)
        | stopping =>
            obtain ⟨mailbox, hput⟩ := hroom .stop
            exact ⟨.stop, _, mailbox, horchestrator, hput, rfl⟩
        | returned =>
            have hsent := h.stop_sent.mpr horchestrator
            rw [h.fifo, hempty, List.append_nil] at hsent
            exact absurd (h.stopped.mpr hsent) hrunning
      · obtain ⟨message, mailbox, htake⟩ := Channel.take_of_ne_nil hempty
        exact ⟨.handle message, _, mailbox, hserver, htake, rfl⟩

/-- Nothing follows the stop message. -/
theorem Tally.drained (h : Tally totals capacity labels s) (hstopped : s.server = .stopped) :
    s.mailbox.buffer = [] := by
  obtain ⟨before, after, hsplit⟩ := List.append_of_mem (h.stopped.mp hstopped)
  have hsent := h.fifo
  rw [hsplit, List.append_assoc, List.cons_append] at hsent
  exact (List.append_eq_nil_iff.mp (h.stop_last before _ hsent)).2

theorem sumIncrements_takeWhile_le (labels : List (Act ι)) (p : Act ι → Bool) :
    sumIncrements (sentMessages (labels.takeWhile p)) ≤ sumIncrements (sentMessages labels) := by
  have hsplit : sentMessages labels =
      sentMessages (labels.takeWhile p) ++ sentMessages (labels.dropWhile p) := by
    rw [sentMessages, sentMessages, sentMessages, ← List.filterMap_append,
      List.takeWhile_append_dropWhile]
  have hrest : 0 ≤ sumIncrements (sentMessages (labels.dropWhile p)) := by
    rw [sumIncrements_sentMessages]
    exact Finset.sum_nonneg (fun _ _ => Int.natCast_nonneg _)
  rw [hsplit, sumIncrements_append]
  omega

/-- The sum that a call returns lies between what its caller had sent and what
anyone has sent. -/
theorem Tally.result_bounds (h : Tally totals capacity labels s) {caller : Caller ι}
    (hmem : .getValue caller ∈ handledMessages labels) :
    (∀ i, (castsBy (labels.takeWhile (fun label => label ≠ .call caller)) i : Int) ≤
        sumBefore (handledMessages labels) caller) ∧
      sumBefore (handledMessages labels) caller ≤ sumIncrements (sentMessages labels) := by
  have hsum := sumBefore_append_of_mem hmem s.mailbox.buffer
  rw [← h.fifo, sumBefore_sentMessages] at hsum
  rw [← hsum]
  exact ⟨fun i => castsBy_le _ i, sumIncrements_takeWhile_le _ _⟩

/-- Every call returns the sum of the increments handled before it, which has
all that its caller sent before the call and nothing that was not sent. The
last call returns the sum of the totals. The server never waits for a reply
channel, leaves nothing in the mailbox when it stops, and until then some
coroutine can go on. -/
theorem calls_return_handled_sum (hcapacity : 0 < capacity)
    (hrun : (genServer totals capacity).Run { mailbox := .make capacity } labels s) :
    (∀ before caller v after, labels = before ++ .result caller v :: after →
      .getValue caller ∈ handledMessages before ∧ v = sumBefore (handledMessages before) caller ∧
      (∀ i, caller = some i →
        (castsBy (before.takeWhile (fun label => label ≠ .call caller)) i : Int) ≤ v) ∧
      v ≤ sumIncrements (sentMessages before) ∧ (caller = none → v = ∑ i, max (totals i) 0)) ∧
    (∀ caller, s.server = .replying caller →
      ∃ reply, (s.reply caller).put s.value = some reply) ∧
    (s.server = .stopped → s.mailbox.buffer = []) ∧
    (s.server ≠ .stopped → ∃ act s', Step totals s act s') := by
  have h := run_tally hrun
  refine ⟨?_, fun caller hreplying => h.reply_room hreplying s.value, h.drained,
    h.not_stuck hcapacity⟩
  rintro before caller v after rfl
  obtain ⟨middle, hbefore, hrest⟩ := hrun.split
  obtain ⟨next, hstep, -⟩ := hrest.of_cons
  have hmiddle := run_tally hbefore
  obtain ⟨reply, hawaiting, htake, -⟩ := hstep
  have hv : v ∈ (middle.reply caller).buffer := by
    rw [(Channel.take_spec htake).1]
    exact List.mem_cons_self
  obtain ⟨hmem, hsum⟩ := hmiddle.replied caller v hv
  obtain ⟨hlower, hupper⟩ := hmiddle.result_bounds hmem
  refine ⟨hmem, hsum, fun i _ => hsum ▸ hlower i, hsum ▸ hupper, ?_⟩
  rintro rfl
  have hpast : middle.past none = true := by
    rw [State.past, show middle.orchestrator = .awaiting from hawaiting]
    rfl
  rw [hsum, ← hmiddle.final hpast, hmiddle.fifo, sumBefore_append_of_mem hmem]

end Steps

/-- The totals of two clients. -/
def twoTotals (i : Bool) : Int := if i then 2 else 1

/-- Two clients by turns behind a mailbox with two places. -/
theorem calls_return_handled_sum_two_clients : ∃ (labels : List (Act Bool)) (s : State Bool),
    (genServer twoTotals 2).Run { mailbox := .make 2 } labels s ∧
      s.server = .stopped ∧ s.mailbox.buffer = [] ∧
      (∀ i, ∃ before after v, labels = before ++ .result (some i) v :: after ∧
        (castsBy (before.takeWhile (fun label => label ≠ .call (some i))) i : Int) ≤ v) ∧
      ∃ before after v, labels = before ++ .result none v :: after ∧ v = 3 := by
  obtain ⟨labels, s, hrun, hstopped, ⟨before₀, after₀, hfirst⟩, ⟨before₁, after₁, hsecond⟩, before,
      after, v, hlabels⟩ :
      ∃ (labels : List (Act Bool)) (s : State Bool),
        (genServer twoTotals 2).Run { mailbox := .make 2 } labels s ∧ s.server = .stopped ∧
        (∃ before after, labels = before ++ .result (some false) 1 :: after) ∧
        (∃ before after, labels = before ++ .result (some true) 1 :: after) ∧
        ∃ before after v, labels = before ++ .result none v :: after := ⟨_, _,
    Run.cons (Act.cast true) ⟨_, Or.inl ⟨0, rfl, by decide⟩, rfl, rfl⟩ <|
    Run.cons (Act.firstDone false) ⟨0, rfl, by decide, rfl⟩ <|
    Run.cons (Act.call (some false)) ⟨_, rfl, rfl, rfl⟩ <|
    Run.cons (Act.handle (.increment 1)) ⟨_, rfl, rfl, rfl⟩ <|
    Run.cons (Act.firstDone true) ⟨1, rfl, by decide, rfl⟩ <|
    Run.cons (Act.call (some true)) ⟨_, rfl, rfl, rfl⟩ <|
    Run.cons (Act.handle (.getValue (some false))) ⟨_, rfl, rfl, rfl⟩ <|
    Run.cons (Act.sendReply (some false)) ⟨_, rfl, rfl, rfl⟩ <|
    Run.cons (Act.result (some false) 1) ⟨_, rfl, rfl, rfl⟩ <|
    Run.cons (Act.cast false) ⟨_, Or.inr ⟨0, rfl, by decide⟩, rfl, rfl⟩ <|
    Run.cons (Act.handle (.getValue (some true))) ⟨_, rfl, rfl, rfl⟩ <|
    Run.cons (Act.sendReply (some true)) ⟨_, rfl, rfl, rfl⟩ <|
    Run.cons (Act.result (some true) 1) ⟨_, rfl, rfl, rfl⟩ <|
    Run.cons (Act.cast true) ⟨_, Or.inr ⟨1, rfl, by decide⟩, rfl, rfl⟩ <|
    Run.cons (Act.secondDone true) ⟨2, rfl, by decide, rfl⟩ <|
    Run.cons (Act.secondDone false) ⟨1, rfl, by decide, rfl⟩ <|
    Run.cons Act.join ⟨rfl, fun i => by cases i <;> rfl, rfl⟩ <|
    Run.cons (Act.handle (.increment 1)) ⟨_, rfl, rfl, rfl⟩ <|
    Run.cons (Act.handle (.increment 1)) ⟨_, rfl, rfl, rfl⟩ <|
    Run.cons (Act.call none) ⟨_, rfl, rfl, rfl⟩ <|
    Run.cons (Act.handle (.getValue none)) ⟨_, rfl, rfl, rfl⟩ <|
    Run.cons (Act.sendReply none) ⟨_, rfl, rfl, rfl⟩ <|
    Run.cons (Act.result none 3) ⟨_, rfl, rfl, rfl⟩ <|
    Run.cons Act.stop ⟨_, rfl, rfl, rfl⟩ <|
    Run.cons (Act.handle .stop) ⟨_, rfl, rfl, rfl⟩ <|
    .nil, rfl, ⟨[_, _, _, _, _, _, _, _], _, rfl⟩, ⟨[_, _, _, _, _, _, _, _, _, _, _, _], _, rfl⟩,
      [_, _, _, _, _, _, _, _, _, _, _, _, _, _, _, _, _, _, _, _, _, _], [_, _], _, rfl⟩
  obtain ⟨hcalls, -, hdrained, -⟩ := calls_return_handled_sum (by decide) hrun
  refine ⟨labels, s, hrun, hstopped, hdrained hstopped, fun i => ?_, before, after, v, hlabels, ?_⟩
  · cases i with
    | false => exact ⟨before₀, after₀, 1, hfirst, (hcalls _ _ _ _ hfirst).2.2.1 false rfl⟩
    | true => exact ⟨before₁, after₁, 1, hsecond, (hcalls _ _ _ _ hsecond).2.2.1 true rfl⟩
  · rw [(hcalls before none v after hlabels).2.2.2.2 rfl]
    rfl

end CppWorkspace.Actors.GenServer
