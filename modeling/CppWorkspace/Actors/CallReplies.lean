import CppWorkspace.Actors.CallHistory

/-!
The invariant of the counter server: how far each client is, where the call of
each caller is, and what the mailbox and the reply channels hold.
-/

namespace CppWorkspace.Actors.GenServer

open Lib System

variable {ι : Type*}

theorem serve_frame (s : State ι) (message : Message ι) :
    (s.serve message).mailbox = s.mailbox ∧ (s.serve message).value = s.value + message.amount ∧
      (s.serve message).client = s.client ∧ (s.serve message).orchestrator = s.orchestrator ∧
      (s.serve message).reply = s.reply := by
  cases message <;> simp [State.serve, Message.amount]

variable [DecidableEq ι]

/-! What one step does to the mailbox, the counter and the clients. -/

theorem called_frame (s : State ι) (caller : Caller ι) :
    (s.called caller).mailbox = s.mailbox ∧ (s.called caller).value = s.value ∧
      (s.called caller).server = s.server ∧
      (s.called caller).reply = Function.update s.reply caller (.make 1) := by
  cases caller <;> exact ⟨rfl, rfl, rfl, rfl⟩

theorem answered_frame (s : State ι) (totals : ι → Int) (caller : Caller ι) :
    (s.answered totals caller).mailbox = s.mailbox ∧
      (s.answered totals caller).value = s.value ∧
      (s.answered totals caller).server = s.server ∧
      (s.answered totals caller).reply = s.reply := by
  cases caller <;> exact ⟨rfl, rfl, rfl, rfl⟩

theorem advanced_frame (s : State ι) (i : ι) :
    (s.advanced i).mailbox = s.mailbox ∧ (s.advanced i).value = s.value ∧
      (s.advanced i).server = s.server ∧ (s.advanced i).reply = s.reply ∧
      (s.advanced i).orchestrator = s.orchestrator := by
  unfold State.advanced
  split <;> exact ⟨rfl, rfl, rfl, rfl, rfl⟩

theorem step_mailbox {totals : ι → Int} {s s' : State ι} {act : Act ι}
    (hstep : Step totals s act s') :
    s.mailbox.buffer ++ act.sent.toList = act.taken.toList ++ s'.mailbox.buffer ∧
      s'.mailbox.closed = s.mailbox.closed ∧ s'.mailbox.capacity = s.mailbox.capacity := by
  cases act with
  | cast i =>
      obtain ⟨mailbox, -, hput, rfl⟩ := hstep
      obtain ⟨hopen, -, hbuffer, hclosed, hcapacity⟩ := Channel.put_spec hput
      rw [(advanced_frame _ i).1]
      exact ⟨hbuffer.symm, hclosed.trans hopen.symm, hcapacity⟩
  | firstDone i =>
      obtain ⟨j, -, -, rfl⟩ := hstep
      simp [Act.sent, Act.taken, State.setClient]
  | call caller =>
      obtain ⟨mailbox, -, hput, rfl⟩ := hstep
      obtain ⟨hopen, -, hbuffer, hclosed, hcapacity⟩ := Channel.put_spec hput
      rw [(called_frame _ caller).1]
      exact ⟨hbuffer.symm, hclosed.trans hopen.symm, hcapacity⟩
  | result caller value =>
      obtain ⟨reply, -, -, rfl⟩ := hstep
      rw [(answered_frame _ totals caller).1]
      simp [Act.sent, Act.taken]
  | secondDone i =>
      obtain ⟨j, -, -, rfl⟩ := hstep
      simp [Act.sent, Act.taken, State.setClient]
  | join =>
      obtain ⟨-, -, rfl⟩ := hstep
      simp [Act.sent, Act.taken]
  | handle message =>
      obtain ⟨mailbox, -, htake, rfl⟩ := hstep
      obtain ⟨hbuffer, hclosed, hcapacity⟩ := Channel.take_spec htake
      rw [(serve_frame _ message).1]
      simp [Act.sent, Act.taken, hbuffer, hclosed, hcapacity]
  | sendReply caller =>
      obtain ⟨reply, -, -, rfl⟩ := hstep
      simp [Act.sent, Act.taken]
  | stop =>
      obtain ⟨mailbox, -, hput, rfl⟩ := hstep
      obtain ⟨hopen, -, hbuffer, hclosed, hcapacity⟩ := Channel.put_spec hput
      exact ⟨hbuffer.symm, hclosed.trans hopen.symm, hcapacity⟩

theorem step_value {totals : ι → Int} {s s' : State ι} {act : Act ι}
    (hstep : Step totals s act s') : s'.value = s.value + sumIncrements act.taken.toList := by
  cases act with
  | cast i =>
      obtain ⟨mailbox, -, -, rfl⟩ := hstep
      rw [(advanced_frame _ i).2.1]
      simp [Act.taken, sumIncrements]
  | call caller =>
      obtain ⟨mailbox, -, -, rfl⟩ := hstep
      rw [(called_frame _ caller).2.1]
      simp [Act.taken, sumIncrements]
  | result caller value =>
      obtain ⟨reply, -, -, rfl⟩ := hstep
      rw [(answered_frame _ totals caller).2.1]
      simp [Act.taken, sumIncrements]
  | handle message =>
      obtain ⟨mailbox, -, -, rfl⟩ := hstep
      rw [(serve_frame _ message).2.1]
      simp [Act.taken, sumIncrements]
  | firstDone i =>
      obtain ⟨j, -, -, rfl⟩ := hstep
      simp [Act.taken, sumIncrements, State.setClient]
  | secondDone i =>
      obtain ⟨j, -, -, rfl⟩ := hstep
      simp [Act.taken, sumIncrements, State.setClient]
  | join =>
      obtain ⟨-, -, rfl⟩ := hstep
      simp [Act.taken, sumIncrements]
  | sendReply caller =>
      obtain ⟨reply, -, -, rfl⟩ := hstep
      simp [Act.taken, sumIncrements]
  | stop =>
      obtain ⟨mailbox, -, -, rfl⟩ := hstep
      simp [Act.taken, sumIncrements]

/-- The increments a client has sent when it is at this point. -/
def progress (total : Int) : ClientPc → Int
  | .first i => i
  | .calling | .awaiting => max (total.tdiv 2) 0
  | .second i => max i 0
  | .returned => max total 0

/-- The loop counters that a client can reach. -/
def InRange (total : Int) : ClientPc → Prop
  | .first i => 0 ≤ i ∧ i ≤ max (total.tdiv 2) 0
  | .second i => total.tdiv 2 ≤ i ∧ i ≤ max total 0
  | .calling | .awaiting | .returned => True

theorem half_bounds (total : Int) :
    (0 ≤ total → 0 ≤ total.tdiv 2 ∧ total.tdiv 2 ≤ total) ∧
      (total ≤ 0 → total ≤ total.tdiv 2 ∧ total.tdiv 2 ≤ 0) := by
  rw [Int.tdiv_eq_ediv]
  split
  · omega
  · next hneg =>
    have hsign : (2 : Int).sign = 1 := rfl
    rw [hsign]
    omega

@[simp] theorem setClient_self (s : State ι) (i : ι) (pc : ClientPc) :
    (s.setClient i pc).client i = pc := by
  simp [State.setClient]

/-- What a step does to the clients: nothing, or one of them goes on. -/
inductive ClientMove (totals : ι → Int) (s : State ι) : Act ι → State ι → Prop
  | none {act : Act ι} {s' : State ι}
      (hact : ∀ i, act ≠ .cast i ∧ act ≠ .call (some i) ∧ ∀ value, act ≠ .result (some i) value)
      (hclient : s'.client = s.client) : ClientMove totals s act s'
  | first {s' : State ι} (i : ι) (j : Int) (hpc : s.client i = .first j)
      (hlt : j < (totals i).tdiv 2)
      (hclient : s'.client = Function.update s.client i (.first (j + 1))) :
      ClientMove totals s (.cast i) s'
  | firstDone {s' : State ι} (i : ι) (j : Int) (hpc : s.client i = .first j)
      (hge : ¬ j < (totals i).tdiv 2)
      (hclient : s'.client = Function.update s.client i .calling) :
      ClientMove totals s (.firstDone i) s'
  | call {s' : State ι} (i : ι) (hpc : s.client i = .calling)
      (hclient : s'.client = Function.update s.client i .awaiting) :
      ClientMove totals s (.call (some i)) s'
  | result {s' : State ι} (i : ι) (value : Int) (hpc : s.client i = .awaiting)
      (hclient : s'.client = Function.update s.client i (.second ((totals i).tdiv 2))) :
      ClientMove totals s (.result (some i) value) s'
  | second {s' : State ι} (i : ι) (j : Int) (hpc : s.client i = .second j) (hlt : j < totals i)
      (hclient : s'.client = Function.update s.client i (.second (j + 1))) :
      ClientMove totals s (.cast i) s'
  | secondDone {s' : State ι} (i : ι) (j : Int) (hpc : s.client i = .second j)
      (hge : ¬ j < totals i)
      (hclient : s'.client = Function.update s.client i .returned) :
      ClientMove totals s (.secondDone i) s'

theorem step_clientMove {totals : ι → Int} {s s' : State ι} {act : Act ι}
    (hstep : Step totals s act s') : ClientMove totals s act s' := by
  cases act with
  | cast i =>
      obtain ⟨mailbox, hcasting, -, rfl⟩ := hstep
      rcases hcasting with ⟨j, hpc, hlt⟩ | ⟨j, hpc, hlt⟩
      · exact .first i j hpc hlt (by simp [State.advanced, hpc, State.setClient])
      · exact .second i j hpc hlt (by simp [State.advanced, hpc, State.setClient])
  | firstDone i =>
      obtain ⟨j, hpc, hge, rfl⟩ := hstep
      exact .firstDone i j hpc hge rfl
  | call caller =>
      obtain ⟨mailbox, hcalling, -, rfl⟩ := hstep
      cases caller with
      | none => exact .none (by simp) rfl
      | some i => exact .call i hcalling rfl
  | result caller value =>
      obtain ⟨reply, hawaiting, -, rfl⟩ := hstep
      cases caller with
      | none => exact .none (by simp) rfl
      | some i => exact .result i value hawaiting rfl
  | secondDone i =>
      obtain ⟨j, hpc, hge, rfl⟩ := hstep
      exact .secondDone i j hpc hge rfl
  | join =>
      obtain ⟨-, -, rfl⟩ := hstep
      exact .none (by simp) rfl
  | handle message =>
      obtain ⟨mailbox, -, -, rfl⟩ := hstep
      exact .none (by simp) (serve_frame _ message).2.2.1
  | sendReply caller =>
      obtain ⟨reply, -, -, rfl⟩ := hstep
      exact .none (by simp) rfl
  | stop =>
      obtain ⟨mailbox, -, -, rfl⟩ := hstep
      exact .none (by simp) rfl

/-- A step of one client leaves the others where they are. -/
theorem progress_update {totals : ι → Int} {s s' : State ι} {act : Act ι} {i k : ι}
    {pc : ClientPc} (hclient : s'.client = Function.update s.client k pc)
    (hcast : ∀ j, act = .cast j → j = k) (hrange : InRange (totals i) (s.client i))
    (hself : InRange (totals k) (s.client k) → InRange (totals k) pc ∧
      progress (totals k) pc =
        progress (totals k) (s.client k) + if act = .cast k then 1 else 0) :
    InRange (totals i) (s'.client i) ∧
      progress (totals i) (s'.client i) =
        progress (totals i) (s.client i) + if act = .cast i then 1 else 0 := by
  rw [hclient]
  by_cases heq : i = k
  · subst heq
    rw [Function.update_self]
    exact hself hrange
  · rw [Function.update_of_ne heq, if_neg fun hact => heq (hcast i hact), add_zero]
    exact ⟨hrange, rfl⟩

/-- One client in one step: its position stays in range and moves by the
increment it sends. -/
theorem ClientMove.progress {totals : ι → Int} {s s' : State ι} {act : Act ι}
    (hmove : ClientMove totals s act s') (i : ι) (hrange : InRange (totals i) (s.client i)) :
    InRange (totals i) (s'.client i) ∧
      progress (totals i) (s'.client i) =
        progress (totals i) (s.client i) + if act = .cast i then 1 else 0 := by
  cases hmove with
  | none hact hclient =>
      rw [hclient, if_neg (hact i).1, add_zero]
      exact ⟨hrange, rfl⟩
  | first k j hpc hlt hclient =>
      refine progress_update hclient (by simp [eq_comm]) hrange fun hold => ?_
      have hhalf := half_bounds (totals k)
      rw [hpc] at hold ⊢
      rw [if_pos rfl]
      simp only [InRange, GenServer.progress, and_true] at hold ⊢
      omega
  | firstDone k j hpc hge hclient =>
      refine progress_update hclient (by simp) hrange fun hold => ?_
      have hhalf := half_bounds (totals k)
      rw [hpc] at hold ⊢
      rw [if_neg (by simp), add_zero]
      simp only [InRange, GenServer.progress, true_and] at hold ⊢
      omega
  | call k hpc hclient =>
      refine progress_update hclient (by simp) hrange fun _ => ?_
      rw [hpc, if_neg (by simp), add_zero]
      exact ⟨trivial, rfl⟩
  | result k value hpc hclient =>
      refine progress_update hclient (by simp) hrange fun _ => ?_
      have hhalf := half_bounds (totals k)
      rw [hpc, if_neg (by simp), add_zero]
      simp only [InRange, GenServer.progress, and_true]
      omega
  | second k j hpc hlt hclient =>
      refine progress_update hclient (by simp [eq_comm]) hrange fun hold => ?_
      have hhalf := half_bounds (totals k)
      rw [hpc] at hold ⊢
      rw [if_pos rfl]
      simp only [InRange, GenServer.progress] at hold ⊢
      omega
  | secondDone k j hpc hge hclient =>
      refine progress_update hclient (by simp) hrange fun hold => ?_
      have hhalf := half_bounds (totals k)
      rw [hpc] at hold ⊢
      rw [if_neg (by simp), add_zero]
      simp only [InRange, GenServer.progress, true_and] at hold ⊢
      omega

/-- What a step does to the orchestrator. -/
inductive OrchestratorMove (s : State ι) : Act ι → State ι → Prop
  | none {act : Act ι} {s' : State ι}
      (hact : act ≠ .join ∧ act ≠ .call none ∧ act ≠ .stop ∧ ∀ value, act ≠ .result none value)
      (horchestrator : s'.orchestrator = s.orchestrator) : OrchestratorMove s act s'
  | join {s' : State ι} (hpc : s.orchestrator = .joining) (hall : ∀ i, s.client i = .returned)
      (horchestrator : s'.orchestrator = .calling) : OrchestratorMove s .join s'
  | call {s' : State ι} (hpc : s.orchestrator = .calling)
      (horchestrator : s'.orchestrator = .awaiting) : OrchestratorMove s (.call none) s'
  | result {s' : State ι} (value : Int) (hpc : s.orchestrator = .awaiting)
      (horchestrator : s'.orchestrator = .stopping) : OrchestratorMove s (.result none value) s'
  | stop {s' : State ι} (hpc : s.orchestrator = .stopping)
      (horchestrator : s'.orchestrator = .returned) : OrchestratorMove s .stop s'

theorem step_orchestratorMove {totals : ι → Int} {s s' : State ι} {act : Act ι}
    (hstep : Step totals s act s') : OrchestratorMove s act s' := by
  cases act with
  | cast i =>
      obtain ⟨mailbox, -, -, rfl⟩ := hstep
      exact .none (by simp) (advanced_frame _ i).2.2.2.2
  | firstDone i =>
      obtain ⟨j, -, -, rfl⟩ := hstep
      exact .none (by simp) rfl
  | call caller =>
      obtain ⟨mailbox, hcalling, -, rfl⟩ := hstep
      cases caller with
      | none => exact .call hcalling rfl
      | some i => exact .none (by simp) rfl
  | result caller value =>
      obtain ⟨reply, hawaiting, -, rfl⟩ := hstep
      cases caller with
      | none => exact .result value hawaiting rfl
      | some i => exact .none (by simp) rfl
  | secondDone i =>
      obtain ⟨j, -, -, rfl⟩ := hstep
      exact .none (by simp) rfl
  | join =>
      obtain ⟨hpc, hall, rfl⟩ := hstep
      exact .join hpc hall rfl
  | handle message =>
      obtain ⟨mailbox, -, -, rfl⟩ := hstep
      exact .none (by simp) (serve_frame _ message).2.2.2.1
  | sendReply caller =>
      obtain ⟨reply, -, -, rfl⟩ := hstep
      exact .none (by simp) rfl
  | stop =>
      obtain ⟨mailbox, hpc, -, rfl⟩ := hstep
      exact .stop hpc rfl

def ClientPc.past : ClientPc → Bool
  | .first _ | .calling => false
  | .awaiting | .second _ | .returned => true

def OrchestratorPc.past : OrchestratorPc → Bool
  | .joining | .calling => false
  | .awaiting | .stopping | .returned => true

/-- The `get_value` of this caller has entered the mailbox. -/
def State.past (s : State ι) : Caller ι → Bool
  | some i => (s.client i).past
  | none => s.orchestrator.past

/-- A caller gets past its call by sending its `get_value`. -/
theorem step_past {totals : ι → Int} {s s' : State ι} {act : Act ι}
    (hstep : Step totals s act s') (caller : Caller ι) :
    (s'.past caller).toNat =
      (s.past caller).toNat + act.sent.toList.count (.getValue caller) := by
  cases caller with
  | none =>
      simp only [State.past]
      cases step_orchestratorMove hstep with
      | none hact horchestrator =>
          rw [horchestrator]
          cases act <;> simp_all [Act.sent]
      | join hpc hall horchestrator => simp [hpc, horchestrator, OrchestratorPc.past, Act.sent]
      | call hpc horchestrator => simp [hpc, horchestrator, OrchestratorPc.past, Act.sent]
      | result value hpc horchestrator =>
          simp [hpc, horchestrator, OrchestratorPc.past, Act.sent]
      | stop hpc horchestrator => simp [hpc, horchestrator, OrchestratorPc.past, Act.sent]
  | some i =>
      simp only [State.past]
      cases step_clientMove hstep with
      | none hact hclient =>
          rw [hclient]
          have hi := (hact i).2.1
          cases act <;> simp_all [Act.sent]
      | first k j hpc hlt hclient =>
          by_cases heq : i = k <;> simp [hclient, heq, hpc, ClientPc.past, Act.sent]
      | firstDone k j hpc hge hclient =>
          by_cases heq : i = k <;> simp [hclient, heq, hpc, ClientPc.past, Act.sent]
      | call k hpc hclient =>
          by_cases heq : i = k
          · simp [hclient, heq, hpc, ClientPc.past, Act.sent]
          · simp [hclient, heq, Act.sent, Ne.symm heq]
      | result k value hpc hclient =>
          by_cases heq : i = k <;> simp [hclient, heq, hpc, ClientPc.past, Act.sent]
      | second k j hpc hlt hclient =>
          by_cases heq : i = k <;> simp [hclient, heq, hpc, ClientPc.past, Act.sent]
      | secondDone k j hpc hge hclient =>
          by_cases heq : i = k <;> simp [hclient, heq, hpc, ClientPc.past, Act.sent]

instance (s : State ι) (caller : Caller ι) : Decidable (s.Awaiting caller) :=
  match caller with
  | some i => inferInstanceAs (Decidable (s.client i = .awaiting))
  | none => inferInstanceAs (Decidable (s.orchestrator = .awaiting))

/-- Where the call of this caller is: in the mailbox, with the server, or
answered in the reply channel. -/
def State.inFlight (s : State ι) (caller : Caller ι) : Nat :=
  s.mailbox.buffer.count (.getValue caller) + (if s.server = .replying caller then 1 else 0) +
    (s.reply caller).buffer.length

/-- A caller waits from the step that sends its `get_value` to the one that
receives the reply. -/
theorem step_awaiting {totals : ι → Int} {s s' : State ι} {act : Act ι}
    (hstep : Step totals s act s') (caller : Caller ι) :
    s'.Awaiting caller ↔
      act = .call caller ∨ (s.Awaiting caller ∧ ∀ value, act ≠ .result caller value) := by
  cases caller with
  | none =>
      simp only [State.Awaiting]
      cases step_orchestratorMove hstep with
      | none hact horchestrator =>
          rw [horchestrator]
          simp [hact.2.1, hact.2.2.2]
      | join hpc hall horchestrator => simp [hpc, horchestrator]
      | call hpc horchestrator => simp [horchestrator]
      | result value hpc horchestrator => simp [horchestrator]
      | stop hpc horchestrator => simp [hpc, horchestrator]
  | some i =>
      simp only [State.Awaiting]
      cases step_clientMove hstep with
      | none hact hclient =>
          rw [hclient]
          simp [(hact i).2.1, (hact i).2.2]
      | first k j hpc hlt hclient =>
          by_cases heq : i = k <;> simp [hclient, heq, hpc]
      | firstDone k j hpc hge hclient =>
          by_cases heq : i = k <;> simp [hclient, heq, hpc]
      | call k hpc hclient =>
          by_cases heq : i = k
          · simp [hclient, heq]
          · simp [hclient, heq, Ne.symm heq]
      | result k value hpc hclient =>
          by_cases heq : i = k
          · simp [hclient, heq]
          · simp [hclient, heq, Ne.symm heq]
      | second k j hpc hlt hclient =>
          by_cases heq : i = k <;> simp [hclient, heq, hpc]
      | secondDone k j hpc hge hclient =>
          by_cases heq : i = k <;> simp [hclient, heq, hpc]

/-- The call of a caller moves from place to place; only its own send adds it
and only its own receive takes it away. -/
theorem step_inFlight {totals : ι → Int} {s s' : State ι} {act : Act ι}
    (hstep : Step totals s act s') (caller : Caller ι)
    (hfresh : act = .call caller → s.inFlight caller = 0) :
    (act = .call caller → s'.inFlight caller = 1) ∧
      ((∃ value, act = .result caller value) → s'.inFlight caller + 1 = s.inFlight caller) ∧
      (act ≠ .call caller → (∀ value, act ≠ .result caller value) →
        s'.inFlight caller = s.inFlight caller) := by
  cases act with
  | cast i =>
      obtain ⟨mailbox, -, hput, rfl⟩ := hstep
      obtain ⟨-, -, hbuffer, -⟩ := Channel.put_spec hput
      obtain ⟨hmailbox, -, hserver, hreply, -⟩ := advanced_frame { s with mailbox := mailbox } i
      refine ⟨by simp, by simp, fun _ _ => ?_⟩
      simp [State.inFlight, hmailbox, hserver, hreply, hbuffer]
  | firstDone i =>
      obtain ⟨j, -, -, rfl⟩ := hstep
      exact ⟨by simp, by simp, fun _ _ => rfl⟩
  | call other =>
      obtain ⟨mailbox, -, hput, rfl⟩ := hstep
      obtain ⟨-, -, hbuffer, -⟩ := Channel.put_spec hput
      obtain ⟨hmailbox, -, hserver, hreply⟩ := called_frame { s with mailbox := mailbox } other
      refine ⟨?_, by simp, ?_⟩
      · rintro ⟨⟩
        have hzero := hfresh rfl
        simp only [State.inFlight, hmailbox, hserver, hreply, hbuffer, Function.update_self,
          List.count_append, List.count_singleton_self, Channel.make_buffer, List.length_nil]
          at hzero ⊢
        omega
      · intro hne _
        have hother : caller ≠ other := by
          rintro rfl
          exact hne rfl
        simp [State.inFlight, hmailbox, hserver, hreply, hbuffer, Function.update_of_ne hother,
          Ne.symm hother]
  | result other value =>
      obtain ⟨reply, -, htake, rfl⟩ := hstep
      obtain ⟨hbuffer, -⟩ := Channel.take_spec htake
      obtain ⟨hmailbox, -, hserver, hreply⟩ := answered_frame
        { s with reply := Function.update s.reply other reply } totals other
      refine ⟨by simp, ?_, ?_⟩
      · rintro ⟨_, ⟨⟩⟩
        simp only [State.inFlight, hmailbox, hserver, hreply, Function.update_self, hbuffer,
          List.length_cons]
        omega
      · intro _ hne
        have hother : caller ≠ other := by
          rintro rfl
          exact hne value rfl
        simp [State.inFlight, hmailbox, hserver, hreply, Function.update_of_ne hother]
  | secondDone i =>
      obtain ⟨j, -, -, rfl⟩ := hstep
      exact ⟨by simp, by simp, fun _ _ => rfl⟩
  | join =>
      obtain ⟨-, -, rfl⟩ := hstep
      exact ⟨by simp, by simp, fun _ _ => rfl⟩
  | handle message =>
      obtain ⟨mailbox, hserver, htake, rfl⟩ := hstep
      obtain ⟨hbuffer, -⟩ := Channel.take_spec htake
      refine ⟨by simp, by simp, fun _ _ => ?_⟩
      cases message with
      | increment amount => simp [State.inFlight, State.serve, hbuffer, hserver]
      | stop => simp [State.inFlight, State.serve, hbuffer, hserver]
      | getValue other =>
          by_cases heq : caller = other
          · simp only [State.inFlight, State.serve, hbuffer, hserver, heq, List.count_cons_self,
              if_true, reduceCtorEq, if_false]
          · simp [State.inFlight, State.serve, hbuffer, hserver, Ne.symm heq]
  | sendReply other =>
      obtain ⟨reply, hserver, hput, rfl⟩ := hstep
      obtain ⟨-, -, hbuffer, -⟩ := Channel.put_spec hput
      refine ⟨by simp, by simp, fun _ _ => ?_⟩
      by_cases heq : caller = other
      · simp [State.inFlight, heq, hserver, hbuffer]
        omega
      · simp [State.inFlight, hserver, Function.update_of_ne heq, Ne.symm heq]
  | stop =>
      obtain ⟨mailbox, -, hput, rfl⟩ := hstep
      obtain ⟨-, -, hbuffer, -⟩ := Channel.put_spec hput
      refine ⟨by simp, by simp, fun _ _ => ?_⟩
      simp [State.inFlight, hbuffer]

end CppWorkspace.Actors.GenServer
