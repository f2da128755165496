import CppWorkspace.Csp.MpscRuns

/-!
What the consumer gets. The messages of a producer that the channel has taken in are
those that it has sent, in order; the channel keeps them in order, so that the
consumer has got the first ones of them, and all when it exits.
-/

namespace CppWorkspace.Csp.CspMpsc

open Lib System

theorem messages_succ (id : ProducerId) (n : ℕ) :
    messages id (n + 1) = messages id n ++ [⟨id, n + 1⟩] := by
  rw [messages, List.range'_1_concat, List.map_append, Nat.add_comm 1 n]
  rfl

theorem ProducerPc.sent_le {perProducer : ℕ} {pc : ProducerPc} (h : pc.Within perProducer) :
    pc.sent perProducer ≤ perProducer := by
  cases pc with
  | looping seq =>
      have hle := h.2
      simp only [sent]
      omega
  | timing seq =>
      have hle := h.2
      simp only [sent]
      omega
  | sending seq =>
      have hle := h.2
      simp only [sent]
      omega
  | suspended seq => exact h.2
  | returned => exact le_rfl
  | threw => exact Nat.zero_le _

theorem messages_isPrefix {id : ProducerId} {n k : ℕ} (h : n ≤ k) :
    messages id n <+: messages id k := by
  induction h with
  | refl => exact List.prefix_refl _
  | step _ ih =>
      rw [messages_succ]
      exact ih.trans (List.prefix_append _ _)

theorem ofProducer_append (id : ProducerId) (first second : List Message) :
    ofProducer id (first ++ second) = ofProducer id first ++ ofProducer id second :=
  List.filter_append ..

/-- What the channel has taken in of a producer is what the producer has sent. -/
structure Accounts (producers : Finset ProducerId) (perProducer : ℕ) (s : State) : Prop where
  sent : ∀ id ∈ producers,
    ofProducer id s.taken = messages id ((s.producer id).sent perProducer)
  known : ∀ msg ∈ s.taken, msg.producerId ∈ producers

section Steps

variable {producers : Finset ProducerId} {perProducer : ℕ} {s s' : State}

theorem accounts_started (producers : Finset ProducerId) (perProducer capacity : ℕ) :
    Accounts producers perProducer (started producers capacity) where
  sent id hid := by
    have hpc : (started producers capacity).producer id = .looping 1 := if_pos hid
    rw [hpc]
    rfl
  known msg hmsg := by cases hmsg

/-- A step in which nothing is sent. -/
theorem Accounts.same (h : Accounts producers perProducer s) (htaken : s'.taken = s.taken)
    (hsent : ∀ id, (s'.producer id).sent perProducer = (s.producer id).sent perProducer) :
    Accounts producers perProducer s' where
  sent id hid := by
    rw [htaken, hsent]
    exact h.sent id hid
  known msg hmsg := h.known msg (htaken ▸ hmsg)

/-- A producer that is not at a send goes on. -/
theorem Accounts.setProducer (h : Accounts producers perProducer s) {id : ProducerId}
    {pc : ProducerPc} (hsent : pc.sent perProducer = (s.producer id).sent perProducer) :
    Accounts producers perProducer (s.setProducer id pc) := by
  refine h.same rfl fun other => ?_
  by_cases heq : other = id
  · rw [heq, State.setProducer_self, hsent]
  · rw [State.setProducer_other heq]

/-- A send: the channel takes in the message that the producer counts. -/
theorem Accounts.sends (h : Accounts producers perProducer s) {id : ProducerId} {seq : ℕ}
    (hid : id ∈ producers) (hfirst : 1 ≤ seq) (hpc : s.producer id = .sending seq)
    {pc : ProducerPc} (hsent : pc.sent perProducer = seq)
    {channel : AsyncChannel ProducerId Message}
    (hcontents : channel.contents = s.channel.contents ++ [⟨id, seq⟩]) :
    Accounts producers perProducer ({ s with channel }.setProducer id pc) := by
  have htaken : ({ s with channel }.setProducer id pc).taken = s.taken ++ [⟨id, seq⟩] := by
    show s.received ++ channel.contents = _
    rw [hcontents, ← List.append_assoc]
    rfl
  constructor
  · intro other hmem
    rw [htaken, ofProducer_append, h.sent other hmem]
    by_cases heq : other = id
    · obtain ⟨n, rfl⟩ := Nat.exists_eq_add_of_le' hfirst
      rw [heq, hpc, State.setProducer_self, hsent, messages_succ, ProducerPc.sent,
        Nat.add_sub_cancel]
      simp [ofProducer]
    · have hnone : ofProducer other [⟨id, seq⟩] = [] := by
        simp [ofProducer, Ne.symm heq]
      rw [hnone, List.append_nil, State.setProducer_other heq]
  · intro msg hmsg
    rw [htaken] at hmsg
    rcases List.mem_append.mp hmsg with hold | hnew
    · exact h.known msg hold
    · cases List.mem_singleton.mp hnew
      exact hid

/-- A value that the consumer takes was the oldest in the channel. -/
theorem taken_of_receive {msg : Message} {served : Option ProducerId}
    {channel : AsyncChannel ProducerId Message}
    (hreceive : s.channel.receive = some (msg, served, channel)) :
    s.received ++ [msg] ++ channel.contents = s.taken := by
  rw [State.taken, (AsyncChannel.receive_contents hreceive).1, List.append_assoc]
  rfl

theorem Accounts.step (h : Accounts producers perProducer s)
    (hcontrol : Control producers perProducer s) (hmoves : Moves producers perProducer s s') :
    Accounts producers perProducer s' := by
  cases hmoves with
  | loops hpc _ => exact h.setProducer (by rw [hpc]; rfl)
  | @finishes id seq hpc hlt =>
      have hbound := hcontrol.within_at hpc (by simp)
      have hlast : seq - 1 = perProducer := by
        have := hbound.2
        omega
      exact h.setProducer (by rw [hpc]; exact hlast.symm)
  | fires hpc => exact h.setProducer (by rw [hpc]; rfl)
  | @buffers id seq channel hpc hsend =>
      have hid := (hcontrol.active_at hpc (by simp)).1
      have hbound := hcontrol.within_at hpc (by simp)
      exact h.sends hid hbound.1 hpc rfl (AsyncChannel.send_done hsend).1
  | @suspends id seq channel hpc hsend =>
      have hid := (hcontrol.active_at hpc (by simp)).1
      have hbound := hcontrol.within_at hpc (by simp)
      exact h.sends hid hbound.1 hpc rfl (AsyncChannel.send_suspended hsend).1
  | @fails id seq hpc hclosed =>
      have hopen := (hcontrol.active_at hpc (by simp)).2
      cases hclosed.symm.trans hopen
  | closes _ _ => exact h.same rfl fun _ => rfl
  | joinFails _ => exact h.same rfl fun _ => rfl
  | receives _ hreceive => exact h.same (taken_of_receive hreceive) fun _ => rfl
  | @serves msg id channel _ hreceive =>
      have hafter : Accounts producers perProducer
          { s with channel, received := s.received ++ [msg] } :=
        h.same (taken_of_receive hreceive) fun _ => rfl
      unfold State.completed
      split
      · next seq hpc => exact hafter.setProducer (by rw [hpc]; rfl)
      · exact hafter
  | exits _ _ _ => exact h.same rfl fun _ => rfl

end Steps

section Progress

variable {producers : Finset ProducerId} {perProducer : ℕ} {s : State}

/-- Some coroutine can take a step. -/
def CanStep (producers : Finset ProducerId) (perProducer : ℕ) (s : State) : Prop :=
  ∃ act s', s.step producers perProducer act = some s'

/-- A producer that has not returned goes on, unless its send is suspended. -/
theorem Control.producer_steps (h : Control producers perProducer s) {id : ProducerId}
    (hid : id ∈ producers) (hpc : s.producer id ≠ .returned)
    (hsuspended : ∀ seq, s.producer id ≠ .suspended seq) : CanStep producers perProducer s := by
  cases hat : s.producer id with
  | looping seq =>
      refine ⟨.next id, ?_⟩
      by_cases hle : seq ≤ perProducer
      · exact ⟨s.setProducer id (.timing seq), by simp only [State.step, hat, if_pos hle]⟩
      · exact ⟨s.setProducer id .returned, by simp only [State.step, hat, if_neg hle]⟩
  | timing seq =>
      exact ⟨.timerFires id, s.setProducer id (.sending seq), by simp only [State.step, hat]⟩
  | sending seq =>
      refine ⟨.send id, ?_⟩
      cases hsend : s.channel.send id ⟨id, seq⟩ with
      | done channel => exact ⟨_, by simp only [State.step, hat, hsend]; rfl⟩
      | suspended channel => exact ⟨_, by simp only [State.step, hat, hsend]; rfl⟩
      | refused => exact ⟨_, by simp only [State.step, hat, hsend]; rfl⟩
  | suspended seq => exact absurd hat (hsuspended seq)
  | returned => exact absurd hat hpc
  | threw =>
      have hwithin := h.within id hid
      rw [hat] at hwithin
      exact hwithin.elim

/-- The consumer goes on when there is a value for it. -/
theorem receive_steps (hreceiving : s.consumer = .receiving) (hcontents : s.channel.contents ≠ []) :
    CanStep producers perProducer s := by
  have hsome : s.channel.receive ≠ none := fun hnone =>
    hcontents (AsyncChannel.receive_eq_none.mp hnone)
  obtain ⟨⟨msg, served, channel⟩, hreceive⟩ := Option.ne_none_iff_exists'.mp hsome
  refine ⟨.receive, ?_⟩
  cases served with
  | none => exact ⟨_, by simp only [State.step, hreceiving, hreceive]; rfl⟩
  | some id => exact ⟨_, by simp only [State.step, hreceiving, hreceive]; rfl⟩

theorem Control.finished (h : Control producers perProducer s)
    (hconsumer : s.consumer = .returned) : s.Finished producers :=
  have hclosed := (h.exited hconsumer).1
  ⟨h.joined hclosed, h.closer.mpr hclosed, hconsumer⟩

theorem Control.can_step (h : Control producers perProducer s)
    (hunfinished : ¬ s.Finished producers) : CanStep producers perProducer s := by
  cases hconsumer : s.consumer with
  | returned => exact absurd (h.finished hconsumer) hunfinished
  | receiving =>
      by_cases hcontents : s.channel.contents = []
      · -- with an empty channel no send is suspended
        by_cases hall : ∀ id ∈ producers, s.producer id = .returned
        · cases hcloser : s.closer with
          | joining => exact ⟨.close, _, if_pos ⟨hcloser, hall⟩⟩
          | returned =>
              have hnone := AsyncChannel.receive_eq_none.mpr hcontents
              refine ⟨.exit, _, if_pos ⟨hconsumer, ?_, h.closer.mp hcloser⟩⟩
              rw [hnone]
              rfl
          | threw => exact absurd hcloser h.unfailed
        · push Not at hall
          obtain ⟨id, hid, hpc⟩ := hall
          refine h.producer_steps hid hpc fun seq hsuspended => ?_
          obtain ⟨msg, hmem⟩ := h.waits id seq hsuspended
          have hin : msg ∈ s.channel.contents :=
            List.mem_append_right _ (List.mem_map.mpr ⟨_, hmem, rfl⟩)
          rw [hcontents] at hin
          cases hin
      · exact receive_steps hconsumer hcontents

end Progress

/-- Steps that are left of a producer, and of the consumer for what it has still to
send. -/
def ProducerPc.work (perProducer : ℕ) : ProducerPc → ℕ
  | looping seq => 4 * (perProducer + 1 - seq) + 1
  | timing seq => 4 * (perProducer - seq) + 4
  | sending seq => 4 * (perProducer - seq) + 3
  | suspended seq => 4 * (perProducer - seq) + 1
  | returned | threw => 0

def CloserPc.work : CloserPc → ℕ
  | joining => 1
  | returned | threw => 0

def ConsumerPc.work : ConsumerPc → ℕ
  | receiving => 1
  | returned => 0

def State.work (producers : Finset ProducerId) (perProducer : ℕ) (s : State) : ℕ :=
  ∑ id ∈ producers, (s.producer id).work perProducer + s.channel.contents.length +
    s.closer.work + s.consumer.work

section Work

variable {producers : Finset ProducerId} {perProducer : ℕ} {s s' : State}

theorem work_started (producers : Finset ProducerId) (perProducer capacity : ℕ) :
    (started producers capacity).work producers perProducer =
      producers.card * (4 * perProducer + 1) + 2 := by
  have hsum : ∑ id ∈ producers, ((started producers capacity).producer id).work perProducer =
      ∑ _id ∈ producers, (4 * perProducer + 1) := by
    refine Finset.sum_congr rfl fun id hid => ?_
    have hpc : (started producers capacity).producer id = .looping 1 := if_pos hid
    rw [hpc]
    rfl
  rw [State.work, hsum, Finset.sum_const, smul_eq_mul]
  rfl

/-- The work of the producers after a step of one of them. -/
theorem work_setProducer {id : ProducerId} (hid : id ∈ producers) (pc : ProducerPc) :
    ∑ other ∈ producers, ((s.setProducer id pc).producer other).work perProducer +
        (s.producer id).work perProducer =
      ∑ other ∈ producers, (s.producer other).work perProducer + pc.work perProducer := by
  have hrest : ∑ other ∈ producers.erase id,
        ((s.setProducer id pc).producer other).work perProducer =
      ∑ other ∈ producers.erase id, (s.producer other).work perProducer := by
    refine Finset.sum_congr rfl fun other hmem => ?_
    rw [State.setProducer_other (Finset.ne_of_mem_erase hmem)]
  rw [← Finset.add_sum_erase _ _ hid, hrest, State.setProducer_self,
    ← Finset.add_sum_erase producers (fun other => (s.producer other).work perProducer) hid]
  omega

/-- A step of a producer does work when the producer and the channel together have less
left. -/
theorem work_setProducer_lt {id : ProducerId} (hid : id ∈ producers) {pc : ProducerPc}
    {channel : AsyncChannel ProducerId Message}
    (hless : pc.work perProducer + channel.contents.length <
      (s.producer id).work perProducer + s.channel.contents.length) :
    ({ s with channel }.setProducer id pc).work producers perProducer <
      s.work producers perProducer := by
  have hsum : ∑ other ∈ producers, (({ s with channel }.setProducer id pc).producer other).work
        perProducer + (({ s with channel } : State).producer id).work perProducer =
      ∑ other ∈ producers, (({ s with channel } : State).producer other).work perProducer +
        pc.work perProducer := work_setProducer hid pc
  have hcontents : ({ s with channel }.setProducer id pc).channel.contents = channel.contents := rfl
  have hcloser : ({ s with channel }.setProducer id pc).closer = s.closer := rfl
  have hconsumer : ({ s with channel }.setProducer id pc).consumer = s.consumer := rfl
  have hbefore : { s with channel }.producer = s.producer := rfl
  rw [hbefore] at hsum
  rw [State.work, State.work, hcontents, hcloser, hconsumer]
  omega

theorem Control.work_pc_lt (h : Control producers perProducer s) {id : ProducerId}
    {pc pc' : ProducerPc} (hpc : s.producer id = pc) (hne : pc ≠ .returned)
    {channel : AsyncChannel ProducerId Message}
    (hless : pc'.work perProducer + channel.contents.length <
      pc.work perProducer + s.channel.contents.length) :
    ({ s with channel }.setProducer id pc').work producers perProducer <
      s.work producers perProducer := by
  subst hpc
  exact work_setProducer_lt (h.active_at rfl hne).1 hless

/-- The same for a step that leaves the channel alone. -/
theorem Control.work_setPc_lt (h : Control producers perProducer s) {id : ProducerId}
    {pc pc' : ProducerPc} (hpc : s.producer id = pc) (hne : pc ≠ .returned)
    (hless : pc'.work perProducer < pc.work perProducer) :
    (s.setProducer id pc').work producers perProducer < s.work producers perProducer := by
  have hlt : ({ s with channel := s.channel }.setProducer id pc').work producers perProducer <
      s.work producers perProducer := h.work_pc_lt hpc hne (Nat.add_lt_add_right hless _)
  exact hlt

/-- Every step does some of the work. -/
theorem Control.work_lt (h : Control producers perProducer s)
    (hmoves : Moves producers perProducer s s') :
    s'.work producers perProducer < s.work producers perProducer := by
  cases hmoves with
  | loops hpc hle =>
      refine h.work_setPc_lt hpc (by simp) ?_
      rw [ProducerPc.work, ProducerPc.work]
      omega
  | finishes hpc hlt =>
      refine h.work_setPc_lt hpc (by simp) ?_
      rw [ProducerPc.work, ProducerPc.work]
      omega
  | fires hpc =>
      refine h.work_setPc_lt hpc (by simp) ?_
      rw [ProducerPc.work, ProducerPc.work]
      omega
  | buffers hpc hsend =>
      have hle := (h.within_at hpc (by simp)).2
      refine h.work_pc_lt hpc (by simp) ?_
      rw [(AsyncChannel.send_done hsend).1, List.length_append, List.length_singleton,
        ProducerPc.work, ProducerPc.work]
      omega
  | suspends hpc hsend =>
      refine h.work_pc_lt hpc (by simp) ?_
      rw [(AsyncChannel.send_suspended hsend).1, List.length_append, List.length_singleton,
        ProducerPc.work, ProducerPc.work]
      omega
  | @fails id seq hpc hclosed =>
      have hopen := (h.active_at hpc (by simp)).2
      cases hclosed.symm.trans hopen
  | closes hjoining _ =>
      simp only [State.work, hjoining, CloserPc.work, AsyncChannel.close_contents]
      omega
  | joinFails hthrew =>
      obtain ⟨id, hid, hpc⟩ := hthrew
      have hwithin := h.within id hid
      rw [hpc] at hwithin
      exact hwithin.elim
  | receives _ hreceive =>
      have hlength := congrArg List.length (AsyncChannel.receive_contents hreceive).1
      rw [List.length_cons] at hlength
      simp only [State.work]
      omega
  | @serves msg id channel hreceiving hreceive =>
      obtain ⟨hnone, -⟩ | ⟨sender, sent, hsender, hsuspended⟩ :=
        AsyncChannel.receive_served hreceive
      · cases hnone
      cases hsender
      have hpc : s.producer id = .suspended sent.seq :=
        h.suspended id sent (hsuspended ▸ List.mem_cons_self)
      have hlength := congrArg List.length (AsyncChannel.receive_contents hreceive).1
      rw [List.length_cons] at hlength
      have hless : (ProducerPc.looping (sent.seq + 1)).work perProducer + channel.contents.length <
          (ProducerPc.suspended sent.seq).work perProducer + s.channel.contents.length := by
        rw [ProducerPc.work, ProducerPc.work]
        omega
      have hlt := h.work_pc_lt hpc (by simp) hless
      rw [State.completed_of_suspended (s := { s with channel, received := s.received ++ [msg] })
        hpc]
      exact hlt
  | exits hreceiving _ _ =>
      simp only [State.work, hreceiving, ConsumerPc.work]
      omega

end Work

/-- For any producers, any number of messages and any capacity, whatever the order of
the steps: the consumer gets the messages of each producer in their order and nothing
else, no producer throws and none finds the channel closed. When the consumer has
returned it has got all messages. Some coroutine can go on until all have returned,
which they have after a bounded number of steps. -/
theorem join_then_close_keeps_fifo {producers : Finset ProducerId} {perProducer capacity : ℕ}
    {acts : List Act} {s : State}
    (hrun : (mpscSystem producers perProducer capacity).Run (started producers capacity) acts s) :
    (∀ id ∈ producers, ofProducer id s.received <+: messages id perProducer) ∧
      (∀ msg ∈ s.received, msg.producerId ∈ producers) ∧
      (∀ id, s.producer id ≠ .threw) ∧
      (∀ id, s.producer id ≠ .returned → s.channel.closed = false) ∧
      (s.consumer = .returned → s.Finished producers ∧ s.channel.contents = [] ∧
        ∀ id ∈ producers, ofProducer id s.received = messages id perProducer) ∧
      (¬ s.Finished producers → ∃ act s', s.step producers perProducer act = some s') ∧
      acts.length ≤ producers.card * (4 * perProducer + 1) + 2 := by
  obtain ⟨hcontrol, haccounts⟩ : Control producers perProducer s ∧
      Accounts producers perProducer s := by
    refine hrun.preserves (I := fun s => Control producers perProducer s ∧
      Accounts producers perProducer s) ?_ ⟨control_started .., accounts_started ..⟩
    rintro s act s' ⟨hcontrol, haccounts⟩ hstep
    have hmoves := step_moves hstep
    exact ⟨hcontrol.step hmoves, haccounts.step hcontrol hmoves⟩
  have hgot : ∀ id ∈ producers, ofProducer id s.received ++ ofProducer id s.channel.contents =
      messages id ((s.producer id).sent perProducer) := by
    intro id hid
    rw [← ofProducer_append]
    exact haccounts.sent id hid
  refine ⟨?_, ?_, ?_, ?_, ?_, hcontrol.can_step, ?_⟩
  · intro id hid
    have hsent := ProducerPc.sent_le (hcontrol.within id hid)
    exact (List.prefix_append _ _).trans ((hgot id hid) ▸ messages_isPrefix hsent)
  · exact fun msg hmsg => haccounts.known msg (List.mem_append_left _ hmsg)
  · intro id hthrew
    have hwithin := hcontrol.within id (hcontrol.active (by rw [hthrew]; simp)).1
    rw [hthrew] at hwithin
    exact hwithin
  · exact fun id hpc => (hcontrol.active hpc).2
  · intro hconsumer
    have hfinished := hcontrol.finished hconsumer
    have hempty := (hcontrol.exited hconsumer).2
    refine ⟨hfinished, hempty, fun id hid => ?_⟩
    have hall := hgot id hid
    rw [hempty, hfinished.1 id hid] at hall
    exact (List.append_nil _).symm.trans hall
  · have hstep : ∀ s act s', Control producers perProducer s →
        s.step producers perProducer act = some s' →
        Control producers perProducer s' ∧
          s'.work producers perProducer < s.work producers perProducer := by
      intro s act s' hs hstep
      have hmoves := step_moves hstep
      exact ⟨hs.step hmoves, hs.work_lt hmoves⟩
    have hsteps := hrun.length_le hstep (control_started ..)
    rw [work_started] at hsteps
    omega

/-- Two producers with two messages each, and no room in the channel. -/
def twoSuspendedSends : List Act :=
  [.next 1, .next 2, .timerFires 2, .timerFires 1, .send 2, .send 1, .receive, .next 2,
    .timerFires 2, .send 2, .receive, .next 1, .receive, .timerFires 1, .next 2, .send 1,
    .receive, .next 1, .close, .exit]

theorem join_then_close_two_producers : ∃ s,
    (mpscSystem {1, 2} 2 0).Run (started {1, 2} 0) twoSuspendedSends s ∧
      s.received = [⟨2, 1⟩, ⟨1, 1⟩, ⟨2, 2⟩, ⟨1, 2⟩] ∧ s.Finished {1, 2} ∧
      s.channel.contents = [] ∧
      ∀ id ∈ ({1, 2} : Finset ProducerId), ofProducer id s.received = messages id 2 := by
  have hend : (twoSuspendedSends.foldlM (State.step {1, 2} 2) (started {1, 2} 0)).map
      (fun s => (decide (s.consumer = .returned), s.received)) =
        some (true, [⟨2, 1⟩, ⟨1, 1⟩, ⟨2, 2⟩, ⟨1, 2⟩]) := by decide
  obtain ⟨s, hexec, hs⟩ := Option.map_eq_some_iff.mp hend
  obtain ⟨hreturned, hreceived⟩ := Prod.mk.inj hs
  have hrun := Run.of_foldlM (S := mpscSystem {1, 2} 2 0) (fun _ _ _ h => h) hexec
  obtain ⟨-, -, -, -, hall, -, -⟩ := join_then_close_keeps_fifo hrun
  exact ⟨s, hrun, hreceived, hall (of_decide_eq_true hreturned)⟩

end CppWorkspace.Csp.CspMpsc
