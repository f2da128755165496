import CppWorkspace.Csp.Mpsc

/-!
The runs of the producers and the consumer. What a producer has sent is what the
consumer has got of it together with what of it is in the channel, suspended sends
included; and the channel is closed only after the last send.
-/

namespace CppWorkspace.Csp.CspMpsc

open Lib System

/-- How many messages of the producer the channel has taken in. -/
def ProducerPc.sent (perProducer : ℕ) : ProducerPc → ℕ
  | looping seq | timing seq | sending seq => seq - 1
  | suspended seq => seq
  | returned => perProducer
  | threw => 0

/-- The loop counter is in range, and no send has failed. -/
def ProducerPc.Within (perProducer : ℕ) : ProducerPc → Prop
  | looping seq => 1 ≤ seq ∧ seq ≤ perProducer + 1
  | timing seq | sending seq | suspended seq => 1 ≤ seq ∧ seq ≤ perProducer
  | returned => True
  | threw => False

/-- What the steps are, one case for each. -/
inductive Moves (producers : Finset ProducerId) (perProducer : ℕ) (s : State) : State → Prop
  | loops {id seq} (hpc : s.producer id = .looping seq) (hle : seq ≤ perProducer) :
      Moves producers perProducer s (s.setProducer id (.timing seq))
  | finishes {id seq} (hpc : s.producer id = .looping seq) (hlt : perProducer < seq) :
      Moves producers perProducer s (s.setProducer id .returned)
  | fires {id seq} (hpc : s.producer id = .timing seq) :
      Moves producers perProducer s (s.setProducer id (.sending seq))
  | buffers {id seq channel} (hpc : s.producer id = .sending seq)
      (hsend : s.channel.send id ⟨id, seq⟩ = .done channel) :
      Moves producers perProducer s ({ s with channel }.setProducer id (.looping (seq + 1)))
  | suspends {id seq channel} (hpc : s.producer id = .sending seq)
      (hsend : s.channel.send id ⟨id, seq⟩ = .suspended channel) :
      Moves producers perProducer s ({ s with channel }.setProducer id (.suspended seq))
  | fails {id seq} (hpc : s.producer id = .sending seq) (hclosed : s.channel.closed = true) :
      Moves producers perProducer s (s.setProducer id .threw)
  | closes (hjoining : s.closer = .joining) (hall : ∀ id ∈ producers, s.producer id = .returned) :
      Moves producers perProducer s
        { s with channel := s.channel.close, closer := .returned }
  | joinFails (hthrew : ∃ id ∈ producers, s.producer id = .threw) :
      Moves producers perProducer s { s with closer := .threw }
  | receives {msg channel} (hreceiving : s.consumer = .receiving)
      (hreceive : s.channel.receive = some (msg, none, channel)) :
      Moves producers perProducer s { s with channel, received := s.received ++ [msg] }
  | serves {msg id channel} (hreceiving : s.consumer = .receiving)
      (hreceive : s.channel.receive = some (msg, some id, channel)) :
      Moves producers perProducer s
        ({ s with channel, received := s.received ++ [msg] }.completed id)
  | exits (hreceiving : s.consumer = .receiving) (hempty : s.channel.contents = [])
      (hclosed : s.channel.closed = true) :
      Moves producers perProducer s { s with consumer := .returned }

theorem step_moves {producers : Finset ProducerId} {perProducer : ℕ} {s s' : State} {act : Act}
    (hstep : s.step producers perProducer act = some s') : Moves producers perProducer s s' := by
  cases act with
  | next id =>
      simp only [State.step] at hstep
      split at hstep
      · next seq hpc =>
        split at hstep
        · next hle =>
          cases hstep
          exact .loops hpc hle
        · next hlt =>
          cases hstep
          exact .finishes hpc (not_le.mp hlt)
      · cases hstep
  | timerFires id =>
      simp only [State.step] at hstep
      split at hstep
      · next seq hpc =>
        cases hstep
        exact .fires hpc
      · cases hstep
  | send id =>
      simp only [State.step] at hstep
      split at hstep
      · next seq hpc =>
        split at hstep
        · next channel hsend =>
          cases hstep
          exact .buffers hpc hsend
        · next channel hsend =>
          cases hstep
          exact .suspends hpc hsend
        · next hsend =>
          cases hstep
          exact .fails hpc (AsyncChannel.send_refused.mp hsend)
      · cases hstep
  | close =>
      obtain ⟨⟨hjoining, hall⟩, heq⟩ := Option.ite_none_right_eq_some.mp hstep
      cases heq
      exact .closes hjoining hall
  | joinFails =>
      obtain ⟨⟨-, hthrew⟩, heq⟩ := Option.ite_none_right_eq_some.mp hstep
      cases heq
      exact .joinFails hthrew
  | receive =>
      simp only [State.step] at hstep
      split at hstep
      · next msg channel hreceiving hreceive =>
        cases hstep
        exact .receives hreceiving hreceive
      · next msg id channel hreceiving hreceive =>
        cases hstep
        exact .serves hreceiving hreceive
      · cases hstep
  | exit =>
      obtain ⟨⟨hreceiving, hempty, hclosed⟩, heq⟩ := Option.ite_none_right_eq_some.mp hstep
      cases heq
      have hnone := Option.isNone_iff_eq_none.mp hempty
      exact .exits hreceiving (AsyncChannel.receive_eq_none.mp hnone) hclosed

/-- Where the coroutines are. A send is suspended in the channel exactly while its
producer is, and the channel is closed only when all have returned. -/
structure Control (producers : Finset ProducerId) (perProducer : ℕ) (s : State) : Prop where
  within : ∀ id ∈ producers, (s.producer id).Within perProducer
  outside : ∀ id, id ∉ producers → s.producer id = .returned
  suspended : ∀ id msg, (id, msg) ∈ s.channel.suspended → s.producer id = .suspended msg.seq
  nodup : (s.channel.suspended.map Prod.fst).Nodup
  waits : ∀ id seq, s.producer id = .suspended seq → ∃ msg, (id, msg) ∈ s.channel.suspended
  closer : s.closer = .returned ↔ s.channel.closed = true
  unfailed : s.closer ≠ .threw
  joined : s.channel.closed = true → ∀ id ∈ producers, s.producer id = .returned
  exited : s.consumer = .returned → s.channel.closed = true ∧ s.channel.contents = []

section Steps

variable {producers : Finset ProducerId} {perProducer : ℕ} {s s' : State}

theorem State.setProducer_self {id : ProducerId} {pc : ProducerPc} :
    (s.setProducer id pc).producer id = pc := Function.update_self ..

theorem State.setProducer_other {id other : ProducerId} {pc : ProducerPc} (hne : other ≠ id) :
    (s.setProducer id pc).producer other = s.producer other := Function.update_of_ne hne ..

theorem control_started (producers : Finset ProducerId) (perProducer capacity : ℕ) :
    Control producers perProducer (started producers capacity) where
  within id hid := by
    simp [started, hid, ProducerPc.Within]
  outside id hid := by simp [started, hid]
  suspended id msg h := by simp [started] at h
  nodup := by simp [started]
  waits id seq h := by
    simp only [started] at h
    split at h
    · cases h
    · cases h
  closer := by simp [started]
  unfailed := by simp [started]
  joined h := by simp [started] at h
  exited h := by cases h

/-- A producer that has not returned is one of those started, and the channel is
open. -/
theorem Control.active (h : Control producers perProducer s) {id : ProducerId}
    (hpc : s.producer id ≠ .returned) : id ∈ producers ∧ s.channel.closed = false := by
  have hid : id ∈ producers := by
    by_contra hnot
    exact hpc (h.outside id hnot)
  exact ⟨hid, Bool.eq_false_iff.mpr fun hclosed => hpc (h.joined hclosed id hid)⟩

theorem Control.active_at (h : Control producers perProducer s) {id : ProducerId} {pc : ProducerPc}
    (hpc : s.producer id = pc) (hne : pc ≠ .returned) :
    id ∈ producers ∧ s.channel.closed = false := h.active (hpc ▸ hne)

theorem Control.within_at (h : Control producers perProducer s) {id : ProducerId}
    {pc : ProducerPc} (hpc : s.producer id = pc) (hne : pc ≠ .returned) :
    pc.Within perProducer := hpc ▸ h.within id (h.active_at hpc hne).1

/-- A step of one producer while the channel is open: what is left to show is that the
suspended sends are those of the producers that wait. -/
theorem Control.of_move (h : Control producers perProducer s) {id : ProducerId} {pc : ProducerPc}
    (hid : id ∈ producers) (hopen : s.channel.closed = false)
    (hproducer : s'.producer = (s.setProducer id pc).producer) (hcloser : s'.closer = s.closer)
    (hconsumer : s'.consumer = s.consumer) (hclosed : s'.channel.closed = s.channel.closed)
    (hwithin : pc.Within perProducer)
    (hsuspended : ∀ other msg, (other, msg) ∈ s'.channel.suspended →
      (s.setProducer id pc).producer other = .suspended msg.seq)
    (hnodup : (s'.channel.suspended.map Prod.fst).Nodup)
    (hwaits : ∀ other seq, (s.setProducer id pc).producer other = .suspended seq →
      ∃ msg, (other, msg) ∈ s'.channel.suspended) :
    Control producers perProducer s' := by
  have hopen' : s'.channel.closed ≠ true := by rw [hclosed, hopen]; simp
  rw [← hproducer] at hsuspended hwaits
  refine ⟨?_, ?_, hsuspended, hnodup, hwaits, ?_, ?_, fun hcl => absurd hcl hopen', ?_⟩
  · intro other hmem
    rw [hproducer]
    by_cases heq : other = id
    · rwa [heq, State.setProducer_self]
    · rw [State.setProducer_other heq]
      exact h.within other hmem
  · intro other hnot
    have hne : other ≠ id := fun heq => hnot (heq ▸ hid)
    rw [hproducer, State.setProducer_other hne]
    exact h.outside other hnot
  · rw [hcloser, hclosed]
    exact h.closer
  · rw [hcloser]
    exact h.unfailed
  · intro hreturned
    rw [hconsumer] at hreturned
    have hcl := (h.exited hreturned).1
    rw [hopen] at hcl
    cases hcl

/-- A step of a producer that is not suspended, before it or after it. -/
theorem Control.setProducer (h : Control producers perProducer s) {id : ProducerId}
    {pc : ProducerPc} {channel : AsyncChannel ProducerId Message}
    (hactive : s.producer id ≠ .returned) (hbefore : ∀ seq, s.producer id ≠ .suspended seq)
    (hafter : ∀ seq, pc ≠ .suspended seq) (hwithin : pc.Within perProducer)
    (hsuspended : channel.suspended = s.channel.suspended)
    (hclosed : channel.closed = s.channel.closed) :
    Control producers perProducer ({ s with channel }.setProducer id pc) := by
  obtain ⟨hid, hopen⟩ := h.active hactive
  refine h.of_move hid hopen rfl rfl rfl hclosed hwithin ?_ (hsuspended ▸ h.nodup) ?_
  · intro other msg hmem
    have hpc := h.suspended other msg (hsuspended ▸ hmem)
    have hne : other ≠ id := fun heq => hbefore _ (heq ▸ hpc)
    rw [State.setProducer_other hne]
    exact hpc
  · intro other seq hpc
    by_cases heq : other = id
    · rw [heq, State.setProducer_self] at hpc
      exact absurd hpc (hafter seq)
    · rw [State.setProducer_other heq] at hpc
      obtain ⟨msg, hmem⟩ := h.waits other seq hpc
      exact ⟨msg, hsuspended ▸ hmem⟩

/-- The same for a step that leaves the channel alone. -/
theorem Control.setPc (h : Control producers perProducer s) {id : ProducerId}
    {pc pc' : ProducerPc} (hpc : s.producer id = pc) (hactive : pc ≠ .returned)
    (hbefore : ∀ seq, pc ≠ .suspended seq) (hafter : ∀ seq, pc' ≠ .suspended seq)
    (hwithin : pc'.Within perProducer) : Control producers perProducer (s.setProducer id pc') := by
  subst hpc
  have hset : Control producers perProducer ({ s with channel := s.channel }.setProducer id pc') :=
    h.setProducer hactive hbefore hafter hwithin rfl rfl
  exact hset

theorem Control.suspends (h : Control producers perProducer s) {id : ProducerId} {seq : ℕ}
    {channel : AsyncChannel ProducerId Message} (hpc : s.producer id = .sending seq)
    (hsend : s.channel.send id ⟨id, seq⟩ = .suspended channel) :
    Control producers perProducer ({ s with channel }.setProducer id (.suspended seq)) := by
  obtain ⟨hid, hopen⟩ := h.active_at hpc (by simp)
  have hwithin := h.within_at hpc (by simp)
  obtain ⟨-, hsuspended, hclosed⟩ := AsyncChannel.send_suspended hsend
  have hfresh : ∀ msg, (id, msg) ∉ s.channel.suspended := by
    intro msg hmem
    have hbefore := h.suspended id msg hmem
    rw [hpc] at hbefore
    cases hbefore
  refine h.of_move hid hopen rfl rfl rfl hclosed hwithin ?_ ?_ ?_
  · intro other msg hmem
    have hmem' : (other, msg) ∈ s.channel.suspended ++ [(id, ⟨id, seq⟩)] := hsuspended ▸ hmem
    rcases List.mem_append.mp hmem' with hold | hnew
    · have hne : other ≠ id := fun heq => hfresh msg (heq ▸ hold)
      rw [State.setProducer_other hne]
      exact h.suspended other msg hold
    · cases List.mem_singleton.mp hnew
      exact State.setProducer_self
  · have hnodup : ((s.channel.suspended ++ [(id, (⟨id, seq⟩ : Message))]).map Prod.fst).Nodup := by
      rw [List.map_append]
      refine List.nodup_append.mpr ⟨h.nodup, List.nodup_singleton _, ?_⟩
      intro other hmem new hnew heq
      obtain ⟨⟨sender, msg⟩, hold, rfl⟩ := List.mem_map.mp hmem
      cases List.mem_singleton.mp hnew
      have hsender : sender = id := heq
      exact hfresh msg (hsender ▸ hold)
    exact hsuspended ▸ hnodup
  · intro other otherSeq hsusp
    by_cases heq : other = id
    · refine ⟨⟨id, seq⟩, ?_⟩
      show _ ∈ channel.suspended
      rw [hsuspended, heq]
      exact List.mem_append_right _ (List.mem_singleton_self _)
    · rw [State.setProducer_other heq] at hsusp
      obtain ⟨msg, hmem⟩ := h.waits other otherSeq hsusp
      refine ⟨msg, ?_⟩
      show _ ∈ channel.suspended
      rw [hsuspended]
      exact List.mem_append_left _ hmem

theorem State.completed_of_suspended {id : ProducerId} {seq : ℕ}
    (hpc : s.producer id = .suspended seq) :
    s.completed id = s.setProducer id (.looping (seq + 1)) := by
  simp only [State.completed, hpc]

/-- The producer whose send completes is the first of those suspended. -/
theorem Control.serves (h : Control producers perProducer s) {msg : Message} {id : ProducerId}
    {channel : AsyncChannel ProducerId Message}
    (hreceive : s.channel.receive = some (msg, some id, channel)) :
    Control producers perProducer
      ({ s with channel, received := s.received ++ [msg] }.completed id) := by
  have hclosed := (AsyncChannel.receive_contents hreceive).2
  obtain ⟨hnone, -⟩ | ⟨sender, sent, hsender, hsuspended⟩ := AsyncChannel.receive_served hreceive
  · cases hnone
  cases hsender
  have hpc : s.producer id = .suspended sent.seq :=
    h.suspended id sent (hsuspended ▸ List.mem_cons_self)
  obtain ⟨hid, hopen⟩ := h.active_at hpc (by simp)
  have hwithin := h.within_at hpc (by simp)
  have hnodup : ((id, sent) :: channel.suspended |>.map Prod.fst).Nodup := hsuspended ▸ h.nodup
  obtain ⟨hfresh, hrest⟩ := List.nodup_cons.mp hnodup
  rw [State.completed_of_suspended (s := { s with channel, received := s.received ++ [msg] }) hpc]
  refine h.of_move hid hopen rfl rfl rfl hclosed ?_ ?_ hrest ?_
  · exact ⟨Nat.succ_pos _, Nat.succ_le_succ hwithin.2⟩
  · intro other otherMsg hmem
    have hne : other ≠ id := by
      rintro rfl
      exact hfresh (List.mem_map.mpr ⟨_, hmem, rfl⟩)
    rw [State.setProducer_other hne]
    exact h.suspended other otherMsg (hsuspended ▸ List.mem_cons_of_mem _ hmem)
  · intro other seq hsusp
    by_cases heq : other = id
    · rw [heq, State.setProducer_self] at hsusp
      cases hsusp
    · rw [State.setProducer_other heq] at hsusp
      obtain ⟨otherMsg, hmem⟩ := h.waits other seq hsusp
      rw [hsuspended] at hmem
      rcases List.mem_cons.mp hmem with hfirst | hlater
      · exact absurd (congrArg Prod.fst hfirst) heq
      · exact ⟨otherMsg, hlater⟩

/-- A receive when no send is suspended. -/
theorem Control.receives (h : Control producers perProducer s) {msg : Message}
    {channel : AsyncChannel ProducerId Message} (hreceiving : s.consumer = .receiving)
    (hreceive : s.channel.receive = some (msg, none, channel)) :
    Control producers perProducer { s with channel, received := s.received ++ [msg] } := by
  have hclosed := (AsyncChannel.receive_contents hreceive).2
  obtain ⟨-, hbefore, hafter⟩ | ⟨sender, sent, hsender, -⟩ := AsyncChannel.receive_served hreceive
  · have hsame : channel.suspended = s.channel.suspended := hafter.trans hbefore.symm
    refine ⟨h.within, h.outside, ?_, ?_, ?_, ?_, h.unfailed, ?_, ?_⟩
    · intro id sent hmem
      exact h.suspended id sent (hsame ▸ hmem)
    · exact hsame ▸ h.nodup
    · intro id seq hpc
      obtain ⟨sent, hmem⟩ := h.waits id seq hpc
      exact ⟨sent, hsame ▸ hmem⟩
    · exact h.closer.trans (by rw [← hclosed])
    · exact fun hcl => h.joined (hclosed ▸ hcl)
    · intro hconsumer
      cases hreceiving.symm.trans hconsumer
  · cases hsender

theorem Control.step (h : Control producers perProducer s)
    (hmoves : Moves producers perProducer s s') : Control producers perProducer s' := by
  cases hmoves with
  | @loops id seq hpc hle =>
      have hbound := h.within_at hpc (by simp)
      exact h.setPc hpc (by simp) (by simp) (by simp) ⟨hbound.1, hle⟩
  | @finishes id seq hpc hlt =>
      exact h.setPc hpc (by simp) (by simp) (by simp) trivial
  | @fires id seq hpc =>
      have hbound := h.within_at hpc (by simp)
      exact h.setPc hpc (by simp) (by simp) (by simp) hbound
  | @buffers id seq channel hpc hsend =>
      have hbound := h.within_at hpc (by simp)
      obtain ⟨-, hsuspended, hclosed⟩ := AsyncChannel.send_done hsend
      exact h.setProducer (by rw [hpc]; simp) (by rw [hpc]; simp) (by simp)
        ⟨Nat.succ_pos _, Nat.succ_le_succ hbound.2⟩ hsuspended hclosed
  | suspends hpc hsend => exact h.suspends hpc hsend
  | @fails id seq hpc hclosed =>
      have hopen := (h.active_at hpc (by simp)).2
      cases hclosed.symm.trans hopen
  | closes hjoining hall =>
      refine ⟨h.within, h.outside, h.suspended, h.nodup, h.waits, ?_, ?_, ?_, ?_⟩
      · exact iff_of_true rfl rfl
      · intro hthrew
        cases hthrew
      · exact fun _ => hall
      · intro hconsumer
        have hcl := (h.exited hconsumer).1
        exact ⟨rfl, (h.exited hconsumer).2⟩
  | joinFails hthrew =>
      obtain ⟨id, hid, hpc⟩ := hthrew
      have hbound := h.within id hid
      rw [hpc] at hbound
      exact hbound.elim
  | receives hreceiving hreceive => exact h.receives hreceiving hreceive
  | serves _ hreceive => exact h.serves hreceive
  | exits hreceiving hempty hclosed =>
      exact ⟨h.within, h.outside, h.suspended, h.nodup, h.waits, h.closer, h.unfailed, h.joined,
        fun _ => ⟨hclosed, hempty⟩⟩

end Steps

end CppWorkspace.Csp.CspMpsc
