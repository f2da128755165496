import CppWorkspace.Actors.ChatDelivery

/-!
The delivery of the chat room and its end: the room returns when every session
has joined and left, and then nothing is left for it.
-/

namespace CppWorkspace.Actors.ActorChat

open Lib System

section Returned

variable {sessionCount : Nat} {labels : List Act} {s : State}

theorem Sessions.handled_sent (h : Sessions sessionCount labels s) {m : RoomMessage}
    (hm : m ∈ handledMessages labels) : m ∈ sentMessages labels := by
  rw [h.fifo]
  exact List.mem_append_left _ hm

theorem Sessions.sender_range (h : Sessions sessionCount labels s) {m : RoomMessage}
    (hm : m ∈ sentMessages labels) : 1 ≤ m.sessionId ∧ m.sessionId ≤ sessionCount := by
  have hstarted := h.started m hm
  have hborn : s.session m.sessionId ≠ .unborn := by
    intro hunborn
    rw [hunborn] at hstarted
    cases hstarted
  have hrange := h.born m.sessionId hborn
  exact ⟨hrange.1, hrange.2.trans h.accepted⟩

theorem Sessions.join_count_le (h : Sessions sessionCount labels s) (id : SessionId) :
    (handledMessages labels).count (.join id id) ≤ 1 := by
  have hcount := h.joins id
  rw [h.fifo, List.count_append] at hcount
  have hle := Bool.toNat_le (s.session id).started
  omega

theorem Sessions.joins_nodup (h : Sessions sessionCount labels s) :
    ((handledMessages labels).filter RoomMessage.isJoin).Nodup := by
  rw [List.nodup_iff_count_le_one]
  intro m
  by_cases hm : m ∈ (handledMessages labels).filter RoomMessage.isJoin
  · obtain ⟨hhandled, hjoin⟩ := List.mem_filter.mp hm
    rw [List.count_filter hjoin]
    cases m with
    | join id inbox =>
        obtain rfl := h.join_inbox id inbox (h.handled_sent hhandled)
        exact h.join_count_le inbox
    | leave id => cases hjoin
    | chat id text => cases hjoin
  · rw [List.count_eq_zero_of_not_mem hm]
    exact Nat.zero_le 1

/-- As many joins as sessions are a join of each. -/
theorem Sessions.all_joined (h : Sessions sessionCount labels s)
    (hcount : (handledMessages labels).countP RoomMessage.isJoin = sessionCount)
    {id : SessionId} (hpos : 1 ≤ id) (hle : id ≤ sessionCount) :
    .join id id ∈ handledMessages labels := by
  let joins := ((handledMessages labels).filter RoomMessage.isJoin).toFinset
  let expected := (Finset.Icc 1 sessionCount).image (fun k => RoomMessage.join k k)
  have hsubset : joins ⊆ expected := by
    intro m hm
    obtain ⟨hhandled, hjoin⟩ := List.mem_filter.mp (List.mem_toFinset.mp hm)
    have hsent := h.handled_sent hhandled
    have hrange := h.sender_range hsent
    cases m with
    | join k inbox =>
        obtain rfl := h.join_inbox k inbox hsent
        exact Finset.mem_image.mpr ⟨inbox, Finset.mem_Icc.mpr hrange, rfl⟩
    | leave k => cases hjoin
    | chat k text => cases hjoin
  have hcard : expected.card ≤ joins.card := by
    calc expected.card ≤ (Finset.Icc 1 sessionCount).card := Finset.card_image_le
      _ = sessionCount := by simp
      _ = joins.card := by
        rw [List.toFinset_card_of_nodup h.joins_nodup, ← List.countP_eq_length_filter, hcount]
  have hid : RoomMessage.join id id ∈ expected :=
    Finset.mem_image.mpr ⟨id, Finset.mem_Icc.mpr ⟨hpos, hle⟩, rfl⟩
  rw [← Finset.eq_of_subset_of_card_le hsubset hcard] at hid
  exact (List.mem_filter.mp (List.mem_toFinset.mp hid)).1

theorem RoomView.nobody_left (h : RoomView sessionCount labels s) (hpc : s.room.pc = .returned)
    (id : SessionId) : ¬ InRoom (handledMessages labels) id := by
  intro hin
  have hmember := (h.members id id).mpr ⟨rfl, hin, by simp [hpc, RoomPc.inserting]⟩
  rw [(h.returned hpc).2] at hmember
  cases hmember

theorem RoomView.all_left (h : RoomView sessionCount labels s)
    (hsessions : Sessions sessionCount labels s) (hpc : s.room.pc = .returned)
    {id : SessionId} (hpos : 1 ≤ id) (hle : id ≤ sessionCount) :
    .join id id ∈ handledMessages labels ∧ .leave id ∈ handledMessages labels := by
  have hcount := h.total.symm.trans (h.returned hpc).1
  have hjoin := hsessions.all_joined hcount hpos hle
  refine ⟨hjoin, ?_⟩
  by_contra hleave
  exact h.nobody_left hpc id ⟨hjoin, hleave⟩

theorem RoomView.mailbox_empty (h : RoomView sessionCount labels s)
    (hsessions : Sessions sessionCount labels s) (hpc : s.room.pc = .returned) :
    s.mailbox.buffer = [] := by
  cases hbuffer : s.mailbox.buffer with
  | nil => rfl
  | cons m rest =>
      have hsent : m ∈ sentMessages labels := by
        rw [hsessions.fifo, hbuffer]
        simp
      obtain ⟨hpos, hle⟩ := hsessions.sender_range hsent
      exact absurd (h.all_left hsessions hpc hpos hle).2 (hsessions.next hbuffer).1

theorem Sessions.left_of_leave (h : Sessions sessionCount labels s) {id : SessionId}
    (hleave : .leave id ∈ handledMessages labels) : (s.session id).left = true := by
  have hcount := h.leaves id
  have hpos := List.count_pos_iff.mpr (h.handled_sent hleave)
  cases hleft : (s.session id).left with
  | true => rfl
  | false =>
      rw [hleft] at hcount
      rw [hcount] at hpos
      cases hpos

end Returned

/-- Two members hear the events they share in one order and in the same words. -/
theorem heardEvents_shared (a b : SessionId) (messages : List RoomMessage) :
    (heardEvents a messages).filter (fun i => i ∈ heardEvents b messages) =
        (heardEvents b messages).filter (fun i => i ∈ heardEvents a messages) ∧
      ∀ i ∈ heardEvents a messages, i ∈ heardEvents b messages →
        heardAt a messages i = heardAt b messages i := by
  constructor
  · rw [heardEvents, heardEvents, List.filter_filter, List.filter_filter]
    apply List.filter_congr
    intro i hi
    simp [hi, Bool.and_comm]
  · have hwords : ∀ id, ∀ i ∈ heardEvents id messages,
        heardAt id messages i = messages[i]?.map RoomMessage.announcement := by
      intro id i hi
      have hsome := (List.mem_filter.mp hi).2
      unfold heardAt at hsome ⊢
      split at hsome
      · next hin =>
        rw [if_pos hin]
        cases hmessage : messages[i]? with
        | none => rfl
        | some m =>
            simp only [hmessage, Option.bind_some, line] at hsome ⊢
            split at hsome
            · cases hsome
            · next hother => simp [hother]
      · cases hsome
    intro i ha hb
    rw [hwords a i ha, hwords b i hb]

/-- A member hears what another session says under that session's number. -/
theorem heardAt_chat {id other : SessionId} {text : Text} {messages : List RoomMessage} {i : Nat}
    (hin : InRoom (messages.take i) id) (hother : other ≠ id)
    (hmessage : messages[i]? = some (.chat other text)) :
    i ∈ heardEvents id messages ∧ heardAt id messages i =
      some ("session ".toList ++ toText other ++ ": ".toList ++ text) := by
  have hheard : heardAt id messages i =
      some ("session ".toList ++ toText other ++ ": ".toList ++ text) := by
    rw [heardAt, if_pos hin, hmessage, Option.bind_some, line]
    exact if_neg hother
  refine ⟨List.mem_filter.mpr ⟨?_, by rw [hheard]; rfl⟩, hheard⟩
  obtain ⟨hlt, -⟩ := List.getElem?_eq_some_iff.mp hmessage
  exact List.mem_range.mpr hlt

/-- In every run: the inbox of a session whose leave is next is a member's; the
texts sent to a session are its welcome and the lines of the messages of others
handled while it was in the room, in handling order; what another session says comes
with that session's number; and the room returns only when every session has joined
and left and nothing is left to handle. -/
theorem chat_delivery {sessionCount mailboxCapacity inboxCapacity : Nat} {labels : List Act}
    {s : State} (hrun : (chatSystem sessionCount mailboxCapacity inboxCapacity).Run
      (started mailboxCapacity inboxCapacity) labels s) :
    (∀ id, s.room.pc = .receiving → s.mailbox.buffer.head? = some (.leave id) →
      s.room.members.find? id = some id) ∧ s.room.pc ≠ .nullInbox ∧
    (∀ id, delivered labels id ++ s.room.pc.pending id = heard id (handledMessages labels)) ∧
    (∀ id i other text, InRoom ((handledMessages labels).take i) id → other ≠ id →
      (handledMessages labels)[i]? = some (.chat other text) →
      i ∈ heardEvents id (handledMessages labels) ∧ heardAt id (handledMessages labels) i =
        some ("session ".toList ++ (toString other).toList ++ ": ".toList ++ text)) ∧
    (∀ a b, (heardEvents a (handledMessages labels)).filter
          (fun i => i ∈ heardEvents b (handledMessages labels)) =
        (heardEvents b (handledMessages labels)).filter
          (fun i => i ∈ heardEvents a (handledMessages labels)) ∧
      ∀ i ∈ heardEvents a (handledMessages labels), i ∈ heardEvents b (handledMessages labels) →
        heardAt a (handledMessages labels) i = heardAt b (handledMessages labels) i) ∧
    (s.room.pc = .returned →
      (∀ id, 1 ≤ id → id ≤ sessionCount → .join id id ∈ handledMessages labels ∧
        .leave id ∈ handledMessages labels ∧ (s.session id).left = true) ∧
      s.mailbox.buffer = []) := by
  obtain ⟨hsessions, hview⟩ := run_roomView hrun
  refine ⟨?_, hview.safe.2, hview.texts, fun _ _ _ _ => heardAt_chat,
    fun a b => heardEvents_shared a b _, ?_⟩
  · intro id hpc hhead
    obtain ⟨rest, hbuffer⟩ : ∃ rest, s.mailbox.buffer = .leave id :: rest := by
      cases hbuffer : s.mailbox.buffer with
      | nil => simp [hbuffer] at hhead
      | cons m rest =>
          rw [hbuffer, List.head?_cons, Option.some.injEq] at hhead
          exact ⟨rest, by rw [hhead]⟩
    obtain ⟨hleave, ⟨hjoin, -⟩ | ⟨-, hjoined⟩⟩ := hsessions.next hbuffer
    · cases hjoin
    · exact OrdMap.find?_eq_some.mpr (((hview.receiving hpc).1 id id).mpr ⟨rfl, hjoined, hleave⟩)
  · intro hpc
    refine ⟨fun id hpos hle => ?_, hview.mailbox_empty hsessions hpc⟩
    obtain ⟨hjoin, hleave⟩ := hview.all_left hsessions hpc hpos hle
    exact ⟨hjoin, hleave, hsessions.left_of_leave hleave⟩

/-- Two sessions come, the first says a word, both go, and the room returns. -/
theorem chat_delivery_two_sessions : ∃ labels s,
    (chatSystem 2 16 16).Run (started 16 16) labels s ∧ s.room.pc = .returned ∧
      .chat 1 "hi".toList ∈ handledMessages labels ∧
      delivered labels 1 = ["welcome, you are session 1".toList, "* session 2 joined".toList] ∧
      delivered labels 2 = ["welcome, you are session 2".toList, "session 1: hi".toList,
        "* session 1 left".toList] ∧
      heard 2 (handledMessages labels) = ["welcome, you are session 2".toList,
        "session 1: hi".toList, "* session 1 left".toList] ∧ s.mailbox.buffer = [] := by
  obtain ⟨labels, s, hrun, hpc, hchat, hone, htwo⟩ : ∃ labels s,
      (chatSystem 2 16 16).Run (started 16 16) labels s ∧ s.room.pc = .returned ∧
        .chat 1 "hi".toList ∈ handledMessages labels ∧
        delivered labels 1 = ["welcome, you are session 1".toList,
          "* session 2 joined".toList] ∧
        delivered labels 2 = ["welcome, you are session 2".toList, "session 1: hi".toList,
          "* session 1 left".toList] :=
    ⟨_, _,
      Run.cons Act.accept ⟨by decide, rfl⟩ <|
      Run.cons Act.accept ⟨by decide, rfl⟩ <|
      Run.cons (Act.sendJoin 1) ⟨_, rfl, rfl, rfl⟩ <|
      Run.cons (Act.handle (.join 1 1)) ⟨_, rfl, rfl, rfl⟩ <|
      Run.cons (Act.deliver 1 (welcome 1)) ⟨_, _, _, rfl, rfl, rfl⟩ <|
      Run.cons Act.settle ⟨_, rfl, rfl⟩ <|
      Run.cons (Act.sendJoin 2) ⟨_, rfl, rfl, rfl⟩ <|
      Run.cons (Act.handle (.join 2 2)) ⟨_, rfl, rfl, rfl⟩ <|
      Run.cons (Act.deliver 2 (welcome 2)) ⟨_, _, _, rfl, rfl, rfl⟩ <|
      Run.cons (Act.deliver 1 (joinedNotice 2)) ⟨_, _, _, rfl, rfl, rfl⟩ <|
      Run.cons Act.settle ⟨_, rfl, rfl⟩ <|
      Run.cons (Act.readLine 1 "hi".toList) ⟨_, rfl, rfl⟩ <|
      Run.cons (Act.sendChat 1 "hi".toList) ⟨_, _, rfl, rfl, rfl⟩ <|
      Run.cons (Act.handle (.chat 1 "hi".toList)) ⟨_, rfl, rfl, rfl⟩ <|
      Run.cons (Act.deliver 2 (chatLine 1 "hi".toList)) ⟨_, _, _, rfl, rfl, rfl⟩ <|
      Run.cons Act.settle ⟨_, rfl, rfl⟩ <|
      Run.cons (Act.readEof 1) ⟨_, rfl, rfl⟩ <|
      Run.cons (Act.sendLeave 1) ⟨_, _, rfl, rfl, rfl⟩ <|
      Run.cons (Act.handle (.leave 1)) ⟨_, rfl, rfl, rfl⟩ <|
      Run.cons (Act.deliver 2 (leftNotice 1)) ⟨_, _, _, rfl, rfl, rfl⟩ <|
      Run.cons Act.settle ⟨_, rfl, rfl⟩ <|
      Run.cons (Act.readEof 2) ⟨_, rfl, rfl⟩ <|
      Run.cons (Act.sendLeave 2) ⟨_, _, rfl, rfl, rfl⟩ <|
      Run.cons (Act.handle (.leave 2)) ⟨_, rfl, rfl, rfl⟩ <|
      Run.cons Act.settle ⟨_, rfl, rfl⟩ .nil,
      rfl, by decide, by decide, by decide⟩
  obtain ⟨-, -, htexts, -, -, hreturned⟩ := chat_delivery hrun
  have hheard := htexts 2
  rw [hpc, htwo] at hheard
  exact ⟨labels, s, hrun, hpc, hchat, hone, htwo, hheard.symm, (hreturned hpc).2⟩

end CppWorkspace.Actors.ActorChat
