import CppWorkspace.Actors.ChatRoom
import CppWorkspace.Lib.History

/-!
What the sessions send to the room: a session's messages are its join, then
chats, then at most one leave, and the mailbox holds what was sent and not
handled.
-/

namespace CppWorkspace.Actors.ActorChat

open Lib System

def RoomMessage.sessionId : RoomMessage → SessionId
  | .join id _ | .leave id | .chat id _ => id

def Act.sent : Act → Option RoomMessage
  | .sendJoin id => some (.join id id)
  | .sendChat id text => some (.chat id text)
  | .sendLeave id => some (.leave id)
  | _ => none

def Act.handled : Act → Option RoomMessage
  | .handle message => some message
  | _ => none

def sentMessages (labels : List Act) : List RoomMessage := labels.filterMap Act.sent

def handledMessages (labels : List Act) : List RoomMessage := labels.filterMap Act.handled

@[simp] theorem sentMessages_append (labels : List Act) (label : Act) :
    sentMessages (labels ++ [label]) = sentMessages labels ++ label.sent.toList :=
  History.filterMap_snoc Act.sent labels label

@[simp] theorem handledMessages_append (labels : List Act) (label : Act) :
    handledMessages (labels ++ [label]) = handledMessages labels ++ label.handled.toList :=
  History.filterMap_snoc Act.handled labels label

/-- What a step does to the sessions. A quiet move is one that sends nothing;
it neither finishes the reader in order nor takes it back. -/
inductive SessionMove (sessionCount : Nat) (s : State) : Act → State → Prop
  | none {act : Act} {s' : State} (hsent : act.sent = none) (hsession : s'.session = s.session)
      (haccepted : s'.accepted = s.accepted) : SessionMove sessionCount s act s'
  | accept {s' : State} (hlt : s.accepted < sessionCount)
      (hsession : s'.session = Function.update s.session (s.accepted + 1) .joining)
      (haccepted : s'.accepted = s.accepted + 1) : SessionMove sessionCount s .accept s'
  | join {s' : State} (id : SessionId) (hpc : s.session id = .joining)
      (hsession : s'.session = Function.update s.session id (.running .reading .receiving))
      (haccepted : s'.accepted = s.accepted) : SessionMove sessionCount s (.sendJoin id) s'
  | quiet {act : Act} {s' : State} (id : SessionId) (reader reader' : ReaderPc)
      (writer writer' : WriterPc) (hpc : s.session id = .running reader writer)
      (hsent : act.sent = none) (hdone : reader' = .returned ↔ reader = .returned)
      (hsession : s'.session = Function.update s.session id (.running reader' writer'))
      (haccepted : s'.accepted = s.accepted) : SessionMove sessionCount s act s'
  | chat {s' : State} (id : SessionId) (text : Text) (writer : WriterPc)
      (hpc : s.session id = .running (.sendingChat text) writer)
      (hsession : s'.session = Function.update s.session id (.running .reading writer))
      (haccepted : s'.accepted = s.accepted) : SessionMove sessionCount s (.sendChat id text) s'
  | leave {s' : State} (id : SessionId) (writer : WriterPc)
      (hpc : s.session id = .running .sendingLeave writer)
      (hsession : s'.session = Function.update s.session id (.running .returned writer))
      (haccepted : s'.accepted = s.accepted) : SessionMove sessionCount s (.sendLeave id) s'

theorem serve_session (s : State) (message : RoomMessage) :
    (s.serve message).session = s.session ∧ (s.serve message).accepted = s.accepted ∧
      (s.serve message).mailbox = s.mailbox := by
  cases message with
  | join id inbox => exact ⟨rfl, rfl, rfl⟩
  | chat id text => exact ⟨rfl, rfl, rfl⟩
  | leave id =>
      simp only [State.serve]
      split <;> exact ⟨rfl, rfl, rfl⟩

theorem step_sessionMove {sessionCount : Nat} {s s' : State} {act : Act}
    (hstep : Step sessionCount s act s') : SessionMove sessionCount s act s' := by
  cases act with
  | accept =>
      obtain ⟨hlt, rfl⟩ := hstep
      exact .accept hlt rfl rfl
  | sendJoin id =>
      obtain ⟨mailbox, hpc, -, rfl⟩ := hstep
      exact .join id hpc rfl rfl
  | readLine id text =>
      obtain ⟨writer, hpc, rfl⟩ := hstep
      exact .quiet id _ _ _ _ hpc rfl (by simp) rfl rfl
  | sendChat id text =>
      obtain ⟨writer, mailbox, hpc, -, rfl⟩ := hstep
      exact .chat id text writer hpc rfl rfl
  | readEof id =>
      obtain ⟨writer, hpc, rfl⟩ := hstep
      exact .quiet id _ _ _ _ hpc rfl (by simp) rfl rfl
  | readError id =>
      obtain ⟨writer, hpc, rfl⟩ := hstep
      exact .quiet id _ _ _ _ hpc rfl (by simp) rfl rfl
  | sendLeave id =>
      obtain ⟨writer, mailbox, hpc, -, rfl⟩ := hstep
      exact .leave id writer hpc rfl rfl
  | cancelReader id =>
      obtain ⟨reader, hpc, hended, rfl⟩ := hstep
      have hne : reader ≠ .returned := by
        rintro rfl
        cases hended
      exact .quiet id _ _ _ _ hpc rfl (by simp [hne]) rfl rfl
  | receiveText id text =>
      obtain ⟨reader, inbox, hpc, -, rfl⟩ := hstep
      exact .quiet id _ _ _ _ hpc rfl Iff.rfl rfl rfl
  | inboxClosed id =>
      obtain ⟨reader, hpc, -, rfl⟩ := hstep
      exact .quiet id _ _ _ _ hpc rfl Iff.rfl rfl rfl
  | writeDone id =>
      obtain ⟨reader, text, hpc, rfl⟩ := hstep
      exact .quiet id _ _ _ _ hpc rfl Iff.rfl rfl rfl
  | writeError id =>
      obtain ⟨reader, text, hpc, rfl⟩ := hstep
      exact .quiet id _ _ _ _ hpc rfl Iff.rfl rfl rfl
  | cancelWriter id =>
      obtain ⟨writer, hpc, -, rfl⟩ := hstep
      exact .quiet id _ _ _ _ hpc rfl Iff.rfl rfl rfl
  | handle message =>
      obtain ⟨mailbox, -, -, rfl⟩ := hstep
      obtain ⟨hsession, haccepted, -⟩ := serve_session { s with mailbox := mailbox } message
      exact .none rfl hsession haccepted
  | deliver id text =>
      obtain ⟨texts, after, inbox, -, -, rfl⟩ := hstep
      exact .none rfl rfl rfl
  | deliverFails id =>
      obtain ⟨text, texts, after, -, -, rfl⟩ := hstep
      exact .none rfl rfl rfl
  | settle =>
      obtain ⟨after, -, rfl⟩ := hstep
      exact .none rfl rfl rfl

theorem step_mailbox {sessionCount : Nat} {s s' : State} {act : Act}
    (hstep : Step sessionCount s act s') :
    s.mailbox.buffer ++ act.sent.toList = act.handled.toList ++ s'.mailbox.buffer := by
  cases act with
  | sendJoin id =>
      obtain ⟨mailbox, -, hput, rfl⟩ := hstep
      exact (Channel.put_spec hput).2.2.1.symm
  | sendChat id text =>
      obtain ⟨writer, mailbox, -, hput, rfl⟩ := hstep
      exact (Channel.put_spec hput).2.2.1.symm
  | sendLeave id =>
      obtain ⟨writer, mailbox, -, hput, rfl⟩ := hstep
      exact (Channel.put_spec hput).2.2.1.symm
  | handle message =>
      obtain ⟨mailbox, -, htake, rfl⟩ := hstep
      rw [(serve_session { s with mailbox := mailbox } message).2.2]
      simp [Act.sent, Act.handled, (Channel.take_spec htake).1]
  | accept =>
      obtain ⟨-, rfl⟩ := hstep
      simp [Act.sent, Act.handled, State.setSession]
  | readLine id text =>
      obtain ⟨writer, -, rfl⟩ := hstep
      simp [Act.sent, Act.handled, State.setSession]
  | readEof id =>
      obtain ⟨writer, -, rfl⟩ := hstep
      simp [Act.sent, Act.handled, State.setSession]
  | readError id =>
      obtain ⟨writer, -, rfl⟩ := hstep
      simp [Act.sent, Act.handled, State.setSession]
  | cancelReader id =>
      obtain ⟨reader, -, -, rfl⟩ := hstep
      simp [Act.sent, Act.handled, State.setSession]
  | receiveText id text =>
      obtain ⟨reader, inbox, -, -, rfl⟩ := hstep
      simp [Act.sent, Act.handled, State.setSession]
  | inboxClosed id =>
      obtain ⟨reader, -, -, rfl⟩ := hstep
      simp [Act.sent, Act.handled, State.setSession]
  | writeDone id =>
      obtain ⟨reader, text, -, rfl⟩ := hstep
      simp [Act.sent, Act.handled, State.setSession]
  | writeError id =>
      obtain ⟨reader, text, -, rfl⟩ := hstep
      simp [Act.sent, Act.handled, State.setSession]
  | cancelWriter id =>
      obtain ⟨writer, -, -, rfl⟩ := hstep
      simp [Act.sent, Act.handled, State.setSession]
  | deliver id text =>
      obtain ⟨texts, after, inbox, -, -, rfl⟩ := hstep
      simp [Act.sent, Act.handled]
  | deliverFails id =>
      obtain ⟨text, texts, after, -, -, rfl⟩ := hstep
      simp [Act.sent, Act.handled]
  | settle =>
      obtain ⟨after, -, rfl⟩ := hstep
      simp [Act.sent, Act.handled]

def SessionPc.started : SessionPc → Bool
  | .unborn | .joining => false
  | .running _ _ => true

/-- The reader has handed its leave message over. -/
def SessionPc.left : SessionPc → Bool
  | .running .returned _ => true
  | _ => false

/-- What has been sent, session by session. -/
structure Sessions (sessionCount : Nat) (labels : List Act) (s : State) : Prop where
  fifo : sentMessages labels = handledMessages labels ++ s.mailbox.buffer
  accepted : s.accepted ≤ sessionCount
  born : ∀ id : Nat, s.session id ≠ .unborn → 1 ≤ id ∧ id ≤ s.accepted
  started : ∀ m ∈ sentMessages labels, (s.session m.sessionId).started = true
  join_inbox : ∀ id inbox, RoomMessage.join id inbox ∈ sentMessages labels → inbox = id
  joins : ∀ id, (sentMessages labels).count (.join id id) = (s.session id).started.toNat
  leaves : ∀ id, (sentMessages labels).count (.leave id) = (s.session id).left.toNat
  after_join : ∀ before m after, sentMessages labels = before ++ m :: after →
    m = .join m.sessionId m.sessionId ∨ .join m.sessionId m.sessionId ∈ before
  leave_last : ∀ before id after, sentMessages labels = before ++ .leave id :: after →
    ∀ m ∈ after, m.sessionId ≠ id

theorem sessions_initial (sessionCount mailboxCapacity inboxCapacity : Nat) :
    Sessions sessionCount [] (started mailboxCapacity inboxCapacity) where
  fifo := rfl
  accepted := Nat.zero_le _
  born id h := absurd rfl h
  started m h := by cases h
  join_inbox id inbox h := by cases h
  joins id := rfl
  leaves id := rfl
  after_join before m after h := by simp [sentMessages] at h
  leave_last before id after h := by simp [sentMessages] at h

/-- What a session has sent moves with its position. -/
theorem SessionMove.status {sessionCount : Nat} {s s' : State} {act : Act}
    (h : SessionMove sessionCount s act s') (hunborn : s.session (s.accepted + 1) = .unborn)
    (id : SessionId) :
    (s'.session id).started.toNat =
        (s.session id).started.toNat + act.sent.toList.count (.join id id) ∧
      (s'.session id).left.toNat =
        (s.session id).left.toNat + act.sent.toList.count (.leave id) := by
  cases h with
  | none hsent hsession haccepted =>
      rw [hsession, hsent]
      exact ⟨rfl, rfl⟩
  | accept hlt hsession haccepted =>
      by_cases heq : id = s.accepted + 1
      · simp [hsession, heq, hunborn, Act.sent, SessionPc.started, SessionPc.left]
      · simp [hsession, heq, Act.sent]
  | join k hpc hsession haccepted =>
      by_cases heq : id = k
      · simp [hsession, heq, hpc, Act.sent, SessionPc.started, SessionPc.left]
      · simp [hsession, heq, Act.sent, Ne.symm heq]
  | quiet k reader reader' writer writer' hpc hsent hdone hsession haccepted =>
      by_cases heq : id = k
      · have hleft : (SessionPc.running reader' writer').left =
            (SessionPc.running reader writer).left := by
          rw [Bool.eq_iff_iff]
          cases reader <;> cases reader' <;> simp_all [SessionPc.left]
        simp [hsession, heq, hpc, hsent, hleft, SessionPc.started]
      · simp [hsession, heq, hsent]
  | chat k text writer hpc hsession haccepted =>
      by_cases heq : id = k
      · simp [hsession, heq, hpc, Act.sent, SessionPc.started, SessionPc.left]
      · simp [hsession, heq, Act.sent]
  | leave k writer hpc hsession haccepted =>
      by_cases heq : id = k
      · simp [hsession, heq, hpc, Act.sent, SessionPc.started, SessionPc.left]
      · simp [hsession, heq, Act.sent, Ne.symm heq]

/-- Who sends a message has not left, and has joined unless it is the join. -/
theorem SessionMove.sender {sessionCount : Nat} {s s' : State} {act : Act}
    (h : SessionMove sessionCount s act s') {m : RoomMessage} (hm : act.sent = some m) :
    (s.session m.sessionId).left = false ∧ (s'.session m.sessionId).started = true ∧
      (m = .join m.sessionId m.sessionId ∨
        (s.session m.sessionId).started = true ∧ ∀ id inbox, m ≠ .join id inbox) := by
  cases h with
  | none hsent hsession haccepted => cases hsent.symm.trans hm
  | accept hlt hsession haccepted => cases hm
  | quiet k reader reader' writer writer' hpc hsent hdone hsession haccepted =>
      cases hsent.symm.trans hm
  | join k hpc hsession haccepted =>
      cases hm
      simp [RoomMessage.sessionId, hsession, hpc, SessionPc.left, SessionPc.started]
  | chat k text writer hpc hsession haccepted =>
      cases hm
      simp [RoomMessage.sessionId, hsession, hpc, SessionPc.left, SessionPc.started]
  | leave k writer hpc hsession haccepted =>
      cases hm
      simp [RoomMessage.sessionId, hsession, hpc, SessionPc.left, SessionPc.started]

/-- Sessions are accepted in order and stay. -/
theorem SessionMove.born {sessionCount : Nat} {s s' : State} {act : Act}
    (h : SessionMove sessionCount s act s')
    (hborn : ∀ id : Nat, s.session id ≠ .unborn → 1 ≤ id ∧ id ≤ s.accepted) (id : Nat)
    (hid : s'.session id ≠ .unborn) : 1 ≤ id ∧ id ≤ s'.accepted := by
  have moved : ∀ (k : SessionId) {pc : SessionPc}, s.session k ≠ .unborn →
      s'.session = Function.update s.session k pc → s'.accepted = s.accepted →
      1 ≤ id ∧ id ≤ s'.accepted := by
    intro k pc hk hsession haccepted
    rw [haccepted]
    by_cases heq : id = k
    · rw [heq]
      exact hborn k hk
    · rw [hsession, Function.update_of_ne heq] at hid
      exact hborn id hid
  cases h with
  | none hsent hsession haccepted =>
      rw [hsession] at hid
      rw [haccepted]
      exact hborn id hid
  | accept hlt hsession haccepted =>
      rw [haccepted]
      by_cases heq : id = s.accepted + 1
      · omega
      · rw [hsession, Function.update_of_ne heq] at hid
        have hold := hborn id hid
        omega
  | join k hpc hsession haccepted =>
      exact moved k (by rw [hpc]; simp) hsession haccepted
  | quiet k reader reader' writer writer' hpc hsent hdone hsession haccepted =>
      exact moved k (by rw [hpc]; simp) hsession haccepted
  | chat k text writer hpc hsession haccepted =>
      exact moved k (by rw [hpc]; simp) hsession haccepted
  | leave k writer hpc hsession haccepted =>
      exact moved k (by rw [hpc]; simp) hsession haccepted

section Steps

variable {sessionCount : Nat} {labels : List Act} {s s' : State} {act : Act}

theorem Sessions.next_unborn (h : Sessions sessionCount labels s) :
    s.session (s.accepted + 1) = .unborn := by
  by_contra hborn
  have hle := (h.born _ hborn).2
  omega

theorem Sessions.after_join_step (h : Sessions sessionCount labels s)
    (hmove : SessionMove sessionCount s act s') (before : List RoomMessage) (m : RoomMessage)
    (after : List RoomMessage)
    (hsplit : sentMessages (labels ++ [act]) = before ++ m :: after) :
    m = .join m.sessionId m.sessionId ∨ .join m.sessionId m.sessionId ∈ before := by
  rw [sentMessages_append] at hsplit
  cases hsent : act.sent with
  | none =>
      rw [hsent, Option.toList_none, List.append_nil] at hsplit
      exact h.after_join before m after hsplit
  | some new =>
      rw [hsent, Option.toList_some] at hsplit
      rcases History.split_snoc hsplit with ⟨-, rfl, rfl⟩ | ⟨rest, -, hold⟩
      · rcases (hmove.sender hsent).2.2 with hjoin | ⟨hstarted, -⟩
        · exact Or.inl hjoin
        · have hcount := h.joins m.sessionId
          rw [hstarted] at hcount
          exact Or.inr (List.count_pos_iff.mp (by rw [hcount]; simp))
      · exact h.after_join before m rest hold

theorem Sessions.leave_last_step (h : Sessions sessionCount labels s)
    (hmove : SessionMove sessionCount s act s') (before : List RoomMessage) (id : SessionId)
    (after : List RoomMessage)
    (hsplit : sentMessages (labels ++ [act]) = before ++ .leave id :: after) :
    ∀ m ∈ after, m.sessionId ≠ id := by
  rw [sentMessages_append] at hsplit
  cases hsent : act.sent with
  | none =>
      rw [hsent, Option.toList_none, List.append_nil] at hsplit
      exact h.leave_last before id after hsplit
  | some new =>
      rw [hsent, Option.toList_some] at hsplit
      rcases History.split_snoc hsplit with ⟨rfl, -, -⟩ | ⟨rest, rfl, hold⟩
      · intro m hm
        cases hm
      · intro m hm
        rcases List.mem_append.mp hm with hrest | hnew
        · exact h.leave_last before id rest hold m hrest
        · rw [List.mem_singleton.mp hnew]
          rintro rfl
          have hcount := h.leaves new.sessionId
          have hpos : 0 < (sentMessages labels).count (.leave new.sessionId) :=
            List.count_pos_iff.mpr (by rw [hold]; simp)
          rw [(hmove.sender hsent).1] at hcount
          rw [hcount] at hpos
          cases hpos

theorem Sessions.step (h : Sessions sessionCount labels s) (hstep : Step sessionCount s act s') :
    Sessions sessionCount (labels ++ [act]) s' := by
  have hmove := step_sessionMove hstep
  have hstatus := hmove.status h.next_unborn
  constructor
  · rw [sentMessages_append, handledMessages_append, h.fifo, List.append_assoc, List.append_assoc,
      step_mailbox hstep]
  · have hold := h.accepted
    cases hmove with
    | accept hlt hsession haccepted => omega
    | none hsent hsession haccepted => omega
    | join k hpc hsession haccepted => omega
    | quiet k reader reader' writer writer' hpc hsent hdone hsession haccepted => omega
    | chat k text writer hpc hsession haccepted => omega
    | leave k writer hpc hsession haccepted => omega
  · exact hmove.born h.born
  · intro m hm
    rw [sentMessages_append] at hm
    rcases List.mem_append.mp hm with hold | hnew
    · have hstarted := (hstatus m.sessionId).1
      rw [h.started m hold] at hstarted
      cases hvalue : (s'.session m.sessionId).started with
      | true => rfl
      | false =>
          rw [hvalue] at hstarted
          simp only [Bool.toNat_false, Bool.toNat_true] at hstarted
          omega
    · exact (hmove.sender (Option.mem_toList.mp hnew)).2.1
  · intro id inbox hm
    rw [sentMessages_append] at hm
    rcases List.mem_append.mp hm with hold | hnew
    · exact h.join_inbox id inbox hold
    · rcases (hmove.sender (Option.mem_toList.mp hnew)).2.2 with hjoin | ⟨-, hnot⟩
      · exact (RoomMessage.join.inj hjoin).2
      · exact absurd rfl (hnot id inbox)
  · intro id
    rw [sentMessages_append, List.count_append, h.joins id, (hstatus id).1]
  · intro id
    rw [sentMessages_append, List.count_append, h.leaves id, (hstatus id).2]
  · exact h.after_join_step hmove
  · exact h.leave_last_step hmove

end Steps

end CppWorkspace.Actors.ActorChat
