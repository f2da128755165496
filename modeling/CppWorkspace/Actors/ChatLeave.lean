import CppWorkspace.Actors.ChatShutdown

/-!
Sessions that are over. A reader that ends in order has handed its leave over,
and the room then drops the session; a reader that throws has not, and the
session stays a member.
-/

namespace CppWorkspace.Actors.ActorChat

open Lib System

/-- The reader of the session ends by an exception in this step: a read error
that is not the end of the file, or the cancellation that follows a failed
write. -/
def Act.readerFails (id : SessionId) : Act → Bool
  | .readError other | .cancelReader other => other == id
  | _ => false

/-- `room_actor` has handled all messages. -/
def State.RoomIdle (s : State) : Prop :=
  s.mailbox.buffer = [] ∧ (s.room.pc = .receiving ∨ s.room.pc = .returned)

/-- A session that is over is no member and its inbox is closed. -/
def State.Gone (s : State) (id : SessionId) : Prop :=
  s.room.members.find? id = none ∧ (s.inbox id).closed = true

def SessionPc.readerThrew : SessionPc → Bool
  | .running .threw _ => true
  | _ => false

/-- Which readers have thrown. -/
def Failures (labels : List Act) (s : State) : Prop :=
  ∀ id, (s.session id).readerThrew = labels.any (Act.readerFails id)

section Steps

variable {sessionCount : Nat} {labels : List Act} {s s' : State} {act : Act}

theorem Failures.frame (h : Failures labels s)
    (hsession : ∀ id, (s'.session id).readerThrew = (s.session id).readerThrew)
    (hact : ∀ id, act.readerFails id = false) : Failures (labels ++ [act]) s' := by
  intro id
  rw [hsession, h id, List.any_append, List.any_cons, hact]
  simp

theorem readerThrew_update {session : SessionId → SessionPc} {k : SessionId} {pc : SessionPc}
    (hpc : pc.readerThrew = (session k).readerThrew) (id : SessionId) :
    (Function.update session k pc id).readerThrew = (session id).readerThrew := by
  by_cases hid : id = k
  · rw [hid, Function.update_self, hpc]
  · rw [Function.update_of_ne hid]

theorem Failures.fail (h : Failures labels s) {k : SessionId} {writer : WriterPc}
    (hsession : s'.session = Function.update s.session k (.running .threw writer))
    (hact : ∀ id, act.readerFails id = (k == id)) : Failures (labels ++ [act]) s' := by
  intro id
  rw [hsession, List.any_append, List.any_cons, hact, ← h id]
  by_cases hid : id = k
  · simp [hid, SessionPc.readerThrew]
  · simp [hid, Ne.symm hid]

theorem Failures.step (h : Failures labels s) (hsessions : Sessions sessionCount labels s)
    (hstep : Step sessionCount s act s') : Failures (labels ++ [act]) s' := by
  cases act with
  | readError id =>
      obtain ⟨writer, -, rfl⟩ := hstep
      exact h.fail rfl (fun _ => rfl)
  | cancelReader id =>
      obtain ⟨reader, -, -, rfl⟩ := hstep
      exact h.fail rfl (fun _ => rfl)
  | accept =>
      obtain ⟨-, rfl⟩ := hstep
      exact h.frame (readerThrew_update (by rw [hsessions.next_unborn]; rfl)) (fun _ => rfl)
  | sendJoin id =>
      obtain ⟨mailbox, hpc, -, rfl⟩ := hstep
      exact h.frame (readerThrew_update (by rw [hpc]; rfl)) (fun _ => rfl)
  | readLine id text =>
      obtain ⟨writer, hpc, rfl⟩ := hstep
      exact h.frame (readerThrew_update (by rw [hpc]; rfl)) (fun _ => rfl)
  | sendChat id text =>
      obtain ⟨writer, mailbox, hpc, -, rfl⟩ := hstep
      exact h.frame (readerThrew_update (by rw [hpc]; rfl)) (fun _ => rfl)
  | readEof id =>
      obtain ⟨writer, hpc, rfl⟩ := hstep
      exact h.frame (readerThrew_update (by rw [hpc]; rfl)) (fun _ => rfl)
  | sendLeave id =>
      obtain ⟨writer, mailbox, hpc, -, rfl⟩ := hstep
      exact h.frame (readerThrew_update (by rw [hpc]; rfl)) (fun _ => rfl)
  | receiveText id text =>
      obtain ⟨reader, inbox, hpc, -, rfl⟩ := hstep
      exact h.frame (readerThrew_update (by rw [hpc]; cases reader <;> rfl)) (fun _ => rfl)
  | inboxClosed id =>
      obtain ⟨reader, hpc, -, rfl⟩ := hstep
      exact h.frame (readerThrew_update (by rw [hpc]; cases reader <;> rfl)) (fun _ => rfl)
  | writeDone id =>
      obtain ⟨reader, text, hpc, rfl⟩ := hstep
      exact h.frame (readerThrew_update (by rw [hpc]; cases reader <;> rfl)) (fun _ => rfl)
  | writeError id =>
      obtain ⟨reader, text, hpc, rfl⟩ := hstep
      exact h.frame (readerThrew_update (by rw [hpc]; cases reader <;> rfl)) (fun _ => rfl)
  | cancelWriter id =>
      obtain ⟨writer, hpc, -, rfl⟩ := hstep
      exact h.frame (readerThrew_update (by rw [hpc]; rfl)) (fun _ => rfl)
  | handle m =>
      obtain ⟨mailbox, -, -, rfl⟩ := hstep
      have hsame := (serve_session { s with mailbox := mailbox } m).1
      exact h.frame (fun id => by rw [hsame]) (fun _ => rfl)
  | deliver id text =>
      obtain ⟨texts, after, inbox, -, -, rfl⟩ := hstep
      exact h.frame (fun _ => rfl) (fun _ => rfl)
  | deliverFails id =>
      obtain ⟨text, texts, after, -, -, rfl⟩ := hstep
      exact h.frame (fun _ => rfl) (fun _ => rfl)
  | settle =>
      obtain ⟨after, -, rfl⟩ := hstep
      exact h.frame (fun _ => rfl) (fun _ => rfl)

theorem Sessions.all_handled (h : Sessions sessionCount labels s) (hidle : s.RoomIdle) :
    handledMessages labels = sentMessages labels := by
  rw [h.fifo, hidle.1, List.append_nil]

theorem RoomView.idle_members (h : RoomView sessionCount labels s) (hidle : s.RoomIdle)
    (id : SessionId) :
    s.room.members.find? id = none ↔ ¬ InRoom (handledMessages labels) id := by
  have hinserting : s.room.pc.inserting = none := by
    rcases hidle.2 with hpc | hpc <;> rw [hpc] <;> rfl
  rw [OrdMap.find?_eq_none]
  constructor
  · intro hnone hin
    exact hnone (id, id) ((h.members id id).mpr ⟨rfl, hin, by simp [hinserting]⟩) rfl
  · rintro hout ⟨key, inbox⟩ hmem rfl
    exact hout ((h.members key inbox).mp hmem).2.1

end Steps

theorem run_failures {sessionCount mailboxCapacity inboxCapacity : Nat} {labels : List Act}
    {s : State} (hrun : (chatSystem sessionCount mailboxCapacity inboxCapacity).Run
      (started mailboxCapacity inboxCapacity) labels s) : Failures labels s :=
  (Run.preserves_history
    (I := fun labels s => Sessions sessionCount labels s ∧ Failures labels s)
    (fun _ _ _ _ h hstep => ⟨Sessions.step h.1 hstep, Failures.step h.2 h.1 hstep⟩)
    ⟨sessions_initial sessionCount mailboxCapacity inboxCapacity, fun _ => rfl⟩ hrun).2

/-- In every run: when a session is over and the room has handled all messages,
the session is gone from the room exactly if its reader never ended by an
exception. -/
theorem finished_gone_iff {sessionCount mailboxCapacity inboxCapacity : Nat} {labels : List Act}
    {s : State} (hrun : (chatSystem sessionCount mailboxCapacity inboxCapacity).Run
      (started mailboxCapacity inboxCapacity) labels s) (id : SessionId)
    (hfinished : (s.session id).finished = true) (hidle : s.RoomIdle) :
    s.Gone id ↔ ∀ act ∈ labels, act.readerFails id = false := by
  obtain ⟨hsessions, hview⟩ := run_roomView hrun
  have hhandled := hsessions.all_handled hidle
  have hfail : (∀ act ∈ labels, act.readerFails id = false) ↔
      (s.session id).readerThrew = false := by
    rw [run_failures hrun id, List.any_eq_false]
    simp
  have hjoins := hsessions.joins id
  have hleaves := hsessions.leaves id
  rw [hfail, State.Gone, hview.idle_members hidle, hview.closed, hhandled]
  cases hpc : s.session id with
  | unborn => simp [hpc, SessionPc.finished] at hfinished
  | joining => simp [hpc, SessionPc.finished] at hfinished
  | running reader writer =>
      rw [hpc] at hfinished hjoins hleaves
      have hjoin : .join id id ∈ sentMessages labels :=
        List.count_pos_iff.mp (by rw [hjoins]; exact Nat.zero_lt_one)
      cases reader with
      | returned =>
          have hleave : .leave id ∈ sentMessages labels :=
            List.count_pos_iff.mp (by rw [hleaves]; exact Nat.zero_lt_one)
          simp [InRoom, hleave, SessionPc.readerThrew]
      | threw =>
          have hleave : .leave id ∉ sentMessages labels :=
            List.count_eq_zero.mp hleaves
          simp [hleave, SessionPc.readerThrew]
      | reading => simp [SessionPc.finished, ReaderPc.ended] at hfinished
      | sendingChat text => simp [SessionPc.finished, ReaderPc.ended] at hfinished
      | sendingLeave => simp [SessionPc.finished, ReaderPc.ended] at hfinished

/-- The client of one session closes its end. -/
theorem finished_gone_after_eof : ∃ labels s,
    (chatSystem 1 16 16).Run (started 16 16) labels s ∧ (s.session 1).finished = true ∧
      s.Gone 1 := by
  obtain ⟨labels, s, hrun, hfinished, hidle, horder⟩ : ∃ labels s,
      (chatSystem 1 16 16).Run (started 16 16) labels s ∧ (s.session 1).finished = true ∧
        s.RoomIdle ∧ ∀ act ∈ labels, act.readerFails 1 = false :=
    ⟨_, _,
      Run.cons Act.accept ⟨by decide, rfl⟩ <|
      Run.cons (Act.sendJoin 1) ⟨_, rfl, rfl, rfl⟩ <|
      Run.cons (Act.handle (.join 1 1)) ⟨_, rfl, rfl, rfl⟩ <|
      Run.cons (Act.deliver 1 (welcome 1)) ⟨_, _, _, rfl, rfl, rfl⟩ <|
      Run.cons Act.settle ⟨_, rfl, rfl⟩ <|
      Run.cons (Act.readEof 1) ⟨_, rfl, rfl⟩ <|
      Run.cons (Act.sendLeave 1) ⟨_, _, rfl, rfl, rfl⟩ <|
      Run.cons (Act.handle (.leave 1)) ⟨_, rfl, rfl, rfl⟩ <|
      Run.cons Act.settle ⟨_, rfl, rfl⟩ <|
      Run.cons (Act.receiveText 1 (welcome 1)) ⟨_, _, rfl, rfl, rfl⟩ <|
      Run.cons (Act.writeDone 1) ⟨_, _, rfl, rfl⟩ <|
      Run.cons (Act.inboxClosed 1) ⟨_, rfl, ⟨rfl, rfl⟩, rfl⟩ .nil,
      rfl, ⟨rfl, Or.inr rfl⟩, by simp [Act.readerFails]⟩
  exact ⟨labels, s, hrun, hfinished, (finished_gone_iff hrun 1 hfinished hidle).mpr horder⟩

/-- After a connection reset the session is over and still a member. -/
theorem finished_stays_after_reset : ∃ labels s,
    (chatSystem 1 16 16).Run (started 16 16) labels s ∧ (s.session 1).finished = true ∧
      s.RoomIdle ∧ s.room.members.find? 1 = some 1 ∧ (s.inbox 1).closed = false ∧ ¬ s.Gone 1 :=
  ⟨_, _,
    Run.cons Act.accept ⟨by decide, rfl⟩ <|
    Run.cons (Act.sendJoin 1) ⟨_, rfl, rfl, rfl⟩ <|
    Run.cons (Act.handle (.join 1 1)) ⟨_, rfl, rfl, rfl⟩ <|
    Run.cons (Act.deliver 1 (welcome 1)) ⟨_, _, _, rfl, rfl, rfl⟩ <|
    Run.cons Act.settle ⟨_, rfl, rfl⟩ <|
    Run.cons (Act.readError 1) ⟨_, rfl, rfl⟩ <|
    Run.cons (Act.cancelWriter 1) ⟨_, rfl, rfl, rfl⟩ .nil,
    rfl, ⟨rfl, Or.inl rfl⟩, rfl, rfl, fun hgone => by cases hgone.1⟩

end CppWorkspace.Actors.ActorChat
