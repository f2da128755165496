import CppWorkspace.Actors.ChatSessions

/-!
What the room has sent to each inbox. The members are the sessions whose join
and not whose leave has been handled, and a session hears its welcome and then
one line for each message of another session handled while it is a member.
-/

namespace CppWorkspace.Actors.ActorChat

open Lib System

/-- What the others hear of a message, in the words of the source. -/
def RoomMessage.announcement : RoomMessage → Text
  | .join id _ => "* session ".toList ++ toText id ++ " joined".toList
  | .leave id => "* session ".toList ++ toText id ++ " left".toList
  | .chat id text => "session ".toList ++ toText id ++ ": ".toList ++ text

/-- The line that a member hears of another session's message. -/
def line (id : SessionId) (m : RoomMessage) : Option Text :=
  if m.sessionId = id then none else some m.announcement

/-- The join of the session has been handled and its leave has not. -/
def InRoom (messages : List RoomMessage) (id : SessionId) : Prop :=
  .join id id ∈ messages ∧ .leave id ∉ messages

instance (messages : List RoomMessage) (id : SessionId) : Decidable (InRoom messages id) :=
  inferInstanceAs (Decidable (_ ∧ _))

/-- What a session hears of the message handled at a position. -/
def heardAt (id : SessionId) (messages : List RoomMessage) (i : Nat) : Option Text :=
  if InRoom (messages.take i) id then messages[i]?.bind (line id) else none

/-- The positions of the messages that a session hears of, in handling order. -/
def heardEvents (id : SessionId) (messages : List RoomMessage) : List Nat :=
  (List.range messages.length).filter (fun i => (heardAt id messages i).isSome)

/-- The texts for a session once these messages have been handled. -/
def heard (id : SessionId) (messages : List RoomMessage) : List Text :=
  if .join id id ∈ messages then
    ("welcome, you are session ".toList ++ toText id) ::
      (heardEvents id messages).filterMap (heardAt id messages)
  else []

def addressed (id : SessionId) (e : SessionId × Text) : Option Text :=
  if e.1 = id then some e.2 else none

def Act.delivered (id : SessionId) : Act → Option Text
  | .deliver other text => addressed id (other, text)
  | _ => none

/-- The texts sent to the inbox of a session. -/
def delivered (labels : List Act) (id : SessionId) : List Text :=
  labels.filterMap (Act.delivered id)

/-- The texts of the message being handled that are still to be sent. -/
def RoomPc.pending (id : SessionId) : RoomPc → List Text
  | .sending texts _ => texts.filterMap (addressed id)
  | .receiving | .returned | .threw | .nullInbox => []

/-- The session that becomes a member once its texts are sent. -/
def RoomPc.inserting : RoomPc → Option SessionId
  | .sending _ (.insert id _) => some id
  | .sending _ .check | .receiving | .returned | .threw | .nullInbox => none

def RoomMessage.isJoin : RoomMessage → Bool
  | .join _ _ => true
  | .leave _ | .chat _ _ => false

structure RoomView (sessionCount : Nat) (labels : List Act) (s : State) : Prop where
  members : ∀ id inbox, (id, inbox) ∈ s.room.members.entries ↔
    inbox = id ∧ InRoom (handledMessages labels) id ∧ s.room.pc.inserting ≠ some id
  inserting : ∀ texts id inbox, s.room.pc = .sending texts (.insert id inbox) →
    inbox = id ∧ InRoom (handledMessages labels) id
  recipients : ∀ texts after, s.room.pc = .sending texts after →
    ∀ e ∈ texts, InRoom (handledMessages labels) e.1
  texts : ∀ id, delivered labels id ++ s.room.pc.pending id = heard id (handledMessages labels)
  total : s.room.totalJoined = (handledMessages labels).countP RoomMessage.isJoin
  returned : s.room.pc = .returned →
    s.room.totalJoined = sessionCount ∧ s.room.members.entries = []
  safe : s.room.pc ≠ .threw ∧ s.room.pc ≠ .nullInbox
  closed : ∀ id, (s.inbox id).closed = true ↔ .leave id ∈ handledMessages labels

theorem roomView_initial (sessionCount mailboxCapacity inboxCapacity : Nat) :
    RoomView sessionCount [] (started mailboxCapacity inboxCapacity) where
  members := by simp [started, OrdMap.empty, InRoom, handledMessages]
  inserting := by simp [started]
  recipients := by simp [started]
  texts := by simp [started, delivered, heard, handledMessages, RoomPc.pending]
  total := rfl
  returned := by simp [started]
  safe := by simp [started]
  closed := by simp [started, handledMessages]

/-! What a message adds to what a session hears. -/

theorem inRoom_snoc {messages : List RoomMessage} {m : RoomMessage} {id : SessionId}
    (hother : m.sessionId ≠ id) : InRoom (messages ++ [m]) id ↔ InRoom messages id := by
  have hjoin : RoomMessage.join id id ≠ m := by
    rintro rfl
    exact hother rfl
  have hleave : RoomMessage.leave id ≠ m := by
    rintro rfl
    exact hother rfl
  simp [InRoom, hjoin, hleave]

theorem heardEvents_eq (id : SessionId) (messages : List RoomMessage) :
    (heardEvents id messages).filterMap (heardAt id messages) =
      (List.range messages.length).filterMap (heardAt id messages) := by
  rw [heardEvents, List.filterMap_filter]
  congr 1
  funext i
  cases heardAt id messages i <;> rfl

theorem heardAt_append {messages : List RoomMessage} {i : Nat} (hi : i < messages.length)
    (id : SessionId) (m : RoomMessage) :
    heardAt id (messages ++ [m]) i = heardAt id messages i := by
  rw [heardAt, heardAt, List.take_append_of_le_length (Nat.le_of_lt hi),
    List.getElem?_append_left hi]

theorem heardAt_last (id : SessionId) (messages : List RoomMessage) (m : RoomMessage) :
    heardAt id (messages ++ [m]) messages.length =
      if InRoom messages id then line id m else none := by
  simp [heardAt]

theorem heardLines_snoc (id : SessionId) (messages : List RoomMessage) (m : RoomMessage) :
    (heardEvents id (messages ++ [m])).filterMap (heardAt id (messages ++ [m])) =
      (heardEvents id messages).filterMap (heardAt id messages) ++
        (if InRoom messages id then line id m else none).toList := by
  rw [heardEvents_eq, heardEvents_eq, List.length_append, List.length_singleton, List.range_succ,
    History.filterMap_snoc, heardAt_last]
  congr 1
  apply List.filterMap_congr
  intro i hi
  exact heardAt_append (List.mem_range.mp hi) id m

theorem heardLines_of_not_joined {id : SessionId} {messages : List RoomMessage}
    (hout : .join id id ∉ messages) :
    (heardEvents id messages).filterMap (heardAt id messages) = [] := by
  rw [List.filterMap_eq_nil_iff]
  intro i _
  rw [heardAt, if_neg]
  rintro ⟨hjoin, -⟩
  exact hout (List.mem_of_mem_take hjoin)

theorem heard_joined {messages : List RoomMessage} {id : SessionId}
    (hout : .join id id ∉ messages) :
    heard id messages = [] ∧ heard id (messages ++ [.join id id]) = [welcome id] := by
  have hnot : ¬ InRoom messages id := fun h => hout h.1
  rw [heard, if_neg hout, heard, if_pos (by simp), heardLines_snoc,
    heardLines_of_not_joined hout, if_neg hnot]
  exact ⟨rfl, rfl⟩

theorem heard_snoc {messages : List RoomMessage} {m : RoomMessage} {id : SessionId}
    (hm : m ≠ .join id id) :
    heard id (messages ++ [m]) =
      heard id messages ++ (if InRoom messages id then line id m else none).toList := by
  have hjoin : .join id id ∈ messages ++ [m] ↔ .join id id ∈ messages := by
    simp [Ne.symm hm]
  by_cases hin : .join id id ∈ messages
  · rw [heard, if_pos (hjoin.mpr hin), heard, if_pos hin, heardLines_snoc, List.cons_append]
  · have hnot : ¬ InRoom messages id := fun h => hin h.1
    rw [heard, if_neg (fun h => hin (hjoin.mp h)), heard, if_neg hin, if_neg hnot]
    rfl

/-- A broadcast reaches a member once, unless it is the excepted one. -/
theorem broadcast_addressed {room : Room} (hentries : ∀ e ∈ room.members.entries, e.2 = e.1)
    (except : Option SessionId) (text : Text) (id : SessionId) :
    (room.broadcast except text).filterMap (addressed id) =
      if (id, id) ∈ room.members.entries ∧ some id ≠ except then [text] else [] := by
  have hpick : (room.broadcast except text).filterMap (addressed id) =
      ((room.members.entries.filter (fun e => decide (e.1 = id))).filter
        (fun e => decide (some e.1 ≠ except))).map (fun _ => text) := by
    rw [Room.broadcast, List.filterMap_map, List.filter_filter, List.filterMap_filter,
      ← List.filterMap_eq_map, List.filterMap_filter]
    apply List.filterMap_congr
    intro e he
    have hvalue := hentries e he
    by_cases hid : e.1 = id <;> by_cases hexcept : some id = except <;>
      simp [addressed, hvalue, hid, hexcept]
  rw [hpick, OrdMap.filter_key]
  cases hfind : room.members.find? id with
  | none =>
      have hnot : (id, id) ∉ room.members.entries := by
        intro hmem
        cases hfind.symm.trans (OrdMap.find?_eq_some.mpr hmem)
      simp [hnot]
  | some inbox =>
      have hmem := OrdMap.find?_eq_some.mp hfind
      have hinbox : inbox = id := hentries _ hmem
      rw [hinbox] at hmem
      by_cases hexcept : some id = except
      · simp [hexcept]
      · simp [hmem, hexcept]

/-- What handling a message adds to the texts for a session. -/
def news (id : SessionId) (messages : List RoomMessage) (m : RoomMessage) : List Text :=
  if m = .join id id then [welcome id]
  else (if InRoom messages id then line id m else none).toList

theorem heard_handled {messages : List RoomMessage} {m : RoomMessage} {id : SessionId}
    (hnew : m = .join id id → .join id id ∉ messages) :
    heard id (messages ++ [m]) = heard id messages ++ news id messages m := by
  by_cases hm : m = .join id id
  · obtain ⟨hbefore, hafter⟩ := heard_joined (hnew hm)
    rw [news, if_pos hm, hm, hbefore, hafter]
    rfl
  · rw [news, if_neg hm, heard_snoc hm]

theorem broadcast_news {room : Room} (messages : List RoomMessage) (m : RoomMessage)
    (except : Option SessionId) (hentries : ∀ e ∈ room.members.entries, e.2 = e.1)
    (hmembers : ∀ id, (id, id) ∈ room.members.entries ∧ some id ≠ except ↔
      InRoom messages id ∧ m.sessionId ≠ id) (id : SessionId) :
    (room.broadcast except m.announcement).filterMap (addressed id) =
      (if InRoom messages id then line id m else none).toList := by
  rw [broadcast_addressed hentries]
  by_cases hin : InRoom messages id
  · by_cases hid : m.sessionId = id
    · rw [if_neg (fun h => ((hmembers id).mp h).2 hid), if_pos hin, line, if_pos hid]
      rfl
    · rw [if_pos ((hmembers id).mpr ⟨hin, hid⟩), if_pos hin, line, if_neg hid]
      rfl
  · rw [if_neg (fun h => hin ((hmembers id).mp h).1), if_neg hin]
    rfl

theorem broadcast_recipient {room : Room} (hentries : ∀ e ∈ room.members.entries, e.2 = e.1)
    {except : Option SessionId} {text : Text} {e : SessionId × Text}
    (he : e ∈ room.broadcast except text) : (e.1, e.1) ∈ room.members.entries := by
  obtain ⟨⟨key, inbox⟩, hmember, rfl⟩ := List.mem_map.mp he
  have hmem := (List.mem_filter.mp hmember).1
  obtain rfl : inbox = key := hentries _ hmem
  exact hmem

section Steps

variable {sessionCount : Nat} {labels : List Act} {s s' : State} {act : Act}

/-- The message at the head of the mailbox: a join is the first of its session,
anything else comes from a session in the room. -/
theorem Sessions.next {m : RoomMessage} {rest : List RoomMessage}
    (h : Sessions sessionCount labels s) (hhead : s.mailbox.buffer = m :: rest) :
    .leave m.sessionId ∉ handledMessages labels ∧
      (m = .join m.sessionId m.sessionId ∧
          .join m.sessionId m.sessionId ∉ handledMessages labels ∨
        (∀ id inbox, m ≠ .join id inbox) ∧
          .join m.sessionId m.sessionId ∈ handledMessages labels) := by
  have hfifo := h.fifo
  rw [hhead] at hfifo
  have hleave : .leave m.sessionId ∉ handledMessages labels := by
    intro hleft
    obtain ⟨before, after, hsplit⟩ := List.append_of_mem hleft
    rw [hsplit, List.append_assoc, List.cons_append] at hfifo
    exact h.leave_last before m.sessionId (after ++ m :: rest) hfifo m (by simp) rfl
  refine ⟨hleave, ?_⟩
  rcases h.after_join _ m rest hfifo with hjoin | hjoined
  · refine Or.inl ⟨hjoin, fun hbefore => ?_⟩
    have hcount := h.joins m.sessionId
    rw [hfifo, List.count_append, List.count_cons, ← hjoin, if_pos (by simp)] at hcount
    have hone : 0 < (handledMessages labels).count m :=
      List.count_pos_iff.mpr (by rwa [← hjoin] at hbefore)
    have hle := Bool.toNat_le (s.session m.sessionId).started
    omega
  · refine Or.inr ⟨?_, hjoined⟩
    rintro id inbox rfl
    have hsent : RoomMessage.join id inbox ∈ sentMessages labels := by
      rw [hfifo]
      simp
    obtain rfl := h.join_inbox id inbox hsent
    have hcount := h.joins inbox
    rw [hfifo, List.count_append, List.count_cons, if_pos (by simp)] at hcount
    have hone : 0 < (handledMessages labels).count (.join inbox inbox) :=
      List.count_pos_iff.mpr hjoined
    have hle := Bool.toNat_le (s.session inbox).started
    omega

theorem RoomView.member_value (h : RoomView sessionCount labels s) :
    ∀ e ∈ s.room.members.entries, e.2 = e.1 :=
  fun e he => ((h.members e.1 e.2).mp he).1

/-- While it waits for a message the room has sent all it has to send. -/
theorem RoomView.receiving (h : RoomView sessionCount labels s) (hpc : s.room.pc = .receiving) :
    (∀ id inbox, (id, inbox) ∈ s.room.members.entries ↔
        inbox = id ∧ InRoom (handledMessages labels) id) ∧
      ∀ id, delivered labels id = heard id (handledMessages labels) := by
  refine ⟨fun id inbox => ?_, fun id => ?_⟩
  · rw [h.members, hpc]
    simp [RoomPc.inserting]
  · rw [← h.texts, hpc, RoomPc.pending, List.append_nil]

theorem RoomView.serve_join (h : RoomView sessionCount labels s) (hpc : s.room.pc = .receiving)
    {id : SessionId} (hnew : .join id id ∉ handledMessages labels)
    (hleave : .leave id ∉ handledMessages labels) (mailbox : Channel RoomMessage) :
    RoomView sessionCount (labels ++ [.handle (.join id id)])
      ({ s with mailbox := mailbox }.serve (.join id id)) := by
  obtain ⟨hmembers, htexts⟩ := h.receiving hpc
  have hhandled : handledMessages (labels ++ [.handle (.join id id)]) =
      handledMessages labels ++ [.join id id] := handledMessages_append _ _
  have hself : InRoom (handledMessages labels ++ [.join id id]) id := by
    simp [InRoom, hleave]
  have hgrow : ∀ other, InRoom (handledMessages labels) other →
      InRoom (handledMessages labels ++ [.join id id]) other := by
    rintro other ⟨hin, hout⟩
    exact ⟨List.mem_append_left _ hin, by simp [hout]⟩
  constructor
  · intro other inbox
    rw [hhandled]
    simp only [State.serve, RoomPc.inserting, ne_eq, Option.some.injEq]
    rw [hmembers]
    by_cases hother : id = other
    · subst hother
      simp [InRoom, hnew]
    · rw [inRoom_snoc (m := .join id id) hother]
      simp [hother]
  · intro texts other inbox heq
    cases heq
    rw [hhandled]
    exact ⟨rfl, hself⟩
  · intro texts after heq e he
    cases heq
    rw [hhandled]
    rcases List.mem_cons.mp he with rfl | he
    · exact hself
    · exact hgrow _ ((hmembers _ _).mp (broadcast_recipient h.member_value he)).2
  · intro other
    have hdelivered : delivered (labels ++ [.handle (.join id id)]) other =
        delivered labels other := by
      simp [delivered, Act.delivered]
    rw [hhandled, hdelivered, htexts, heard_handled]
    · congr 1
      have hbroadcast := broadcast_news (handledMessages labels) (.join id id) none
        h.member_value (fun k => by
          rw [hmembers]
          simp only [RoomMessage.sessionId, true_and, ne_eq, reduceCtorEq, not_false_eq_true,
            and_true]
          refine ⟨fun hk => ⟨hk, ?_⟩, And.left⟩
          rintro rfl
          exact hnew hk.1) other
      simp only [State.serve, RoomPc.pending]
      by_cases hother : id = other
      · subst hother
        rw [List.filterMap_cons_some (b := welcome id) (by simp [addressed])]
        rw [if_neg (fun hk => hnew hk.1)] at hbroadcast
        have hnotice : joinedNotice id = (RoomMessage.join id id).announcement := rfl
        rw [news, if_pos rfl, hnotice, hbroadcast]
        rfl
      · rw [List.filterMap_cons_none (by simp [addressed, hother]), news,
          if_neg (by simpa using fun heq => absurd heq hother)]
        exact hbroadcast
    · intro heq
      cases heq
      exact hnew
  · rw [hhandled, List.countP_append, ← h.total]
    rfl
  · intro heq
    cases heq
  · simp [State.serve]
  · intro other
    rw [hhandled]
    simpa [State.serve] using h.closed other

theorem RoomView.serve_leave (h : RoomView sessionCount labels s) (hpc : s.room.pc = .receiving)
    {id : SessionId} (hin : InRoom (handledMessages labels) id) (mailbox : Channel RoomMessage) :
    RoomView sessionCount (labels ++ [.handle (.leave id)])
      ({ s with mailbox := mailbox }.serve (.leave id)) := by
  obtain ⟨hmembers, htexts⟩ := h.receiving hpc
  have hhandled : handledMessages (labels ++ [.handle (.leave id)]) =
      handledMessages labels ++ [.leave id] := handledMessages_append _ _
  have hfind : s.room.members.find? id = some id :=
    OrdMap.find?_eq_some.mpr ((hmembers id id).mpr ⟨rfl, hin⟩)
  have hout : ¬ InRoom (handledMessages labels ++ [.leave id]) id := by
    simp [InRoom]
  have hrest : ∀ e ∈ (s.room.members.erase id).entries, e.2 = e.1 :=
    fun e he => h.member_value e (OrdMap.mem_erase.mp he).1
  simp only [State.serve, hfind]
  constructor
  · intro other inbox
    rw [hhandled]
    simp only [RoomPc.inserting, ne_eq, reduceCtorEq, not_false_eq_true, and_true]
    rw [OrdMap.mem_erase, hmembers]
    by_cases hother : id = other
    · subst hother
      simp [hout]
    · rw [inRoom_snoc (m := .leave id) hother]
      simp [Ne.symm hother]
  · intro texts other inbox heq
    cases heq
  · intro texts after heq e he
    cases heq
    rw [hhandled]
    have hmem := OrdMap.mem_erase.mp (broadcast_recipient hrest he)
    rw [inRoom_snoc (m := .leave id) (Ne.symm hmem.2)]
    exact ((hmembers _ _).mp hmem.1).2
  · intro other
    have hdelivered : delivered (labels ++ [.handle (.leave id)]) other =
        delivered labels other := by
      simp [delivered, Act.delivered]
    rw [hhandled, hdelivered, htexts, heard_handled (by simp), news, if_neg (by simp)]
    congr 1
    refine broadcast_news _ (.leave id) none hrest (fun k => ?_) other
    simp only [OrdMap.mem_erase, hmembers, RoomMessage.sessionId, true_and, ne_eq, reduceCtorEq,
      not_false_eq_true, and_true, eq_comm]
  · rw [hhandled, List.countP_append, ← h.total]
    rfl
  · intro heq
    cases heq
  · simp
  · intro other
    rw [hhandled]
    by_cases hother : other = id
    · simp [hother]
    · simpa [hother] using h.closed other

theorem RoomView.serve_chat (h : RoomView sessionCount labels s) (hpc : s.room.pc = .receiving)
    (id : SessionId) (text : Text) (mailbox : Channel RoomMessage) :
    RoomView sessionCount (labels ++ [.handle (.chat id text)])
      ({ s with mailbox := mailbox }.serve (.chat id text)) := by
  obtain ⟨hmembers, htexts⟩ := h.receiving hpc
  have hhandled : handledMessages (labels ++ [.handle (.chat id text)]) =
      handledMessages labels ++ [.chat id text] := handledMessages_append _ _
  have hsame : ∀ other, InRoom (handledMessages labels ++ [.chat id text]) other ↔
      InRoom (handledMessages labels) other := by
    simp [InRoom]
  constructor
  · intro other inbox
    rw [hhandled, hsame]
    simp only [State.serve, RoomPc.inserting, ne_eq, reduceCtorEq, not_false_eq_true, and_true]
    exact hmembers other inbox
  · intro texts other inbox heq
    cases heq
  · intro texts after heq e he
    cases heq
    rw [hhandled, hsame]
    exact ((hmembers _ _).mp (broadcast_recipient h.member_value he)).2
  · intro other
    have hdelivered : delivered (labels ++ [.handle (.chat id text)]) other =
        delivered labels other := by
      simp [delivered, Act.delivered]
    rw [hhandled, hdelivered, htexts, heard_handled (by simp), news, if_neg (by simp)]
    congr 1
    refine broadcast_news _ (.chat id text) (some id) h.member_value (fun k => ?_) other
    simp only [hmembers, RoomMessage.sessionId, true_and, ne_eq, Option.some.injEq, eq_comm]
  · rw [hhandled, List.countP_append, ← h.total]
    rfl
  · intro heq
    cases heq
  · simp [State.serve]
  · intro other
    rw [hhandled]
    simpa [State.serve] using h.closed other

/-- A step that neither handles nor delivers leaves the view as it is. -/
theorem RoomView.frame (h : RoomView sessionCount labels s) (hroom : s'.room = s.room)
    (hclosed : ∀ id, (s'.inbox id).closed = (s.inbox id).closed) (hhandle : act.handled = none)
    (hdeliver : ∀ id, act.delivered id = none) : RoomView sessionCount (labels ++ [act]) s' := by
  have hhandled : handledMessages (labels ++ [act]) = handledMessages labels := by
    rw [handledMessages_append, hhandle, Option.toList_none, List.append_nil]
  have hdelivered : ∀ id, delivered (labels ++ [act]) id = delivered labels id := by
    intro id
    rw [delivered, History.filterMap_snoc, hdeliver, Option.toList_none, List.append_nil, delivered]
  constructor
  · rw [hroom, hhandled]
    exact h.members
  · rw [hroom, hhandled]
    exact h.inserting
  · rw [hroom, hhandled]
    exact h.recipients
  · rw [hroom, hhandled]
    intro id
    rw [hdelivered]
    exact h.texts id
  · rw [hroom, hhandled]
    exact h.total
  · rw [hroom]
    exact h.returned
  · rw [hroom]
    exact h.safe
  · rw [hhandled]
    intro id
    rw [hclosed]
    exact h.closed id

theorem RoomView.deliver (h : RoomView sessionCount labels s) {id : SessionId} {text : Text}
    {texts : List (SessionId × Text)} {after : After} {inbox : Channel Text}
    (hpc : s.room.pc = .sending ((id, text) :: texts) after)
    (hput : (s.inbox id).put text = some inbox) :
    RoomView sessionCount (labels ++ [.deliver id text]) { s with
      inbox := Function.update s.inbox id inbox
      room := { s.room with pc := .sending texts after } } := by
  have hhandled : handledMessages (labels ++ [.deliver id text]) = handledMessages labels := by
    simp [Act.handled]
  have hsame : (RoomPc.sending texts after).inserting = s.room.pc.inserting := by
    rw [hpc]
    cases after <;> rfl
  constructor
  · intro other value
    rw [hhandled, hsame]
    exact h.members other value
  · intro rest other value heq
    rw [hhandled]
    cases heq
    exact h.inserting _ other value hpc
  · intro rest next heq e he
    rw [hhandled]
    cases heq
    exact h.recipients _ _ hpc e (List.mem_cons_of_mem _ he)
  · intro other
    rw [hhandled, ← h.texts other, hpc, delivered, History.filterMap_snoc, List.append_assoc]
    congr 1
    cases hto : addressed other (id, text) with
    | none => simp [Act.delivered, RoomPc.pending, hto]
    | some value => simp [Act.delivered, RoomPc.pending, hto]
  · rw [hhandled]
    exact h.total
  · intro heq
    cases heq
  · simp
  · intro other
    rw [hhandled]
    by_cases hother : other = id
    · obtain ⟨hopen, -, -, hstill, -⟩ := Channel.put_spec hput
      rw [hother, ← h.closed]
      simp [hopen, hstill]
    · simpa [hother] using h.closed other

theorem RoomView.settle (h : RoomView sessionCount labels s) {after : After}
    (hpc : s.room.pc = .sending [] after) :
    RoomView sessionCount (labels ++ [.settle])
      { s with room := s.room.settled sessionCount after } := by
  have hhandled : handledMessages (labels ++ [.settle]) = handledMessages labels := by
    simp [Act.handled]
  have hmembers : ∀ id inbox, (id, inbox) ∈ (s.room.settled sessionCount after).members.entries ↔
      inbox = id ∧ InRoom (handledMessages labels) id := by
    intro id inbox
    cases after with
    | check =>
        have hold := h.members id inbox
        rw [hpc] at hold
        simp only [Room.settled]
        split <;> simpa [RoomPc.inserting] using hold
    | insert new value =>
        obtain ⟨rfl, hnew⟩ := h.inserting _ _ _ hpc
        have hold := h.members id inbox
        rw [hpc] at hold
        have hinsert : (id, inbox) ∈ (s.room.members.insert value value).entries ↔
            inbox = id ∧ InRoom (handledMessages labels) id := by
          rw [OrdMap.mem_insert, hold]
          by_cases hid : id = value
          · subst hid
            simp [hnew]
          · simp [RoomPc.inserting, hid, Ne.symm hid]
        simp only [Room.settled]
        split <;> exact hinsert
  have htotal : (s.room.settled sessionCount after).totalJoined = s.room.totalJoined := by
    cases after <;> (simp only [Room.settled]; split <;> rfl)
  have hnext : (s.room.settled sessionCount after).pc = .receiving ∨
      (s.room.settled sessionCount after).pc = .returned ∧
        s.room.totalJoined = sessionCount ∧
          (s.room.settled sessionCount after).members.entries = [] := by
    cases after with
    | check =>
        simp only [Room.settled]
        split
        · next hdone => exact Or.inr ⟨rfl, hdone⟩
        · exact Or.inl rfl
    | insert new value =>
        simp only [Room.settled]
        split
        · next hdone => exact Or.inr ⟨rfl, hdone⟩
        · exact Or.inl rfl
  have hpending : ∀ id, (s.room.settled sessionCount after).pc.pending id = [] := by
    intro id
    rcases hnext with hnext | ⟨hnext, -⟩ <;> rw [hnext] <;> rfl
  have hinserting : (s.room.settled sessionCount after).pc.inserting = none := by
    rcases hnext with hnext | ⟨hnext, -⟩ <;> rw [hnext] <;> rfl
  have hsending : ∀ texts next, (s.room.settled sessionCount after).pc ≠ .sending texts next := by
    intro texts next
    rcases hnext with hnext | ⟨hnext, -⟩ <;> simp [hnext]
  constructor
  · intro id inbox
    rw [hhandled, hmembers, hinserting]
    simp
  · intro texts id inbox heq
    exact absurd heq (hsending _ _)
  · intro texts next heq
    exact absurd heq (hsending _ _)
  · intro id
    have hold := h.texts id
    rw [hpc] at hold
    rw [hhandled, hpending, ← hold]
    simp [delivered, Act.delivered, RoomPc.pending]
  · rw [hhandled, htotal]
    exact h.total
  · intro heq
    rcases hnext with hnext | ⟨-, hcount, hempty⟩
    · cases hnext.symm.trans heq
    · exact ⟨htotal.trans hcount, hempty⟩
  · rcases hnext with hnext | ⟨hnext, -⟩ <;> simp [hnext]
  · intro id
    rw [hhandled]
    exact h.closed id

/-- A send of the room goes to a member, whose inbox is open. -/
theorem RoomView.not_fails (h : RoomView sessionCount labels s) {id : SessionId} {text : Text}
    {texts : List (SessionId × Text)} {after : After}
    (hpc : s.room.pc = .sending ((id, text) :: texts) after) :
    (s.inbox id).closed ≠ true := by
  intro hclosed
  exact (h.recipients _ _ hpc (id, text) (by simp)).2 ((h.closed id).mp hclosed)

theorem RoomView.step (h : RoomView sessionCount labels s) (hsessions : Sessions sessionCount labels s)
    (hstep : Step sessionCount s act s') : RoomView sessionCount (labels ++ [act]) s' := by
  cases act with
  | handle m =>
      obtain ⟨mailbox, hpc, htake, rfl⟩ := hstep
      obtain ⟨hleave, hkind⟩ := hsessions.next (Channel.take_spec htake).1
      cases m with
      | join id inbox =>
          rcases hkind with ⟨hjoin, hnew⟩ | ⟨hnot, -⟩
          · obtain rfl : inbox = id := (RoomMessage.join.inj hjoin).2
            exact h.serve_join hpc hnew hleave mailbox
          · exact absurd rfl (hnot id inbox)
      | leave id =>
          rcases hkind with ⟨hjoin, -⟩ | ⟨-, hjoined⟩
          · cases hjoin
          · exact h.serve_leave hpc ⟨hjoined, hleave⟩ mailbox
      | chat id text => exact h.serve_chat hpc id text mailbox
  | deliver id text =>
      obtain ⟨texts, after, inbox, hpc, hput, rfl⟩ := hstep
      exact h.deliver hpc hput
  | deliverFails id =>
      obtain ⟨text, texts, after, hpc, hclosed, rfl⟩ := hstep
      exact absurd hclosed (h.not_fails hpc)
  | settle =>
      obtain ⟨after, hpc, rfl⟩ := hstep
      exact h.settle hpc
  | receiveText id text =>
      obtain ⟨reader, inbox, -, htake, rfl⟩ := hstep
      refine h.frame rfl (fun other => ?_) rfl (fun _ => rfl)
      by_cases hother : other = id
      · rw [hother]
        simp [State.setSession, (Channel.take_spec htake).2.1]
      · simp [State.setSession, hother]
  | accept =>
      obtain ⟨-, rfl⟩ := hstep
      exact h.frame rfl (fun _ => rfl) rfl (fun _ => rfl)
  | sendJoin id =>
      obtain ⟨mailbox, -, -, rfl⟩ := hstep
      exact h.frame rfl (fun _ => rfl) rfl (fun _ => rfl)
  | readLine id text =>
      obtain ⟨writer, -, rfl⟩ := hstep
      exact h.frame rfl (fun _ => rfl) rfl (fun _ => rfl)
  | sendChat id text =>
      obtain ⟨writer, mailbox, -, -, rfl⟩ := hstep
      exact h.frame rfl (fun _ => rfl) rfl (fun _ => rfl)
  | readEof id =>
      obtain ⟨writer, -, rfl⟩ := hstep
      exact h.frame rfl (fun _ => rfl) rfl (fun _ => rfl)
  | readError id =>
      obtain ⟨writer, -, rfl⟩ := hstep
      exact h.frame rfl (fun _ => rfl) rfl (fun _ => rfl)
  | sendLeave id =>
      obtain ⟨writer, mailbox, -, -, rfl⟩ := hstep
      exact h.frame rfl (fun _ => rfl) rfl (fun _ => rfl)
  | cancelReader id =>
      obtain ⟨reader, -, -, rfl⟩ := hstep
      exact h.frame rfl (fun _ => rfl) rfl (fun _ => rfl)
  | inboxClosed id =>
      obtain ⟨reader, -, -, rfl⟩ := hstep
      exact h.frame rfl (fun _ => rfl) rfl (fun _ => rfl)
  | writeDone id =>
      obtain ⟨reader, text, -, rfl⟩ := hstep
      exact h.frame rfl (fun _ => rfl) rfl (fun _ => rfl)
  | writeError id =>
      obtain ⟨reader, text, -, rfl⟩ := hstep
      exact h.frame rfl (fun _ => rfl) rfl (fun _ => rfl)
  | cancelWriter id =>
      obtain ⟨writer, -, -, rfl⟩ := hstep
      exact h.frame rfl (fun _ => rfl) rfl (fun _ => rfl)

end Steps

theorem run_roomView {sessionCount mailboxCapacity inboxCapacity : Nat} {labels : List Act}
    {s : State} (hrun : (chatSystem sessionCount mailboxCapacity inboxCapacity).Run
      (started mailboxCapacity inboxCapacity) labels s) :
    Sessions sessionCount labels s ∧ RoomView sessionCount labels s :=
  Run.preserves_history
    (I := fun labels s => Sessions sessionCount labels s ∧ RoomView sessionCount labels s)
    (fun _ _ _ _ h hstep => ⟨Sessions.step h.1 hstep, RoomView.step h.2 h.1 hstep⟩)
    ⟨sessions_initial sessionCount mailboxCapacity inboxCapacity,
      roomView_initial sessionCount mailboxCapacity inboxCapacity⟩ hrun

end CppWorkspace.Actors.ActorChat
