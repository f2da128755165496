import CppWorkspace.Lib.Channel
import CppWorkspace.Lib.OrdMap
import CppWorkspace.Lib.Transition

/-!
`actor_chat.cpp`: an accept loop that starts one session for each connection, a
reader and a writer in each session, and the room that owns the members. A
session's inbox is named by the session that created it. What arrives on a
socket and how it fails are labels. `a && b` waits for both sides; a side that
throws cancels the other.
-/

namespace CppWorkspace.Actors.ActorChat

open Lib

abbrev Text := List Char

abbrev SessionId := Nat

/-- `room_message`. -/
inductive RoomMessage where
  | join (sessionId inbox : SessionId)
  | leave (sessionId : SessionId)
  | chat (sessionId : SessionId) (text : Text)
deriving DecidableEq, Repr

def toText (n : Nat) : Text := (toString n).toList

def welcome (id : SessionId) : Text := "welcome, you are session ".toList ++ toText id

def joinedNotice (id : SessionId) : Text := "* session ".toList ++ toText id ++ " joined".toList

def leftNotice (id : SessionId) : Text := "* session ".toList ++ toText id ++ " left".toList

def chatLine (id : SessionId) (text : Text) : Text :=
  "session ".toList ++ toText id ++ ": ".toList ++ text

/-- What `room_actor` does once the texts of a message are sent. -/
inductive After where
  | insert (sessionId inbox : SessionId)
  | check
deriving DecidableEq, Repr

inductive RoomPc where
  | receiving
  | sending (texts : List (SessionId × Text)) (after : After)
  | returned
  /-- A send to a closed inbox threw. -/
  | threw
  /-- `close` was called through a null pointer. -/
  | nullInbox
deriving DecidableEq, Repr

structure Room where
  pc : RoomPc := .receiving
  members : OrdMap SessionId SessionId := OrdMap.empty
  totalJoined : Nat := 0

inductive ReaderPc where
  | reading
  | sendingChat (text : Text)
  | sendingLeave
  | returned
  | threw
deriving DecidableEq, Repr

inductive WriterPc where
  | receiving
  | writing (text : Text)
  | returned
  | threw
deriving DecidableEq, Repr

inductive SessionPc where
  | unborn
  | joining
  | running (reader : ReaderPc) (writer : WriterPc)
deriving DecidableEq, Repr

def ReaderPc.ended : ReaderPc → Bool
  | .returned | .threw => true
  | .reading | .sendingChat _ | .sendingLeave => false

def WriterPc.ended : WriterPc → Bool
  | .returned | .threw => true
  | .receiving | .writing _ => false

/-- `session_actor` is over: both of its halves are. -/
def SessionPc.finished : SessionPc → Bool
  | .running reader writer => reader.ended && writer.ended
  | .unborn | .joining => false

/-- A cancelled `async_receive` hands its error over and the writer returns; a
cancelled `async_write` throws. -/
def WriterPc.cancelled : WriterPc → WriterPc
  | .receiving => .returned
  | .writing _ => .threw
  | pc => pc

structure State where
  mailbox : Channel RoomMessage
  inbox : SessionId → Channel Text
  room : Room := {}
  session : SessionId → SessionPc := fun _ => .unborn
  accepted : Nat := 0

inductive Act where
  | accept
  | sendJoin (id : SessionId)
  | readLine (id : SessionId) (text : Text)
  | sendChat (id : SessionId) (text : Text)
  | readEof (id : SessionId)
  | readError (id : SessionId)
  | sendLeave (id : SessionId)
  | cancelReader (id : SessionId)
  | receiveText (id : SessionId) (text : Text)
  | inboxClosed (id : SessionId)
  | writeDone (id : SessionId)
  | writeError (id : SessionId)
  | cancelWriter (id : SessionId)
  | handle (message : RoomMessage)
  | deliver (id : SessionId) (text : Text)
  | deliverFails (id : SessionId)
  | settle
deriving DecidableEq, Repr

/-- One text for every member but `except`. -/
def Room.broadcast (room : Room) (except : Option SessionId) (text : Text) :
    List (SessionId × Text) :=
  (room.members.entries.filter (fun member => some member.1 ≠ except)).map
    (fun member => (member.2, text))

/-- `room_actor` for one message, up to its sends. -/
def State.serve (s : State) : RoomMessage → State
  | .join id inbox =>
      { s with room := { s.room with
          totalJoined := s.room.totalJoined + 1
          pc := .sending ((inbox, welcome id) :: s.room.broadcast none (joinedNotice id))
            (.insert id inbox) } }
  | .leave id =>
      match s.room.members.find? id with
      | none => { s with room := { s.room with pc := .nullInbox } }
      | some inbox =>
          let left := { s.room with members := s.room.members.erase id }
          { s with
            inbox := Function.update s.inbox inbox (s.inbox inbox).close
            room := { left with pc := .sending (left.broadcast none (leftNotice id)) .check } }
  | .chat id text =>
      { s with room := { s.room with
          pc := .sending (s.room.broadcast (some id) (chatLine id text)) .check } }

/-- The end of one round of `room_actor`. -/
def Room.settled (room : Room) (sessionCount : Nat) (after : After) : Room :=
  let next := match after with
    | .insert id inbox => { room with members := room.members.insert id inbox }
    | .check => room
  if next.totalJoined = sessionCount ∧ next.members.entries = [] then
    { next with pc := .returned }
  else { next with pc := .receiving }

def State.setSession (s : State) (id : SessionId) (pc : SessionPc) : State :=
  { s with session := Function.update s.session id pc }

def Step (sessionCount : Nat) (s : State) : Act → State → Prop
  | .accept, s' => s.accepted < sessionCount ∧
      s' = { s.setSession (s.accepted + 1) .joining with accepted := s.accepted + 1 }
  | .sendJoin id, s' => ∃ mailbox, s.session id = .joining ∧
      s.mailbox.put (.join id id) = some mailbox ∧
      s' = { s with mailbox := mailbox }.setSession id (.running .reading .receiving)
  | .readLine id text, s' => ∃ writer, s.session id = .running .reading writer ∧
      s' = s.setSession id (.running (.sendingChat text) writer)
  | .sendChat id text, s' => ∃ writer mailbox, s.session id = .running (.sendingChat text) writer ∧
      s.mailbox.put (.chat id text) = some mailbox ∧
      s' = { s with mailbox := mailbox }.setSession id (.running .reading writer)
  | .readEof id, s' => ∃ writer, s.session id = .running .reading writer ∧
      s' = s.setSession id (.running .sendingLeave writer)
  | .readError id, s' => ∃ writer, s.session id = .running .reading writer ∧
      s' = s.setSession id (.running .threw writer)
  | .sendLeave id, s' => ∃ writer mailbox, s.session id = .running .sendingLeave writer ∧
      s.mailbox.put (.leave id) = some mailbox ∧
      s' = { s with mailbox := mailbox }.setSession id (.running .returned writer)
  | .cancelReader id, s' => ∃ reader, s.session id = .running reader .threw ∧
      reader.ended = false ∧ s' = s.setSession id (.running .threw .threw)
  | .receiveText id text, s' => ∃ reader inbox, s.session id = .running reader .receiving ∧
      (s.inbox id).take = some (text, inbox) ∧
      s' = { s with inbox := Function.update s.inbox id inbox }.setSession id
        (.running reader (.writing (text ++ ['\n'])))
  | .inboxClosed id, s' => ∃ reader, s.session id = .running reader .receiving ∧
      (s.inbox id).Exhausted ∧ s' = s.setSession id (.running reader .returned)
  | .writeDone id, s' => ∃ reader text, s.session id = .running reader (.writing text) ∧
      s' = s.setSession id (.running reader .receiving)
  | .writeError id, s' => ∃ reader text, s.session id = .running reader (.writing text) ∧
      s' = s.setSession id (.running reader .threw)
  | .cancelWriter id, s' => ∃ writer, s.session id = .running .threw writer ∧
      writer.ended = false ∧ s' = s.setSession id (.running .threw writer.cancelled)
  | .handle message, s' => ∃ mailbox, s.room.pc = .receiving ∧
      s.mailbox.take = some (message, mailbox) ∧ s' = { s with mailbox := mailbox }.serve message
  | .deliver id text, s' => ∃ texts after inbox, s.room.pc = .sending ((id, text) :: texts) after ∧
      (s.inbox id).put text = some inbox ∧
      s' = { s with
        inbox := Function.update s.inbox id inbox
        room := { s.room with pc := .sending texts after } }
  | .deliverFails id, s' => ∃ text texts after, s.room.pc = .sending ((id, text) :: texts) after ∧
      (s.inbox id).closed = true ∧ s' = { s with room := { s.room with pc := .threw } }
  | .settle, s' => ∃ after, s.room.pc = .sending [] after ∧
      s' = { s with room := s.room.settled sessionCount after }

/-- `run` with the capacities of the room's mailbox and of the inboxes. -/
def started (mailboxCapacity inboxCapacity : Nat) : State where
  mailbox := .make mailboxCapacity
  inbox _ := .make inboxCapacity

def chatSystem (sessionCount mailboxCapacity inboxCapacity : Nat) : System State Act where
  init s := s = started mailboxCapacity inboxCapacity
  step := Step sessionCount

end CppWorkspace.Actors.ActorChat
