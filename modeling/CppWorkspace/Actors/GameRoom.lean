import CppWorkspace.Lib.OrdMap
import CppWorkspace.Lib.Transition

/-!
`demo_14_game_room.cpp`: one actor for the room and one for each player. A
handler is a function from the room's state to its next state and the effects
it asks for. The runtime delivers messages one at a time and runs the callback
of a monitor once after the monitored player has terminated.
-/

namespace CppWorkspace.Actors.GameRoom

open Lib

abbrev Name := List Char

inductive RoomMsg (P : Type*) where
  | join (name : Name) (player : P)
  | chat (sender : Name) (text : List Char)
  | start (rounds : Int)
  | tick
deriving DecidableEq

inductive PlayerMsg where
  | say (text : List Char)
  | chat (sender : Name) (text : List Char)
deriving DecidableEq

/-- `room_state`; its counters of `int32_t` are unbounded here, as they decide nothing about
the members. -/
structure RoomState (P : Type*) where
  members : OrdMap Name P := OrdMap.empty
  ticksLeft : Int := 0
  tickId : Int := 1

/-- What a handler of the room asks of the runtime. -/
inductive Effect (P : Type*) where
  | send (player : P) (sender : Name) (text : List Char)
  | monitor (player : P) (name : Name)
  | delayTick
deriving DecidableEq

variable {P : Type*}

namespace RoomState

def system : Name := "系统".toList

/-- One message to every member. -/
def broadcast (room : RoomState P) (sender : Name) (text : List Char) : List (Effect P) :=
  room.members.entries.map (fun member => .send member.2 sender text)

def onJoin (room : RoomState P) (name : Name) (player : P) : RoomState P × List (Effect P) :=
  let joined := { room with members := room.members.emplace name player }
  (joined, .monitor player name :: joined.broadcast system (name ++ " 进入了房间".toList))

/-- The callback that a join leaves with the monitor. -/
def onDown (room : RoomState P) (name : Name) : RoomState P × List (Effect P) :=
  let left := { room with members := room.members.erase name }
  (left, left.broadcast system (name ++ " 掉线, 已移出房间 (在线 ".toList ++
    (toString left.members.size).toList ++ " 人)".toList))

def onTick (room : RoomState P) : RoomState P × List (Effect P) :=
  let ticked := { room with ticksLeft := room.ticksLeft - 1, tickId := room.tickId + 1 }
  (ticked, ticked.broadcast "世界时钟".toList
      ("第 ".toList ++ (toString room.tickId).toList ++ " 次刷新".toList) ++
    if 0 < ticked.ticksLeft then [.delayTick] else [])

/-- `make_behavior`. -/
def receive (room : RoomState P) : RoomMsg P → RoomState P × List (Effect P)
  | .join name player => room.onJoin name player
  | .chat sender text => (room, room.broadcast sender text)
  | .start rounds => ({ room with ticksLeft := rounds }, [.delayTick])
  | .tick => room.onTick

end RoomState

inductive Phase where
  | unborn
  | alive
  | terminated
deriving DecidableEq

/-- The actors and what the runtime holds for them. -/
structure World (P : Type*) where
  room : RoomState P := {}
  mailbox : List (RoomMsg P) := []
  phase : P → Phase := fun _ => .unborn
  inbox : P → List PlayerMsg := fun _ => []
  /-- The callbacks that have not run: the monitored player and the captured name. -/
  monitors : List (P × Name) := []
  delayedTicks : Nat := 0
  printed : List (P × Name × List Char) := []

inductive Act (P : Type*) where
  | spawn (player : P)
  | say (player : P) (text : List Char)
  | playerStep (player : P) (message : PlayerMsg)
  | terminate (player : P)
  | start (rounds : Int)
  | delayOver
  | handle (message : RoomMsg P)
  | down (player : P) (name : Name)
deriving DecidableEq

variable [DecidableEq P]

/-- A message to a terminated actor is dropped. -/
def World.deliver (s : World P) (player : P) (message : PlayerMsg) : World P :=
  if s.phase player = .alive then
    { s with inbox := Function.update s.inbox player (s.inbox player ++ [message]) }
  else s

def World.perform (s : World P) : Effect P → World P
  | .send player sender text => s.deliver player (.chat sender text)
  | .monitor player name => { s with monitors := s.monitors ++ [(player, name)] }
  | .delayTick => { s with delayedTicks := s.delayedTicks + 1 }

/-- The room takes its next state and the runtime performs what it asked for. -/
def World.react (s : World P) (reaction : RoomState P × List (Effect P)) : World P :=
  reaction.2.foldl World.perform { s with room := reaction.1 }

/-- `player_impl` for one message. -/
def World.playerReact (s : World P) (name : P → Name) (player : P) : PlayerMsg → World P
  | .say text => { s with mailbox := s.mailbox ++ [.chat (name player) text] }
  | .chat sender text => { s with printed := s.printed ++ [(player, sender, text)] }

def Step (name : P → Name) (s : World P) : Act P → World P → Prop
  | .spawn player, s' => s.phase player = .unborn ∧
      s' = { s with
        phase := Function.update s.phase player .alive
        mailbox := s.mailbox ++ [.join (name player) player] }
  | .say player text, s' => s' = s.deliver player (.say text)
  | .playerStep player message, s' => ∃ rest, s.phase player = .alive ∧
      s.inbox player = message :: rest ∧
      s' = { s with inbox := Function.update s.inbox player rest }.playerReact name player message
  | .terminate player, s' => s.phase player = .alive ∧
      s' = { s with
        phase := Function.update s.phase player .terminated
        inbox := Function.update s.inbox player [] }
  | .start rounds, s' => s' = { s with mailbox := s.mailbox ++ [.start rounds] }
  | .delayOver, s' => 0 < s.delayedTicks ∧
      s' = { s with delayedTicks := s.delayedTicks - 1, mailbox := s.mailbox ++ [.tick] }
  | .handle message, s' => ∃ rest, s.mailbox = message :: rest ∧
      s' = { s with mailbox := rest }.react (s.room.receive message)
  | .down player captured, s' => (player, captured) ∈ s.monitors ∧
      s.phase player = .terminated ∧
      s' = { s with monitors := s.monitors.erase (player, captured) }.react (s.room.onDown captured)

/-- The game with the players' names. -/
def roomSystem (name : P → Name) : System (World P) (Act P) where
  init s := s = {}
  step := Step name

end CppWorkspace.Actors.GameRoom
