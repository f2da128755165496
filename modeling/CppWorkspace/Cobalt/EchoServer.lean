import CppWorkspace.Lib.ByteStream
import CppWorkspace.Lib.TextStream
import CppWorkspace.Lib.Transition

/-!
`main.cpp`: `listen` starts a `session` for each connection, which sends every line back
with a time stamp. How reads and writes are split, the time stamps and the order of all
that happens on the connections are open; a client may close its end at any time or be
lost. The cancellation of the server is not modelled.
-/

namespace CppWorkspace.Cobalt.EchoServer

open Lib Lib.TextStream

/-- `strip_eol`. -/
def stripEol (line : List Char) : List Char := line.rdropWhile fun c => c = '\n' ∨ c = '\r'

/-- The next value of an `unsigned`. -/
def nextUnsigned (n : ℕ) : ℕ := (n + 1) % 2 ^ 32

def acceptedText (connId : ℕ) (peer : List Char) : List Char :=
  "conn #".toList ++ showInt connId ++ " accepted from ".toList ++ peer

def lineText (connId served : ℕ) (line : List Char) : List Char :=
  "conn #".toList ++ showInt connId ++ " line ".toList ++ showInt served ++ ": ".toList ++ line

def closedText (connId served : ℕ) : List Char :=
  "conn #".toList ++ showInt connId ++ " closed after ".toList ++ showInt served ++
    " line(s)".toList

/-- `reply`. -/
def replyText (line stamp : List Char) : List Char :=
  line ++ " [".toList ++ stamp ++ "]\n".toList

/-- `out` of `timestamp` has this size. -/
def stampSize : ℕ := 48

inductive SessionPc where
  /-- Inside `async_read_until`. -/
  | reading
  /-- Inside `async_write`, with the characters that are left. -/
  | writing (line rest : List Char)
  | returned
deriving DecidableEq, Repr

/-- A connection: the two directions, whether the client is lost, what the client has
received, and the session. -/
structure Connection where
  connId : ℕ
  up : ByteStream Char
  down : ByteStream Char
  lost : Bool := false
  received : List Char := []
  session : SessionPc := .reading
  buf : List Char := []
  served : ℕ := 0
  /-- What was printed about the connection. -/
  printed : List (List Char)

inductive ConnectionEvent where
  | clientSends (text : List Char)
  | clientCloses
  | clientLost
  | sessionReads (count : ℕ)
  /-- A line is complete, and this is the time. -/
  | lineComplete (stamp : List Char)
  | sessionWrites (count : ℕ)
  | sessionFails
  | clientReceives (count : ℕ)
deriving DecidableEq, Repr

namespace Connection

def accepted (room connId : ℕ) (peer : List Char) : Connection where
  connId
  up := .make room
  down := .make room
  printed := [acceptedText connId peer]

/-- After a part of the reply is written. -/
def afterWrite (c : Connection) (line rest : List Char) : Connection :=
  if rest = [] then
    let served := nextUnsigned c.served
    { c with session := .reading, served, printed := c.printed ++ [lineText c.connId served line] }
  else { c with session := .writing line rest }

/-- The loop is left, and the socket is closed. -/
def close (c : Connection) : Connection :=
  { c with
    session := .returned
    down := c.down.shutdown
    printed := c.printed ++ [closedText c.connId c.served] }

def step (c : Connection) : ConnectionEvent → Option Connection
  | .clientSends text => do
      if c.lost ∨ text = [] then none
      let up ← c.up.send text
      return { c with up }
  | .clientCloses =>
      if c.up.ended then none else some { c with up := c.up.shutdown }
  | .clientLost =>
      if c.lost then none else some { c with lost := true, up := c.up.shutdown }
  | .sessionReads count =>
      match c.session with
      | .reading => do
          if count = 0 ∨ '\n' ∈ c.buf then none
          let (text, up) ← c.up.receive count
          return { c with up, buf := c.buf ++ text }
      | .writing _ _ | .returned => none
  | .lineComplete stamp =>
      match c.session with
      | .reading => do
          if ¬stamp.length < stampSize then none
          let (line, rest) ← takeLine c.buf
          let line := stripEol (line ++ ['\n'])
          return { c with session := .writing line (replyText line stamp), buf := rest }
      | .writing _ _ | .returned => none
  | .sessionWrites count =>
      match c.session with
      | .writing line rest => do
          if ¬(0 < count ∧ count ≤ rest.length) then none
          let down ← c.down.send (rest.take count)
          return { c with down }.afterWrite line (rest.drop count)
      | .reading | .returned => none
  | .sessionFails =>
      match c.session with
      | .reading =>
          if '\n' ∉ c.buf ∧ (c.up.ended ∧ c.up.buffer = [] ∨ c.lost) then some c.close else none
      | .writing _ _ => if c.lost then some c.close else none
      | .returned => none
  | .clientReceives count => do
      if c.lost ∨ count = 0 then none
      let (text, down) ← c.down.receive count
      return { c with down, received := c.received ++ text }

end Connection

/-- The server: the connections in the order in which they were accepted, the next
`conn_id`, and the sessions in the `wait_group`. -/
structure Server where
  connections : List Connection := []
  connId : ℕ := 1
  sessions : List ℕ := []

inductive Event where
  | accepts (peer : List Char)
  | on (index : ℕ) (event : ConnectionEvent)
deriving DecidableEq, Repr

namespace Server

/-- The session of this connection has returned. -/
def returned (s : Server) (index : ℕ) : Bool :=
  (s.connections[index]?.map Connection.session) = some .returned

def step (room : ℕ) (s : Server) : Event → Option Server
  | .accepts peer =>
      some
        { connections := s.connections ++ [.accepted room s.connId peer]
          connId := nextUnsigned s.connId
          sessions := s.sessions.filter (fun index => !s.returned index) ++ [s.connections.length] }
  | .on index event => do
      let c ← s.connections[index]?
      let c ← c.step event
      return { s with connections := s.connections.set index c }

end Server

def server (room : ℕ) : System Server Event where
  init s := s = {}
  step s event s' := s.step room event = some s'

/-- What happens without anything new from a client. -/
def ConnectionEvent.Pending : ConnectionEvent → Prop
  | .clientSends _ | .clientCloses | .clientLost => False
  | .sessionReads _ | .lineComplete _ | .sessionWrites _ | .sessionFails | .clientReceives _ => True

def Event.Pending : Event → Prop
  | .accepts _ => False
  | .on _ event => event.Pending

/-- The server while the clients do nothing new. -/
def unattended (room : ℕ) : System Server Event :=
  (server room).restrict fun _ event => event.Pending

end CppWorkspace.Cobalt.EchoServer
