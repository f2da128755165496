import CppWorkspace.Lib.ByteStream
import CppWorkspace.Lib.Commuting

/-!
`echo_tcp.cpp` on a connection that has been accepted: the session sends back what it
reads, piece by piece, and the client sends a message and reads as many bytes. The
message, the room in both directions and the size of the session's buffer are
parameters; how many bytes a read or a write moves is open.
-/

namespace CppWorkspace.Asio.EchoTcp

open Lib

abbrev Bytes := List UInt8

inductive ClientPc where
  /-- Inside `async_write`, with the bytes that are left. -/
  | writing (rest : Bytes)
  /-- Inside `async_read`, with the bytes that have come. -/
  | reading (got : Bytes)
  | returned (reply : Bytes)
deriving DecidableEq, Repr

inductive SessionPc where
  | reading
  /-- Inside `async_write`, with the bytes that are left. -/
  | writing (rest : Bytes)
  | returned
  /-- Another error than the end of the stream. -/
  | threw
deriving DecidableEq, Repr

structure State where
  client : ClientPc
  session : SessionPc := .reading
  up : ByteStream UInt8
  down : ByteStream UInt8

inductive Event where
  | clientWrites (count : ℕ)
  | sessionReads (count : ℕ)
  | sessionEnds
  | sessionWrites (count : ℕ)
  /-- The peer has closed its socket. -/
  | sessionFails
  | clientReads (count : ℕ)
deriving DecidableEq, Repr

/-- `async_read` completes when its buffer is full. -/
def afterRead (message got : Bytes) : ClientPc :=
  if message.length ≤ got.length then .returned got else .reading got

/-- `async_write` completes when all bytes are written. -/
def afterWrite (message rest : Bytes) : ClientPc :=
  if rest = [] then afterRead message [] else .writing rest

def sessionAfterWrite (rest : Bytes) : SessionPc := if rest = [] then .reading else .writing rest

/-- The socket is destroyed when the client returns. -/
def closeWith (client : ClientPc) (up : ByteStream UInt8) : ByteStream UInt8 :=
  match client with
  | .returned _ => up.shutdown
  | .writing _ | .reading _ => up

/-- `data` has this size. -/
def dataSize : ℕ := 1024

namespace State

def step (message : Bytes) (size : ℕ) (s : State) : Event → Option State
  | .clientWrites count =>
      match s.client with
      | .writing rest => do
          if ¬(0 < count ∧ count ≤ rest.length) then none
          let up ← s.up.send (rest.take count)
          let client := afterWrite message (rest.drop count)
          return { s with client, up := closeWith client up }
      | _ => none
  | .sessionReads count =>
      match s.session with
      | .reading => do
          if ¬(0 < count ∧ count ≤ size) then none
          let (bytes, up) ← s.up.receive count
          return { s with session := .writing bytes, up }
      | _ => none
  | .sessionEnds =>
      match s.session with
      | .reading =>
          if s.up.ended = true ∧ s.up.buffer = [] then some { s with session := .returned }
          else none
      | _ => none
  | .sessionWrites count =>
      match s.session with
      | .writing rest => do
          if ¬(0 < count ∧ count ≤ rest.length) then none
          let down ← s.down.send (rest.take count)
          return { s with session := sessionAfterWrite (rest.drop count), down }
      | _ => none
  | .sessionFails =>
      match s.session, s.client with
      | .writing _, .returned _ => some { s with session := .threw }
      | _, _ => none
  | .clientReads count =>
      match s.client with
      | .reading got => do
          if ¬(0 < count ∧ got.length + count ≤ message.length) then none
          let (bytes, down) ← s.down.receive count
          let client := afterRead message (got ++ bytes)
          return { s with client, up := closeWith client s.up, down }
      | _ => none

/-- Both have returned, and the client has the reply. -/
def Finished (message : Bytes) (s : State) : Prop :=
  s.client = .returned message ∧ s.session = .returned

end State

/-- The connection has been accepted. -/
def connected (message : Bytes) (upCapacity downCapacity : ℕ) : State where
  client := afterWrite message message
  up := closeWith (afterWrite message message) (.make upCapacity)
  down := .make downCapacity

def echo (message : Bytes) (size upCapacity downCapacity : ℕ) : System State Event where
  init s := s = connected message upCapacity downCapacity
  step s event s' := s.step message size event = some s'

end CppWorkspace.Asio.EchoTcp
