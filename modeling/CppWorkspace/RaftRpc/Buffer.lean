import CppWorkspace.Lib.Codec

/-!
`nuraft::buffer` as the counter example uses it: a byte string that typed
`put` calls append to and typed `get` calls consume from the front. NuRaft's
own encodings are not part of the repository, so they are a parameter
`BufferFormat`; the only thing assumed of them is the round trip that each
`Codec` carries.
-/

namespace CppWorkspace.RaftRpc

open Lib

abbrev Buffer := List UInt8

/-- The part of `nuraft::snapshot` that the example reads. -/
structure Snapshot where
  lastLogIdx : Nat
  lastLogTerm : Nat
deriving Repr, DecidableEq

/-- The encodings behind `buffer::put`, `buffer_serializer` and
`snapshot::serialize`. -/
structure BufferFormat where
  u8 : Codec UInt8
  int32 : Codec (BitVec 32)
  i64 : Codec (BitVec 64)
  snapshot : Codec Snapshot

/-- `snapshot::deserialize(*s.serialize())`. -/
def BufferFormat.copySnapshot (fmt : BufferFormat) (s : Snapshot) : Option Snapshot :=
  (fmt.snapshot.decode (fmt.snapshot.encode s)).map Prod.fst

@[simp] theorem BufferFormat.copySnapshot_eq (fmt : BufferFormat) (s : Snapshot) :
    fmt.copySnapshot s = some s := by
  simp [BufferFormat.copySnapshot]

/-- One format: NuRaft's default little-endian layout for the integer fields,
and a snapshot as its two indices. -/
def littleEndianFormat : BufferFormat where
  u8 := .byte
  int32 := .littleEndian 4
  i64 := .littleEndian 8
  snapshot := (Codec.unary.pair .unary).imap (fun p => ⟨p.1, p.2⟩)
    (fun s => (s.lastLogIdx, s.lastLogTerm)) fun _ => rfl

end CppWorkspace.RaftRpc
