import CppWorkspace.RaftRpc.MemLogStore

/-!
`mem_log_store::pack` and `apply_pack`: a range of entries travels as a count
followed by length-prefixed serialized entries, and the receiver recomputes
its first index from the keys of its map.
-/

namespace CppWorkspace.RaftRpc

open Lib

/-- What `log_entry::serialize` keeps. -/
def LogEntry.content (e : LogEntry) : Nat × UInt8 × Buffer := (e.term, e.valType, e.buf)

/-- `log_entry::serialize` and `log_entry::deserialize`, which belong to
NuRaft: the second undoes the first on term, type and payload. -/
structure LogEntryFormat where
  serialize : LogEntry → Buffer
  deserialize : Buffer → Option LogEntry
  deserialize_serialize : ∀ e,
    (deserialize (serialize e)).map LogEntry.content = some e.content

/-- The entry that arrives when `e` is sent. -/
def LogEntryFormat.received (fmtE : LogEntryFormat) (e : LogEntry) : LogEntry :=
  (fmtE.deserialize (fmtE.serialize e)).getD e

theorem LogEntryFormat.deserialize_eq (fmtE : LogEntryFormat) (e : LogEntry) :
    fmtE.deserialize (fmtE.serialize e) = some (fmtE.received e) ∧
      (fmtE.received e).content = e.content := by
  have h := fmtE.deserialize_serialize e
  unfold received
  cases hd : fmtE.deserialize (fmtE.serialize e) with
  | none => simp [hd] at h
  | some e' => simpa [hd] using h

namespace MemLogStore

variable (fmt : BufferFormat) (fmtE : LogEntryFormat)

/-- The first loop of `pack`: serialize until an index is missing. -/
def serializedFrom (s : MemLogStore) : Nat → Nat → List Buffer
  | _, 0 => []
  | i, cnt + 1 =>
      match s.logs.find? i with
      | none => []
      | some e => fmtE.serialize e :: s.serializedFrom (i + 1) cnt

/-- The second loop of `pack`: each entry behind its size. -/
def packEntries : List Buffer → Buffer
  | [] => []
  | b :: rest => fmt.int32.encode (BitVec.ofNat 32 b.length) ++ (b ++ packEntries rest)

def pack (s : MemLogStore) (index cnt : Nat) : Buffer :=
  let serialized := s.serializedFrom fmtE index cnt
  fmt.int32.encode (BitVec.ofNat 32 serialized.length) ++ packEntries fmt serialized

/-- The loop of `apply_pack`. A negative or oversized length makes the buffer
calls throw, here `none`. -/
def applyEntries (logs : OrdMap Nat LogEntry) :
    Nat → Nat → Buffer → Option (OrdMap Nat LogEntry)
  | 0, _, _ => some logs
  | num + 1, idx, bytes => do
      let (size, rest) ← fmt.int32.decode bytes
      if 0 ≤ size.toInt ∧ size.toInt.toNat ≤ rest.length then
        let e ← fmtE.deserialize (rest.take size.toInt.toNat)
        applyEntries (logs.insert idx e) num (idx + 1) (rest.drop size.toInt.toNat)
      else none

/-- The end of `apply_pack`: `start_idx_` becomes the first key above 0, or 1
when there is none. -/
def recomputedStart (logs : OrdMap Nat LogEntry) : Nat :=
  match logs.upperBound 0 with
  | some (key, _) => key
  | none => 1

def applyPack (s : MemLogStore) (index : Nat) (data : Buffer) : Option MemLogStore := do
  let (num, bytes) ← fmt.int32.decode data
  let logs ← applyEntries fmt fmtE s.logs num.toInt.toNat index bytes
  pure ⟨logs, recomputedStart logs⟩

/-- The stored entries with their indices, the dummy left out. -/
def indexed (s : MemLogStore) : List (Nat × LogEntry) :=
  s.logs.entries.filter fun p => decide (0 < p.1)

/-- How many entries `pack(index, cnt)` carries. -/
def transferCount (s : MemLogStore) (index cnt : Nat) : Nat :=
  min (index + cnt) s.nextSlot - index

/-- Stores reached by the modifying calls and by transfers. A transfer goes to
a store whose next slot is the packed index, or brings at least one entry to a
fresh store. -/
inductive Reached : MemLogStore → Prop
  | initial (raw : Buffer) : Reached (MemLogStore.initial raw)
  | apply {s : MemLogStore} {op : IndexedLog.Op LogEntry} :
      Reached s → s.Allowed op → Reached (s.apply op)
  | transfer {s t t' : MemLogStore} {index cnt : Nat} :
      Reached s → Reached t → s.startIndex ≤ index → cnt < 2 ^ 31 →
      (∀ p ∈ s.indexed, (fmtE.serialize p.2).length < 2 ^ 31) →
      (t.nextSlot = index ∨
        (∃ raw, t = MemLogStore.initial raw) ∧ 0 < s.transferCount index cnt) →
      t.applyPack fmt fmtE index (s.pack fmt fmtE index cnt) = some t' → Reached t'

/-- What a transfer from `s` should leave in the receiver `t`: its old entries
followed by the sender's entries of the range under the same indices, the next
slot behind them, and the first index unchanged, or `index` in a fresh store
that did not already end there. -/
structure Transferred (s t t' : MemLogStore) (index cnt : Nat) : Prop where
  kept : t.indexed <+: t'.indexed
  entries : t'.indexed.map (fun p => (p.1, p.2.content)) =
    (t.indexed ++ s.indexed.filter fun p =>
      decide (index ≤ p.1 ∧ p.1 < index + cnt)).map (fun p => (p.1, p.2.content))
  nextSlot : t'.nextSlot = index + s.transferCount index cnt
  startIndex : t'.startIndex = if t.nextSlot = index then t.startIndex else index

section Lemmas

variable {raw : Buffer} {s : MemLogStore} {log : IndexedLog LogEntry}

theorem Models.indexed (h : Models raw s log) :
    s.indexed = IndexedLog.assocFrom log.first log.entries := by
  have hpos := log.first_pos
  unfold MemLogStore.indexed
  rw [h.entries, List.filter_cons_of_neg (by simp), List.filter_eq_self]
  intro p hp
  have := (IndexedLog.key_bounds_of_mem_assocFrom hp).1
  simp
  omega

theorem Models.indexed_range (h : Models raw s log) (index cnt : Nat)
    (hindex : log.first ≤ index) :
    s.indexed.filter (fun p => decide (index ≤ p.1 ∧ p.1 < index + cnt)) =
      IndexedLog.assocFrom index (log.slice index (index + cnt)) := by
  have hsplit : (fun p : Nat × LogEntry => decide (index ≤ p.1 ∧ p.1 < index + cnt)) =
      fun p => decide (p.1 < index + cnt) && decide (index ≤ p.1) := by
    funext p
    simp [Bool.and_comm]
  have hmax : max log.first index = index := by omega
  rw [h.indexed, hsplit, ← List.filter_filter, IndexedLog.filter_ge_assocFrom,
    IndexedLog.filter_lt_assocFrom, hmax]
  rfl

/-- `pack` serializes the sender's entries of the range. -/
theorem Models.serializedFrom (h : Models raw s log) {index cnt : Nat}
    (hindex : log.first ≤ index) :
    s.serializedFrom fmtE index cnt =
      (log.slice index (index + cnt)).map fmtE.serialize := by
  induction cnt generalizing index with
  | zero => simp [MemLogStore.serializedFrom, IndexedLog.slice]
  | succ cnt ih =>
      have hpos := log.first_pos
      have hfind : s.logs.find? index = log.entries[index - log.first]? := by
        rw [h.find? index, if_neg (by omega), IndexedLog.get?, if_pos hindex]
      have hsub : index + 1 - log.first = index - log.first + 1 := by omega
      have hcount : index + (cnt + 1) - index = cnt + 1 := by omega
      have hcount' : index + 1 + cnt - (index + 1) = cnt := by omega
      simp only [MemLogStore.serializedFrom, hfind]
      cases hget : log.entries[index - log.first]? with
      | none =>
          have hlen := List.getElem?_eq_none_iff.mp hget
          simp [IndexedLog.slice, List.drop_of_length_le hlen]
      | some e =>
          obtain ⟨hlt, rfl⟩ := List.getElem?_eq_some_iff.mp hget
          rw [ih (by omega)]
          simp only [IndexedLog.slice, hsub, hcount, hcount']
          rw [List.drop_eq_getElem_cons hlt, List.take_succ_cons, List.map_cons]

theorem Models.transferCount (h : Models raw s log) {index cnt : Nat}
    (hindex : log.first ≤ index) :
    s.transferCount index cnt = (log.slice index (index + cnt)).length := by
  simp only [MemLogStore.transferCount, h.nextSlot, IndexedLog.slice, IndexedLog.next,
    List.length_take, List.length_drop]
  omega

theorem toNat_toInt_ofNat {n : Nat} (h : n < 2 ^ 31) :
    (BitVec.ofNat 32 n).toInt = n := by
  have hmod : n % 2 ^ 32 = n := Nat.mod_eq_of_lt (by omega)
  rw [BitVec.toInt_eq_toNat_cond, BitVec.toNat_ofNat, hmod, if_pos (by omega)]

/-- Decoding what `packEntries` wrote inserts the received entries at
consecutive keys behind the map's last one. -/
theorem applyEntries_packEntries (sent : List LogEntry) {logs : OrdMap Nat LogEntry}
    {d : LogEntry} {first : Nat} {old : List LogEntry}
    (hlogs : logs.entries = (0, d) :: IndexedLog.assocFrom first old) (hfirst : 0 < first)
    (hsize : ∀ e ∈ sent, (fmtE.serialize e).length < 2 ^ 31) :
    ∃ logs', applyEntries fmt fmtE logs sent.length (first + old.length)
        (packEntries fmt (sent.map fmtE.serialize)) = some logs' ∧
      logs'.entries =
        (0, d) :: IndexedLog.assocFrom first (old ++ sent.map fmtE.received) := by
  induction sent generalizing logs old with
  | nil => exact ⟨logs, rfl, by simpa using hlogs⟩
  | cons e rest ih =>
      obtain ⟨hdecode, -⟩ := fmtE.deserialize_eq e
      have hlen := hsize e (by simp)
      have hbelow : ∀ p ∈ logs.entries, p.1 < first + old.length := by
        intro p hp
        rw [hlogs] at hp
        rcases List.mem_cons.mp hp with rfl | hp
        · simp only
          omega
        · exact (IndexedLog.key_bounds_of_mem_assocFrom hp).2
      have hinsert : (logs.insert (first + old.length) (fmtE.received e)).entries =
          (0, d) :: IndexedLog.assocFrom first (old ++ [fmtE.received e]) := by
        rw [OrdMap.insert_entries_of_forall_lt _ hbelow, hlogs]
        simp [IndexedLog.assocFrom_append, IndexedLog.assocFrom]
      obtain ⟨logs', hrest, hentries⟩ := ih hinsert (fun e' he' => hsize e' (by simp [he']))
      refine ⟨logs', ?_, by simpa using hentries⟩
      have hidx : first + (old ++ [fmtE.received e]).length = first + old.length + 1 := by
        simp
        omega
      rw [hidx] at hrest
      simp only [List.map_cons, List.length_cons, applyEntries, packEntries,
        fmt.int32.decode_encode, Option.bind_eq_bind, Option.bind_some,
        toNat_toInt_ofNat hlen, Int.toNat_natCast]
      rw [if_pos (by simp), List.take_left' rfl, List.drop_left' rfl, hdecode]
      exact hrest

theorem serialized_length_le {s : MemLogStore} {index cnt : Nat} :
    (s.serializedFrom fmtE index cnt).length ≤ cnt := by
  induction cnt generalizing index with
  | zero => simp [MemLogStore.serializedFrom]
  | succ cnt ih =>
      unfold MemLogStore.serializedFrom
      cases s.logs.find? index with
      | none => simp
      | some e => simpa using @ih (index + 1)

/-- A receiver as `apply_pack` sees it when the packed index continues it: the
dummy, then entries that end right before the index. -/
structure Continues (t : MemLogStore) (index first : Nat) (d : LogEntry)
    (old : List LogEntry) : Prop where
  entries : t.logs.entries = (0, d) :: IndexedLog.assocFrom first old
  first_pos : 0 < first
  index_eq : index = first + old.length

theorem Continues.indexed {t : MemLogStore} {index first : Nat} {d : LogEntry}
    {old : List LogEntry} (h : Continues t index first d old) :
    t.indexed = IndexedLog.assocFrom first old := by
  unfold MemLogStore.indexed
  rw [h.entries, List.filter_cons_of_neg (by simp), List.filter_eq_self]
  intro p hp
  have := (IndexedLog.key_bounds_of_mem_assocFrom hp).1
  have := h.first_pos
  simp
  omega

theorem recomputedStart_eq {logs : OrdMap Nat LogEntry} {d : LogEntry} {first : Nat}
    {l : List LogEntry} (hlogs : logs.entries = (0, d) :: IndexedLog.assocFrom first l)
    (hfirst : 0 < first) : recomputedStart logs = if l.length = 0 then 1 else first := by
  unfold recomputedStart OrdMap.upperBound
  rw [hlogs, List.find?_cons_of_neg (by simp)]
  cases l with
  | nil => rfl
  | cons e rest => simp [IndexedLog.assocFrom, hfirst]

/-- What `apply_pack` does with what `pack` wrote. The received entries go
behind the old ones; the first index is recomputed from the keys, so it
becomes 1 when there is still no entry at all. -/
theorem Models.applyPack_pack (hs : Models raw s log) {index cnt : Nat}
    (hindex : log.first ≤ index) (hcnt : cnt < 2 ^ 31)
    (hsize : ∀ p ∈ s.indexed, (fmtE.serialize p.2).length < 2 ^ 31)
    {t : MemLogStore} {first : Nat} {d : LogEntry} {old : List LogEntry}
    (ht : Continues t index first d old) :
    ∃ t', t.applyPack fmt fmtE index (s.pack fmt fmtE index cnt) = some t' ∧
      t'.logs.entries = (0, d) :: IndexedLog.assocFrom first
        (old ++ (log.slice index (index + cnt)).map fmtE.received) ∧
      t'.startIdx = if old.length + s.transferCount index cnt = 0 then 1 else first := by
  have hsent : s.serializedFrom fmtE index cnt = _ := hs.serializedFrom fmtE hindex
  have hle : (s.serializedFrom fmtE index cnt).length ≤ cnt := serialized_length_le fmtE
  have hlen : (s.serializedFrom fmtE index cnt).length =
      (log.slice index (index + cnt)).length := by rw [hsent, List.length_map]
  have hsizes : ∀ e ∈ log.slice index (index + cnt),
      (fmtE.serialize e).length < 2 ^ 31 := by
    intro e he
    have hmem : e ∈ log.entries := List.mem_of_mem_drop (List.mem_of_mem_take he)
    obtain ⟨j, hj, rfl⟩ := List.getElem_of_mem hmem
    apply hsize (log.first + j, log.entries[j])
    rw [hs.indexed, IndexedLog.mem_assocFrom]
    simp
  obtain ⟨logs', happly, hentries⟩ := applyEntries_packEntries fmt fmtE
    (log.slice index (index + cnt)) ht.entries ht.first_pos hsizes
  refine ⟨⟨logs', recomputedStart logs'⟩, ?_, hentries, ?_⟩
  · simp only [MemLogStore.applyPack, MemLogStore.pack, fmt.int32.decode_encode,
      Option.bind_eq_bind, Option.bind_some]
    rw [← ht.index_eq] at happly
    rw [toNat_toInt_ofNat (by omega), Int.toNat_natCast, hlen, hsent, happly]
    rfl
  · rw [hs.transferCount hindex, recomputedStart_eq hentries ht.first_pos]
    simp

/-- A receiver that passed the transfer's precondition continues at the index. -/
theorem Models.continues {t : MemLogStore} {tlog : IndexedLog LogEntry}
    (ht : Models raw t tlog) {index : Nat} (hnext : t.nextSlot = index) :
    t.Continues index tlog.first (dummy raw) tlog.entries :=
  ⟨ht.entries, tlog.first_pos, by rw [← hnext, ht.nextSlot]; rfl⟩

theorem initial_continues (raw : Buffer) {index : Nat} (hindex : 0 < index) :
    (MemLogStore.initial raw).Continues index index (dummy raw) [] :=
  ⟨rfl, hindex, rfl⟩

theorem assocFrom_map_received (i : Nat) (l : List LogEntry) :
    (IndexedLog.assocFrom i (l.map fmtE.received)).map (fun p => (p.1, p.2.content)) =
      (IndexedLog.assocFrom i l).map (fun p => (p.1, p.2.content)) := by
  induction l generalizing i with
  | nil => rfl
  | cons e rest ih =>
      have hcontent := (fmtE.deserialize_eq e).2
      simp [IndexedLog.assocFrom, ih, hcontent]

/-- Every reached store is a log with the dummy in front. -/
theorem Reached.models {t : MemLogStore} (ht : Reached fmt fmtE t) :
    ∃ raw log, Models raw t log := by
  induction ht with
  | initial raw => exact ⟨raw, .empty, initial_models⟩
  | apply _ hallowed ih =>
      obtain ⟨raw, log, h⟩ := ih
      exact ⟨raw, _, h.apply ((h.allowed _).mp hallowed)⟩
  | @transfer s t t' index cnt _ _ hindex hcnt hsize htarget happly ihs iht =>
      obtain ⟨sraw, slog, hs⟩ := ihs
      obtain ⟨traw, tlog, ht⟩ := iht
      have hstart : slog.first ≤ index := hs.start ▸ hindex
      have hpos := slog.first_pos
      obtain ⟨first, d, old, hcont, hd⟩ : ∃ first d old,
          t.Continues index first d old ∧ ∃ raw, d = dummy raw := by
        rcases htarget with hnext | ⟨⟨raw, rfl⟩, -⟩
        · exact ⟨_, _, _, ht.continues hnext, traw, rfl⟩
        · exact ⟨_, _, _, initial_continues raw (by omega), raw, rfl⟩
      obtain ⟨raw, rfl⟩ := hd
      obtain ⟨t'', happly', hentries, hstart'⟩ :=
        hs.applyPack_pack fmt fmtE hstart hcnt hsize hcont
      rw [happly, Option.some.injEq] at happly'
      subst happly'
      by_cases hzero : old.length + s.transferCount index cnt = 0
      · refine ⟨raw, .empty, by rw [hstart', if_pos hzero]; rfl, ?_⟩
        have hnil : old ++ (slog.slice index (index + cnt)).map fmtE.received = [] := by
          rw [hs.transferCount hstart] at hzero
          apply List.eq_nil_of_length_eq_zero
          simpa using hzero
        rw [hentries, hnil]
        rfl
      · exact ⟨raw, ⟨first, _, hcont.first_pos⟩, by rw [hstart', if_neg hzero], hentries⟩

end Lemmas

/-- The transfer leaves what it should exactly when something was sent, or the
receiver holds an entry, or its first index is still 1. Otherwise the receiver
was emptied by compaction and received nothing, and the recomputation forgets
how far it was compacted. -/
theorem applyPack_pack_transferred_iff {s t : MemLogStore} {index cnt : Nat}
    (hs : Reached fmt fmtE s) (ht : Reached fmt fmtE t) (hindex : s.startIndex ≤ index)
    (hcnt : cnt < 2 ^ 31) (hsize : ∀ p ∈ s.indexed, (fmtE.serialize p.2).length < 2 ^ 31)
    (htarget : t.nextSlot = index ∨
      (∃ raw, t = MemLogStore.initial raw) ∧ 0 < s.transferCount index cnt) :
    ∃ t', t.applyPack fmt fmtE index (s.pack fmt fmtE index cnt) = some t' ∧
      (Transferred s t t' index cnt ↔
        0 < s.transferCount index cnt ∨ t.startIndex < t.nextSlot ∨ t.startIndex = 1) := by
  obtain ⟨sraw, slog, hsm⟩ := hs.models
  obtain ⟨traw, tlog, htm⟩ := ht.models
  have hstart : slog.first ≤ index := hsm.start ▸ hindex
  have hpos := slog.first_pos
  obtain ⟨first, d, old, hcont, hfirst, hold⟩ : ∃ first d old,
      t.Continues index first d old ∧
        first = (if t.nextSlot = index then t.startIndex else index) ∧
        t.startIndex + old.length = t.nextSlot := by
    by_cases hnext : t.nextSlot = index
    · refine ⟨_, _, _, htm.continues hnext, ?_, ?_⟩
      · rw [if_pos hnext, startIndex, htm.start]
      · rw [startIndex, htm.start, htm.nextSlot, IndexedLog.next]
    · rcases htarget with hnext' | ⟨⟨raw, rfl⟩, -⟩
      · exact absurd hnext' hnext
      · exact ⟨index, _, [], initial_continues raw (by omega), by rw [if_neg hnext], rfl⟩
  obtain ⟨t', happly, hentries, hstart'⟩ :=
    hsm.applyPack_pack fmt fmtE hstart hcnt hsize hcont
  refine ⟨t', happly, ?_⟩
  have hcont' : t'.Continues (index + s.transferCount index cnt) first d
      (old ++ (slog.slice index (index + cnt)).map fmtE.received) := by
    refine ⟨hentries, hcont.first_pos, ?_⟩
    have := hcont.index_eq
    rw [hsm.transferCount hstart, List.length_append, List.length_map]
    omega
  have hkept : t.indexed <+: t'.indexed := by
    rw [hcont.indexed, hcont'.indexed, IndexedLog.assocFrom_append]
    exact List.prefix_append _ _
  have hcontent : t'.indexed.map (fun p => (p.1, p.2.content)) =
      (t.indexed ++ s.indexed.filter fun p =>
        decide (index ≤ p.1 ∧ p.1 < index + cnt)).map (fun p => (p.1, p.2.content)) := by
    rw [hcont'.indexed, hcont.indexed, hsm.indexed_range index cnt hstart,
      IndexedLog.assocFrom_append, List.map_append, List.map_append, ← hcont.index_eq,
      assocFrom_map_received]
  have hslot : t'.startIdx = first → t'.nextSlot = index + s.transferCount index cnt := by
    intro hkeep
    have hlen : t'.logs.size = old.length + s.transferCount index cnt + 1 := by
      simp [OrdMap.size, hentries, hsm.transferCount hstart]
    have := hcont.index_eq
    rw [MemLogStore.nextSlot, hkeep, hlen]
    omega
  constructor
  · intro hmeets
    by_contra hnone
    have hzero : old.length + s.transferCount index cnt = 0 := by omega
    have hnext : t.nextSlot = index := by
      rcases htarget with hnext | ⟨-, hsome⟩
      · exact hnext
      · omega
    have hunchanged := hmeets.startIndex
    rw [if_pos hnext, MemLogStore.startIndex, hstart', if_pos hzero] at hunchanged
    omega
  · intro hcond
    have hkeep : t'.startIdx = first := by
      rw [hstart']
      split
      · next hzero =>
        have hone : t.startIndex = 1 := by omega
        have hnext : t.nextSlot = index := by
          rcases htarget with hnext | ⟨-, hsome⟩
          · exact hnext
          · omega
        rw [hfirst, if_pos hnext, hone]
      · rfl
    exact ⟨hkept, hcontent, hslot hkeep, by rw [← hfirst]; exact hkeep⟩

/-- One entry format: term, value type and payload, no timestamp. -/
def plainEntryFormat : LogEntryFormat where
  serialize e := (Codec.unary.pair .byte).encode (e.term, e.valType) ++ e.buf
  deserialize bytes := ((Codec.unary.pair .byte).decode bytes).map fun p =>
    ⟨p.1.1, p.2, p.1.2, 0⟩
  deserialize_serialize := by
    intro e
    simp [Codec.decode_encode, LogEntry.content]

/-- A sender that holds one entry. -/
def oneEntryStore : MemLogStore := (initial []).apply (.append ⟨1, [7], appLog, 0⟩)

/-- The same store after compaction past its only entry. -/
def compactedStore : MemLogStore := oneEntryStore.apply (.compact 1)

theorem oneEntryStore_reached (fmt : BufferFormat) (fmtE : LogEntryFormat) :
    Reached fmt fmtE oneEntryStore :=
  (Reached.initial []).apply trivial

theorem compactedStore_reached (fmt : BufferFormat) (fmtE : LogEntryFormat) :
    Reached fmt fmtE compactedStore :=
  (oneEntryStore_reached fmt fmtE).apply trivial

/-- An entry reaches the compacted store at its next slot. -/
theorem applyPack_pack_transferred_second :
    let s := oneEntryStore.apply (.append ⟨1, [8], appLog, 0⟩)
    ∃ t', compactedStore.applyPack littleEndianFormat plainEntryFormat 2
        (s.pack littleEndianFormat plainEntryFormat 2 5) = some t' ∧
      Transferred s compactedStore t' 2 5 := by
  intro s
  have hs : Reached littleEndianFormat plainEntryFormat s :=
    (oneEntryStore_reached _ _).apply trivial
  have hsize : ∀ p ∈ s.indexed, (plainEntryFormat.serialize p.2).length < 2 ^ 31 := by
    decide
  have hindex : s.startIndex ≤ 2 := by decide
  have hcnt : 5 < 2 ^ 31 := by decide
  have hnext : compactedStore.nextSlot = 2 := by decide
  obtain ⟨t', happly, hiff⟩ := applyPack_pack_transferred_iff littleEndianFormat
    plainEntryFormat hs (compactedStore_reached _ _) hindex hcnt hsize (Or.inl hnext)
  exact ⟨t', happly, hiff.mpr (Or.inl (by decide))⟩

/-- Nothing sent to a store that was compacted to empty: the store's next slot
falls back from 2 to 1. -/
theorem empty_transfer_loses_start :
    ¬ ∀ (s t : MemLogStore) (index cnt : Nat),
      Reached littleEndianFormat plainEntryFormat s →
      Reached littleEndianFormat plainEntryFormat t →
      s.startIndex ≤ index → cnt < 2 ^ 31 →
      (∀ p ∈ s.indexed, (plainEntryFormat.serialize p.2).length < 2 ^ 31) →
      (t.nextSlot = index ∨
        (∃ raw, t = MemLogStore.initial raw) ∧ 0 < s.transferCount index cnt) →
      ∃ t', t.applyPack littleEndianFormat plainEntryFormat index
          (s.pack littleEndianFormat plainEntryFormat index cnt) = some t' ∧
        Transferred s t t' index cnt := by
  intro hall
  obtain ⟨t', happly, hmeets⟩ := hall oneEntryStore compactedStore 2 5
    (oneEntryStore_reached _ _) (compactedStore_reached _ _) (by decide) (by decide)
    (by decide) (Or.inl (by decide))
  have hnext := hmeets.nextSlot
  have hresult : compactedStore.applyPack littleEndianFormat plainEntryFormat 2
      (oneEntryStore.pack littleEndianFormat plainEntryFormat 2 5) =
        some ⟨compactedStore.logs, 1⟩ := rfl
  rw [hresult, Option.some.injEq] at happly
  subst happly
  exact absurd hnext (by decide)

end MemLogStore

end CppWorkspace.RaftRpc
