import CppWorkspace.Lib.OrdMap
import CppWorkspace.Lib.IndexedLog
import CppWorkspace.RaftRpc.Buffer

/-!
`mem_log_store.hxx`: the in-memory Raft log store, a map from index to entry
with a dummy at key 0 and a first index. Positions are computed from the size
of the map, as the source does. Indices are natural numbers; the source's are
64-bit and its callers keep them below `2^64 - 1`.
-/

namespace CppWorkspace.RaftRpc

open Lib

/-- `nuraft::log_entry`. -/
structure LogEntry where
  term : Nat
  buf : Buffer
  valType : UInt8
  timestamp : Nat
deriving Repr, DecidableEq

/-- `log_val_type::app_log`, the default of the `log_entry` constructor. -/
def appLog : UInt8 := 1

structure MemLogStore where
  logs : OrdMap Nat LogEntry
  startIdx : Nat

namespace MemLogStore

/-- The entry the constructor puts at index 0. Its payload is a fresh buffer
of eight bytes, whatever they are. -/
def dummy (raw : Buffer) : LogEntry := ⟨0, raw, appLog, 0⟩

/-- The constructor. -/
def initial (raw : Buffer) : MemLogStore := ⟨.singleton 0 (dummy raw), 1⟩

def clone (entry : LogEntry) : LogEntry :=
  ⟨entry.term, entry.buf, entry.valType, entry.timestamp⟩

def nextSlot (s : MemLogStore) : Nat := s.startIdx + s.logs.size - 1

def startIndex (s : MemLogStore) : Nat := s.startIdx

/-- `find(index)`, and `find(0)` when that is the end. Dereferencing the end
iterator is `none`. -/
def findOrDummy (s : MemLogStore) (index : Nat) : Option LogEntry :=
  match s.logs.find? index with
  | some e => some e
  | none => s.logs.find? 0

def lastEntry (s : MemLogStore) : Option LogEntry :=
  (s.findOrDummy (s.startIdx + s.logs.size - 2)).map clone

/-- `append`: the index used and the store after it. -/
def append (s : MemLogStore) (entry : LogEntry) : Nat × MemLogStore :=
  let idx := s.startIdx + s.logs.size - 1
  (idx, { s with logs := s.logs.insert idx (clone entry) })

def writeAt (s : MemLogStore) (index : Nat) (entry : LogEntry) : MemLogStore :=
  { s with logs := (s.logs.eraseFrom index).insert index (clone entry) }

/-- The loop of `log_entries` over `count` indices from `i` on. -/
def collectFrom (s : MemLogStore) : Nat → Nat → Option (List LogEntry)
  | _, 0 => some []
  | i, count + 1 =>
      match s.logs.find? i with
      | none => none
      | some e => (s.collectFrom (i + 1) count).map (clone e :: ·)

/-- `log_entries`; a missing index makes the result null. For a range that ends
before it starts `reserve` throws. -/
def logEntries (s : MemLogStore) (start stop : Nat) : Option (List LogEntry) :=
  if start ≤ stop then s.collectFrom start (stop - start) else none

def entryAt (s : MemLogStore) (index : Nat) : Option LogEntry :=
  (s.findOrDummy index).map clone

def termAt (s : MemLogStore) (index : Nat) : Option Nat :=
  (s.findOrDummy index).map LogEntry.term

def compact (s : MemLogStore) (lastLogIndex : Nat) : MemLogStore where
  logs := (List.range' s.startIdx (lastLogIndex + 1 - s.startIdx)).foldl OrdMap.erase s.logs
  startIdx := if s.startIdx ≤ lastLogIndex then lastLogIndex + 1 else s.startIdx

@[simp] theorem clone_eq (e : LogEntry) : clone e = e := rfl

/-- One modifying call. -/
def apply (s : MemLogStore) : IndexedLog.Op LogEntry → MemLogStore
  | .append e => (s.append e).2
  | .writeAt i e => s.writeAt i e
  | .compact k => s.compact k

/-- What NuRaft keeps to: it writes inside the log or directly behind it. -/
def Allowed (s : MemLogStore) : IndexedLog.Op LogEntry → Prop
  | .writeAt i _ => s.startIndex ≤ i ∧ i ≤ s.nextSlot
  | _ => True

/-- All runs of a store under its modifying calls. -/
def system (raw : Buffer) : System MemLogStore (IndexedLog.Op LogEntry) where
  init s := s = initial raw
  step s op s' := s.Allowed op ∧ s' = s.apply op

/-- The store holds the log: the dummy at key 0, then the entries under
consecutive keys from the first index on. -/
structure Models (raw : Buffer) (s : MemLogStore) (log : IndexedLog LogEntry) : Prop where
  start : s.startIdx = log.first
  entries : s.logs.entries =
    (0, dummy raw) :: IndexedLog.assocFrom log.first log.entries

section Queries

variable {raw : Buffer} {s : MemLogStore} {log : IndexedLog LogEntry}

theorem initial_models : Models raw (initial raw) .empty := ⟨rfl, rfl⟩

theorem Models.size (h : Models raw s log) : s.logs.size = log.entries.length + 1 := by
  simp [OrdMap.size, h.entries]

theorem Models.nextSlot (h : Models raw s log) : s.nextSlot = log.next := by
  unfold MemLogStore.nextSlot IndexedLog.next
  rw [h.start, h.size]
  omega

theorem Models.find? (h : Models raw s log) (i : Nat) :
    s.logs.find? i = if i = 0 then some (dummy raw) else log.get? i := by
  have hfirst := log.first_pos
  apply Option.ext
  intro e
  rw [OrdMap.find?_eq_some, h.entries, List.mem_cons, Prod.mk.injEq,
    ← IndexedLog.get?_eq_some]
  by_cases hi : i = 0
  · subst hi
    have hnone : log.get? 0 ≠ some e := by
      intro hget
      have hbounds := IndexedLog.get?_isSome_iff.mp (Option.isSome_of_eq_some hget)
      omega
    simp [hnone, eq_comm]
  · simp [hi]

theorem Models.findOrDummy (h : Models raw s log) (i : Nat) :
    s.findOrDummy i = some ((log.get? i).getD (dummy raw)) := by
  have hzero := h.find? 0
  unfold MemLogStore.findOrDummy
  rw [h.find? i]
  by_cases hi : i = 0
  · subst hi
    have hnone : log.get? 0 = none := by
      have hfirst := log.first_pos
      rw [← Option.not_isSome_iff_eq_none, IndexedLog.get?_isSome_iff]
      omega
    simp [hnone]
  · cases hget : log.get? i with
    | none => simpa [hi] using hzero
    | some e => simp [hi]

theorem Models.lastEntry (h : Models raw s log) :
    s.lastEntry = some ((log.get? (log.next - 1)).getD (dummy raw)) := by
  have hpos : s.startIdx + s.logs.size - 2 = log.next - 1 := by
    unfold IndexedLog.next
    rw [h.start, h.size]
    omega
  simp [MemLogStore.lastEntry, hpos, h.findOrDummy]

theorem Models.collectFrom_in (h : Models raw s log) {i count : Nat}
    (hi : log.first ≤ i) (hcount : i + count ≤ log.next) :
    s.collectFrom i count = some ((log.entries.drop (i - log.first)).take count) := by
  induction count generalizing i with
  | zero => simp [collectFrom]
  | succ count ih =>
      have hfirst := log.first_pos
      have hlt : i - log.first < log.entries.length := by
        unfold IndexedLog.next at hcount
        omega
      have hfind : s.logs.find? i = some log.entries[i - log.first] := by
        rw [h.find? i, if_neg (by omega), IndexedLog.get?, if_pos hi,
          List.getElem?_eq_getElem hlt]
      have hsub : i + 1 - log.first = i - log.first + 1 := by omega
      have hrest := ih (i := i + 1) (by omega) (by omega)
      simp only [collectFrom, hfind, hrest, hsub, clone_eq, Option.map_some]
      rw [List.drop_eq_getElem_cons hlt, List.take_succ_cons]

theorem Models.collectFrom_out (h : Models raw s log) {i count : Nat}
    (hi : 1 ≤ i) (hcount : 0 < count) (hout : ¬(log.first ≤ i ∧ i + count ≤ log.next)) :
    s.collectFrom i count = none := by
  induction count generalizing i with
  | zero => omega
  | succ count ih =>
      have hfind : s.logs.find? i = log.get? i := by
        rw [h.find? i, if_neg (by omega)]
      cases hget : log.get? i with
      | none => simp [collectFrom, hfind, hget]
      | some e =>
          have hin := IndexedLog.get?_isSome_iff.mp (Option.isSome_of_eq_some hget)
          have hrest := ih (i := i + 1) (by omega) (by omega) (by omega)
          simp [collectFrom, hfind, hget, hrest]

/-- `log_entries` on a range starting above the dummy is the slice when the
range lies in the log, and null when some index is missing. -/
theorem Models.logEntries (h : Models raw s log) {a b : Nat} (ha : 1 ≤ a) (hab : a ≤ b) :
    s.logEntries a b =
      if (log.first ≤ a ∧ b ≤ log.next) ∨ a = b then some (log.slice a b) else none := by
  rw [MemLogStore.logEntries, if_pos hab]
  by_cases heq : a = b
  · subst heq
    simp [collectFrom, IndexedLog.slice]
  · by_cases hin : log.first ≤ a ∧ b ≤ log.next
    · rw [if_pos (Or.inl hin), h.collectFrom_in hin.1 (by omega)]
      rfl
    · rw [if_neg (by tauto), h.collectFrom_out ha (by omega) (by omega)]

end Queries

section Updates

variable {raw : Buffer} {s : MemLogStore} {log : IndexedLog LogEntry}

theorem Models.append (h : Models raw s log) (e : LogEntry) :
    (s.append e).1 = log.next ∧ Models raw (s.append e).2 (log.append e) := by
  have hidx : s.startIdx + s.logs.size - 1 = log.next := h.nextSlot
  have hfirst := log.first_pos
  refine ⟨hidx, h.start, ?_⟩
  have hbelow : ∀ p ∈ s.logs.entries, p.1 < log.next := by
    intro p hp
    rw [h.entries] at hp
    rcases List.mem_cons.mp hp with rfl | hp
    · simp only [IndexedLog.next]
      omega
    · exact (IndexedLog.key_bounds_of_mem_assocFrom hp).2
  simp only [MemLogStore.append, hidx, clone_eq]
  rw [OrdMap.insert_entries_of_forall_lt e hbelow, h.entries]
  simp [IndexedLog.append, IndexedLog.assocFrom_append, IndexedLog.assocFrom, IndexedLog.next]

theorem Models.writeAt (h : Models raw s log) {i : Nat} (e : LogEntry)
    (hfirst : log.first ≤ i) (hnext : i ≤ log.next) :
    Models raw (s.writeAt i e) (log.writeAt i e) := by
  have hpos := log.first_pos
  refine ⟨h.start, ?_⟩
  have hkept : (s.logs.eraseFrom i).entries =
      (0, dummy raw) :: IndexedLog.assocFrom log.first (log.entries.take (i - log.first)) := by
    have hi : 0 < i := by omega
    simp [OrdMap.eraseFrom, h.entries, hi, IndexedLog.filter_lt_assocFrom]
  have hbelow : ∀ p ∈ (s.logs.eraseFrom i).entries, p.1 < i := by
    intro p hp
    exact (OrdMap.mem_eraseFrom.mp hp).2
  have hlen : log.first + (log.entries.take (i - log.first)).length = i := by
    unfold IndexedLog.next at hnext
    rw [List.length_take]
    omega
  simp only [MemLogStore.writeAt, clone_eq]
  rw [OrdMap.insert_entries_of_forall_lt e hbelow, hkept]
  simp only [IndexedLog.writeAt, IndexedLog.assocFrom_append, hlen]
  rfl

theorem Models.compact (h : Models raw s log) (k : Nat) :
    Models raw (s.compact k) (log.compact k) := by
  have hpos := log.first_pos
  refine ⟨?_, ?_⟩
  · simp only [MemLogStore.compact, IndexedLog.compact, h.start]
    split <;> omega
  · simp only [MemLogStore.compact, IndexedLog.compact]
    rw [OrdMap.foldl_erase_entries, h.entries, h.start,
      ← IndexedLog.filter_ge_assocFrom, List.filter_cons_of_pos]
    · congr 1
      apply List.filter_congr
      intro p hp
      have hbounds := IndexedLog.key_bounds_of_mem_assocFrom hp
      simp only [List.mem_range'_1, decide_eq_decide]
      omega
    · simp only [List.mem_range'_1, decide_eq_true_eq]
      omega

theorem Models.allowed (h : Models raw s log) (op : IndexedLog.Op LogEntry) :
    s.Allowed op ↔ log.Allowed op := by
  cases op with
  | append e => exact Iff.rfl
  | writeAt i e =>
      simp only [MemLogStore.Allowed, IndexedLog.Allowed, h.nextSlot, startIndex, h.start]
  | compact k => exact Iff.rfl

theorem Models.apply (h : Models raw s log) {op : IndexedLog.Op LogEntry}
    (hallowed : log.Allowed op) : Models raw (s.apply op) (log.apply op) := by
  cases op with
  | append e => exact (h.append e).2
  | writeAt i e => exact h.writeAt e hallowed.1 hallowed.2
  | compact k => exact h.compact k

/-- The store simulates the abstract log operation by operation. -/
theorem models_simulation (raw : Buffer) :
    (system raw).Simulation IndexedLog.system (Models raw) where
  init := by
    rintro s rfl
    exact ⟨.empty, rfl, initial_models⟩
  step := by
    rintro s op s' log h ⟨hallowed, rfl⟩
    have hlog := (h.allowed op).mp hallowed
    exact ⟨log.apply op, ⟨hlog, rfl⟩, h.apply hlog⟩

end Updates

/-- The store is a Raft log. After any sequence of appends, writes inside the
log or directly behind it, and compactions, there is an abstract log that went
through the same operations and answers every query: the keys are 0 and the
range from the first index to the next slot, and each read is the log's own. -/
theorem memLogStore_refines_log (raw : Buffer) {ops : List (IndexedLog.Op LogEntry)}
    {s : MemLogStore} (hrun : (system raw).Run (initial raw) ops s) :
    ∃ log, IndexedLog.system.Run .empty ops log ∧
      s.startIndex = log.first ∧ s.nextSlot = log.next ∧
      (∀ e, (s.append e).1 = log.next) ∧
      (∀ k, (s.logs.find? k).isSome ↔ k = 0 ∨ (s.startIndex ≤ k ∧ k < s.nextSlot)) ∧
      s.lastEntry = some ((log.get? (s.nextSlot - 1)).getD (dummy raw)) ∧
      (∀ i, s.entryAt i = some ((log.get? i).getD (dummy raw))) ∧
      (∀ i, s.termAt i = some ((log.get? i).getD (dummy raw)).term) ∧
      ∀ a b, 1 ≤ a → a ≤ b → s.logEntries a b =
        if (s.startIndex ≤ a ∧ b ≤ s.nextSlot) ∨ a = b then some (log.slice a b)
        else none := by
  obtain ⟨log, hlog, h⟩ := (models_simulation raw).run initial_models hrun
  have hstart : s.startIndex = log.first := h.start
  refine ⟨log, hlog, hstart, h.nextSlot, fun e => (h.append e).1, ?_, ?_, ?_, ?_, ?_⟩
  · intro k
    rw [h.find? k, hstart, h.nextSlot]
    by_cases hk : k = 0
    · simp [hk]
    · rw [if_neg hk, IndexedLog.get?_isSome_iff]
      tauto
  · rw [h.nextSlot]
    exact h.lastEntry
  · intro i
    simp [MemLogStore.entryAt, h.findOrDummy]
  · intro i
    simp [MemLogStore.termAt, h.findOrDummy]
  · intro a b ha hab
    rw [hstart, h.nextSlot]
    exact h.logEntries ha hab

theorem memLogStore_refines_log_truncated :
    let e : LogEntry := ⟨1, [7], appLog, 0⟩
    let ops : List (IndexedLog.Op LogEntry) := [.append e, .append e, .compact 1, .writeAt 2 e]
    let s := ops.foldl apply (initial [])
    ∃ log, IndexedLog.system.Run .empty ops log ∧ s.startIndex = log.first ∧
      s.nextSlot = log.next ∧ s.startIndex = 2 ∧ s.nextSlot = 3 := by
  intro e ops s
  have hstep (s : MemLogStore) (op : IndexedLog.Op LogEntry) (h : s.Allowed op) :
      (system []).Run s [op] (s.apply op) := .single ⟨h, rfl⟩
  have hrun : (system []).Run (initial []) ops s :=
    (hstep _ (.append e) trivial).append ((hstep _ (.append e) trivial).append
      ((hstep _ (.compact 1) trivial).append (hstep _ (.writeAt 2 e) ⟨by decide, by decide⟩)))
  obtain ⟨log, hlog, hstart, hnext, -⟩ := memLogStore_refines_log [] hrun
  exact ⟨log, hlog, hstart, hnext, by decide, by decide⟩

end MemLogStore

end CppWorkspace.RaftRpc
