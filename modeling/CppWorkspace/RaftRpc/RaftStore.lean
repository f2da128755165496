import CppWorkspace.Lib.RaftMatching
import CppWorkspace.RaftRpc.MemLogStore

/-!
The log store as a Raft server uses it between two compactions: a list of
entries from index 1 on, and the loop that stores the entries of an
`append_entries` request.
-/

namespace CppWorkspace.RaftRpc

open Lib Lib.Raft

namespace MemLogStore

/-- The store holds exactly these entries, the first at index 1. -/
def Holds (raw : Buffer) (s : MemLogStore) (l : List LogEntry) : Prop :=
  Models raw s ⟨1, l, Nat.one_pos⟩

/-- Skip the entries the store has already, by index and term. -/
def skipKnown (s : MemLogStore) : Nat → List LogEntry → Nat × List LogEntry
  | idx, [] => (idx, [])
  | idx, e :: rest =>
      if idx < s.nextSlot ∧ s.termAt idx = some e.term then s.skipKnown (idx + 1) rest
      else (idx, e :: rest)

/-- Overwrite from `idx` on, and append what lies beyond the last entry. -/
def writeEntries (s : MemLogStore) : Nat → List LogEntry → MemLogStore
  | _, [] => s
  | idx, e :: rest =>
      if idx < s.nextSlot then (s.writeAt idx e).writeEntries (idx + 1) rest
      else (s.append e).2.writeEntries (idx + 1) rest

/-- NuRaft's handling of the entries of a request. -/
def storeEntries (s : MemLogStore) (idx : Nat) (entries : List LogEntry) : MemLogStore :=
  let (idx, entries) := s.skipKnown idx entries
  s.writeEntries idx entries

section Holds

variable {raw : Buffer} {s : MemLogStore} {l : List LogEntry}

theorem initial_holds (raw : Buffer) : Holds raw (initial raw) [] := initial_models

theorem Holds.unique {l' : List LogEntry} (h : Holds raw s l) (h' : Holds raw s l') : l = l' := by
  have hsame := h.entries.symm.trans h'.entries
  rw [List.cons.injEq] at hsame
  exact IndexedLog.assocFrom_injective 1 hsame.2

theorem Holds.nextSlot (h : Holds raw s l) : s.nextSlot = l.length + 1 := by
  rw [Models.nextSlot h]
  exact Nat.add_comm 1 l.length

theorem Holds.get? (i : Nat) (hi : 1 ≤ i) :
    IndexedLog.get? ⟨1, l, Nat.one_pos⟩ i = l[i - 1]? := by
  simp [IndexedLog.get?, hi]

theorem Holds.entryAt (h : Holds raw s l) {i : Nat} {e : LogEntry} (he : l[i]? = some e) :
    s.entryAt (i + 1) = some e := by
  have hfind := Models.findOrDummy h (i + 1)
  rw [Holds.get? (i + 1) (by omega), Nat.add_sub_cancel, he] at hfind
  simp [MemLogStore.entryAt, hfind]

theorem Holds.termAt (h : Holds raw s l) {i : Nat} {e : LogEntry} (he : l[i]? = some e) :
    s.termAt (i + 1) = some e.term := by
  have hfind := Models.findOrDummy h (i + 1)
  rw [Holds.get? (i + 1) (by omega), Nat.add_sub_cancel, he] at hfind
  simp [MemLogStore.termAt, hfind]

/-- The term of `last_entry()`; the dummy's is 0. -/
theorem Holds.lastEntry (h : Holds raw s l) :
    s.lastEntry.map LogEntry.term = some (lastTerm LogEntry.term l) := by
  rw [Models.lastEntry h]
  rcases List.eq_nil_or_concat' l with rfl | ⟨l, e, rfl⟩
  · rfl
  · have hlast : IndexedLog.get? ⟨1, l ++ [e], Nat.one_pos⟩
        (IndexedLog.next ⟨1, l ++ [e], Nat.one_pos⟩ - 1) = some e := by
      have hpos : IndexedLog.next ⟨1, l ++ [e], Nat.one_pos⟩ - 1 = l.length + 1 := by
        simp only [IndexedLog.next, List.length_append, List.length_singleton]
        omega
      rw [hpos, Holds.get? _ (by omega)]
      simp
    rw [hlast]
    simp [lastTerm]

theorem Holds.append (h : Holds raw s l) (e : LogEntry) : Holds raw (s.append e).2 (l ++ [e]) :=
  (Models.append h e).2

theorem Holds.writeAt (h : Holds raw s l) {i : Nat} (hi : i ≤ l.length) (e : LogEntry) :
    Holds raw (s.writeAt (i + 1) e) (l.take i ++ [e]) := by
  have hnext : i + 1 ≤ IndexedLog.next ⟨1, l, Nat.one_pos⟩ := by
    simp only [IndexedLog.next]
    omega
  unfold Holds
  simpa [IndexedLog.writeAt] using Models.writeAt h e (i := i + 1) (by simp) hnext

theorem Holds.logEntries (h : Holds raw s l) {i j : Nat} (hij : i ≤ j) (hj : j ≤ l.length) :
    s.logEntries (i + 1) (j + 1) = some ((l.drop i).take (j - i)) := by
  have hnext : IndexedLog.next ⟨1, l, Nat.one_pos⟩ = l.length + 1 := by
    simp only [IndexedLog.next]
    omega
  rw [Models.logEntries h (by omega) (by omega), if_pos (Or.inl ⟨by simp, by omega⟩)]
  simp [IndexedLog.slice]

theorem Holds.logEntries_all (h : Holds raw s l) : s.logEntries 1 s.nextSlot = some l := by
  rw [h.nextSlot, h.logEntries (Nat.zero_le _) le_rfl]
  simp

end Holds

/-- The log after `writeEntries` from position `i` on. -/
theorem Holds.writeEntries {raw : Buffer} {s : MemLogStore} {l : List LogEntry}
    (h : Holds raw s l) {i : Nat} (hi : i ≤ l.length) {entries : List LogEntry}
    (hne : entries ≠ []) :
    Holds raw (s.writeEntries (i + 1) entries) (l.take i ++ entries) := by
  induction entries generalizing s l i with
  | nil => exact absurd rfl hne
  | cons e rest ih =>
      have hwritten : Holds raw (if i + 1 < s.nextSlot then s.writeAt (i + 1) e
          else (s.append e).2) (l.take i ++ [e]) := by
        split
        · exact h.writeAt hi e
        · next hslot =>
          rw [h.nextSlot] at hslot
          rw [List.take_of_length_le (by omega)]
          exact h.append e
      have hrest : Holds raw ((if i + 1 < s.nextSlot then s.writeAt (i + 1) e
          else (s.append e).2).writeEntries (i + 1 + 1) rest) (l.take i ++ e :: rest) := by
        cases rest with
        | nil => simpa [MemLogStore.writeEntries] using hwritten
        | cons e' rest =>
            have hlen : (l.take i ++ [e]).length = i + 1 := by
              simp [hi]
            have hgoal := ih hwritten (i := i + 1) hlen.ge (by simp)
            rw [← hlen, List.take_length] at hgoal
            rw [hlen] at hgoal
            simpa using hgoal
      rw [MemLogStore.writeEntries]
      split
      · next hslot => simpa [hslot] using hrest
      · next hslot => simpa [hslot] using hrest

/-- The log after the entries of a request that starts behind position `i`:
entries that are there already stay, the first that differs replaces the rest. -/
def mergeFrom (l : List LogEntry) : Nat → List LogEntry → List LogEntry
  | _, [] => l
  | i, e :: rest =>
      if (l[i]?).map LogEntry.term = some e.term then mergeFrom l (i + 1) rest
      else l.take i ++ e :: rest

theorem Holds.storeEntries {raw : Buffer} {s : MemLogStore} {l : List LogEntry}
    (h : Holds raw s l) {i : Nat} (hi : i ≤ l.length) (entries : List LogEntry) :
    Holds raw (s.storeEntries (i + 1) entries) (mergeFrom l i entries) := by
  induction entries generalizing i with
  | nil => exact h
  | cons e rest ih =>
      have hknown : (i + 1 < s.nextSlot ∧ s.termAt (i + 1) = some e.term) ↔
          (l[i]?).map LogEntry.term = some e.term := by
        rw [h.nextSlot]
        rcases Nat.lt_or_ge i l.length with hlt | hge
        · rw [h.termAt (List.getElem?_eq_getElem hlt), List.getElem?_eq_getElem hlt]
          simp [hlt]
        · simp only [List.getElem?_eq_none hge]
          simp
          omega
      by_cases hsame : (l[i]?).map LogEntry.term = some e.term
      · have hlt : i < l.length := by
          by_contra hge
          rw [List.getElem?_eq_none (by omega)] at hsame
          cases hsame
        have hgoal := ih (i := i + 1) hlt
        simp only [MemLogStore.storeEntries, skipKnown, if_pos (hknown.mpr hsame), mergeFrom,
          if_pos hsame] at hgoal ⊢
        exact hgoal
      · simp only [MemLogStore.storeEntries, skipKnown, if_neg (fun hk => hsame (hknown.mp hk)),
          mergeFrom, if_neg hsame]
        exact h.writeEntries hi (by simp)

/-- Entries cut from a log that agrees with this one up to their position:
storing them takes over that log as far as the entries reach. -/
theorem mergeFrom_eq_takeOver {ι : Type*} {w : World ι LogEntry} {log l : List LogEntry}
    (hlog : Matched LogEntry.term w log) (hl : Matched LogEntry.term w l) {i : Nat}
    (hi : i ≤ log.length) (hagree : log.take i = l.take i) {entries : List LogEntry}
    (hentries : entries <+: l.drop i) :
    mergeFrom log i entries = takeOver log (l.take i ++ entries) := by
  induction entries generalizing i with
  | nil =>
      have hpre : l.take i ++ [] <+: log := by
        rw [List.append_nil, ← hagree]
        exact List.take_prefix i log
      simp only [mergeFrom, takeOver, if_pos hpre]
  | cons e rest ih =>
      obtain ⟨tail, htail⟩ := hentries
      have hil : l[i]? = some e := by
        have hget := congrArg (·[0]?) htail
        simpa using hget.symm
      have hlt : i < l.length := (List.getElem?_eq_some_iff.mp hil).1
      have hsucc : l.take (i + 1) = l.take i ++ [e] := by
        rw [List.take_add_one, hil]
        rfl
      have hlong : l.take i ++ e :: rest = l.take (i + 1) ++ rest := by simp [hsucc]
      rw [mergeFrom]
      split
      · next hsame =>
        obtain ⟨e', he', hterm⟩ := Option.map_eq_some_iff.mp hsame
        have hlt' : i < log.length := (List.getElem?_eq_some_iff.mp he').1
        have hsucc' : log.take (i + 1) = log.take i ++ [e'] := by
          rw [List.take_add_one, he']
          rfl
        have hnext : log.take (i + 1) = l.take (i + 1) := by
          rw [hsucc, hsucc']
          refine hlog.agree hl ?_ ?_ ?_ hterm
          · rw [← hsucc']
            exact List.take_prefix _ _
          · rw [← hsucc]
            exact List.take_prefix _ _
          · rw [hagree]
        have hrest : rest <+: l.drop (i + 1) := by
          rw [← List.tail_drop, ← htail]
          exact ⟨tail, rfl⟩
        rw [hlong]
        exact ih hlt' hnext hrest
      · next hdiffers =>
        rcases takeOver_cases log (l.take i ++ e :: rest) with ⟨-, hpre⟩ | ⟨heq, -⟩
        · exfalso
          apply hdiffers
          rw [hlong] at hpre
          have hget : log[i]? = some e := by
            obtain ⟨rest', rfl⟩ := hpre
            rw [List.append_assoc, List.getElem?_append_left (by simp; omega)]
            simp [hil]
          rw [hget]
          rfl
        · rw [heq, hagree]

end MemLogStore

end CppWorkspace.RaftRpc
