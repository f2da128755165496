import Mathlib

/-!
Finite maps kept as key-sorted association lists, with the operations an
ordered container offers: lookup, insert-or-assign, erase, erase from a lower
bound to the end, and removal of the smallest entries. Sortedness is a field,
so every value of the type is a map.
-/

namespace CppWorkspace.Lib

/-- Drop elements from the front while more than `bound` remain. -/
def dropWhileLonger {γ : Type*} (bound : Nat) : List γ → List γ
  | [] => []
  | e :: rest =>
      if bound < (e :: rest).length then dropWhileLonger bound rest else e :: rest

theorem dropWhileLonger_suffix {γ : Type*} (bound : Nat) (l : List γ) :
    dropWhileLonger bound l <:+ l := by
  induction l with
  | nil => exact List.suffix_rfl
  | cons e rest ih =>
      unfold dropWhileLonger
      split
      · exact ih.trans (List.suffix_cons e rest)
      · exact List.suffix_rfl

structure OrdMap (κ : Type*) [LinearOrder κ] (α : Type*) where
  entries : List (κ × α)
  sorted : entries.Pairwise (fun a b => a.1 < b.1)

namespace OrdMap

variable {κ : Type*} [LinearOrder κ] {α : Type*}

@[ext] theorem ext {m n : OrdMap κ α} (h : m.entries = n.entries) : m = n := by
  cases m
  cases n
  cases h
  rfl

def empty : OrdMap κ α := ⟨[], .nil⟩

def singleton (k : κ) (v : α) : OrdMap κ α := ⟨[(k, v)], List.pairwise_singleton _ _⟩

def size (m : OrdMap κ α) : Nat := m.entries.length

def find? (m : OrdMap κ α) (k : κ) : Option α :=
  (m.entries.find? (fun e => decide (e.1 = k))).map Prod.snd

/-- Insert a new key or assign to an existing one. -/
def insert (m : OrdMap κ α) (k : κ) (v : α) : OrdMap κ α where
  entries := m.entries.filter (fun e => decide (e.1 < k)) ++
    (k, v) :: m.entries.filter (fun e => decide (k < e.1))
  sorted := by
    rw [List.pairwise_append]
    refine ⟨m.sorted.filter _, ?_, ?_⟩
    · rw [List.pairwise_cons]
      refine ⟨?_, m.sorted.filter _⟩
      intro e he
      simpa using (List.mem_filter.mp he).2
    · intro a ha b hb
      have hak : a.1 < k := by simpa using (List.mem_filter.mp ha).2
      rcases List.mem_cons.mp hb with rfl | hb
      · exact hak
      · have hkb : k < b.1 := by simpa using (List.mem_filter.mp hb).2
        exact hak.trans hkb

/-- Insert unless the key is in use. -/
def emplace (m : OrdMap κ α) (k : κ) (v : α) : OrdMap κ α :=
  if (m.find? k).isSome then m else m.insert k v

def erase (m : OrdMap κ α) (k : κ) : OrdMap κ α where
  entries := m.entries.filter (fun e => decide (e.1 ≠ k))
  sorted := m.sorted.filter _

/-- Erase every entry from the lower bound of `k` to the end. -/
def eraseFrom (m : OrdMap κ α) (k : κ) : OrdMap κ α where
  entries := m.entries.filter (fun e => decide (e.1 < k))
  sorted := m.sorted.filter _

/-- The first entry whose key is above `k`. -/
def upperBound (m : OrdMap κ α) (k : κ) : Option (κ × α) :=
  m.entries.find? (fun e => decide (k < e.1))

/-- Erase the smallest key until at most `bound` entries remain. -/
def shrinkTo (m : OrdMap κ α) (bound : Nat) : OrdMap κ α where
  entries := dropWhileLonger bound m.entries
  sorted := m.sorted.sublist (dropWhileLonger_suffix bound m.entries).sublist

/-! Membership of each operation's result. -/

theorem mem_insert {m : OrdMap κ α} {k : κ} {v : α} {e : κ × α} :
    e ∈ (m.insert k v).entries ↔ e = (k, v) ∨ (e ∈ m.entries ∧ e.1 ≠ k) := by
  simp only [insert, List.mem_append, List.mem_filter, List.mem_cons, decide_eq_true_eq]
  constructor
  · rintro (⟨he, hlt⟩ | rfl | ⟨he, hlt⟩)
    · exact Or.inr ⟨he, hlt.ne⟩
    · exact Or.inl rfl
    · exact Or.inr ⟨he, hlt.ne'⟩
  · rintro (rfl | ⟨he, hne⟩)
    · exact Or.inr (Or.inl rfl)
    · rcases lt_or_gt_of_ne hne with hlt | hgt
      · exact Or.inl ⟨he, hlt⟩
      · exact Or.inr (Or.inr ⟨he, hgt⟩)

theorem mem_erase {m : OrdMap κ α} {k : κ} {e : κ × α} :
    e ∈ (m.erase k).entries ↔ e ∈ m.entries ∧ e.1 ≠ k := by
  simp [erase, List.mem_filter]

theorem mem_eraseFrom {m : OrdMap κ α} {k : κ} {e : κ × α} :
    e ∈ (m.eraseFrom k).entries ↔ e ∈ m.entries ∧ e.1 < k := by
  simp [eraseFrom, List.mem_filter]

theorem mem_of_mem_shrinkTo {m : OrdMap κ α} {bound : Nat} {e : κ × α}
    (he : e ∈ (m.shrinkTo bound).entries) : e ∈ m.entries :=
  (dropWhileLonger_suffix bound m.entries).subset he

/-- Two entries under one key are the same entry. -/
theorem entry_unique (m : OrdMap κ α) {k : κ} {v w : α}
    (hv : (k, v) ∈ m.entries) (hw : (k, w) ∈ m.entries) : v = w := by
  obtain ⟨i, hi, hiv⟩ := List.getElem_of_mem hv
  obtain ⟨j, hj, hjw⟩ := List.getElem_of_mem hw
  have hkeys : (m.entries[i]).1 = (m.entries[j]).1 := by rw [hiv, hjw]
  rcases Nat.lt_trichotomy i j with hij | rfl | hij
  · exact absurd hkeys (List.pairwise_iff_getElem.mp m.sorted i j hi hj hij).ne
  · exact congrArg Prod.snd (hiv.symm.trans hjw)
  · exact absurd hkeys (List.pairwise_iff_getElem.mp m.sorted j i hj hi hij).ne'

theorem find?_eq_some {m : OrdMap κ α} {k : κ} {v : α} :
    m.find? k = some v ↔ (k, v) ∈ m.entries := by
  unfold find?
  constructor
  · intro h
    obtain ⟨⟨k', v'⟩, hfind, hval⟩ := Option.map_eq_some_iff.mp h
    have hkey : k' = k := by simpa using List.find?_some hfind
    have hmem := List.mem_of_find?_eq_some hfind
    simp only at hval
    rwa [← hkey, ← hval]
  · intro hmem
    cases hfind : m.entries.find? (fun e => decide (e.1 = k)) with
    | none =>
        have := List.find?_eq_none.mp hfind (k, v) hmem
        simp at this
    | some e =>
        obtain ⟨k', v'⟩ := e
        have hkey : k' = k := by simpa using List.find?_some hfind
        have hmem' := List.mem_of_find?_eq_some hfind
        rw [hkey] at hmem'
        simp [m.entry_unique hmem hmem']

theorem find?_eq_none {m : OrdMap κ α} {k : κ} :
    m.find? k = none ↔ ∀ e ∈ m.entries, e.1 ≠ k := by
  simp [find?]

theorem mem_emplace_of_unused {m : OrdMap κ α} {k : κ} {v : α} {e : κ × α}
    (hunused : m.find? k = none) :
    e ∈ (m.emplace k v).entries ↔ e = (k, v) ∨ e ∈ m.entries := by
  rw [emplace, hunused, if_neg (by simp), mem_insert]
  constructor
  · rintro (he | ⟨he, -⟩)
    · exact Or.inl he
    · exact Or.inr he
  · rintro (he | he)
    · exact Or.inl he
    · exact Or.inr ⟨he, find?_eq_none.mp hunused e he⟩

/-- At most one entry has a given key. -/
theorem filter_key (m : OrdMap κ α) (k : κ) :
    m.entries.filter (fun e => decide (e.1 = k)) = (m.find? k).toList.map (fun v => (k, v)) := by
  have hlist : ∀ l : List (κ × α), l.Pairwise (fun a b => a.1 < b.1) →
      l.filter (fun e => decide (e.1 = k)) =
        ((l.find? (fun e => decide (e.1 = k))).map Prod.snd).toList.map (fun v => (k, v)) := by
    intro l hsorted
    induction l with
    | nil => rfl
    | cons e rest ih =>
        obtain ⟨hhead, hrest⟩ := List.pairwise_cons.mp hsorted
        by_cases hkey : e.1 = k
        · have hnone : rest.filter (fun e => decide (e.1 = k)) = [] := by
            rw [List.filter_eq_nil_iff]
            intro b hb
            have hlt := hhead b hb
            rw [hkey] at hlt
            simpa using hlt.ne'
          rw [List.filter_cons_of_pos (by simpa using hkey), hnone,
            List.find?_cons_of_pos (by simpa using hkey)]
          simp [← hkey]
        · rw [List.filter_cons_of_neg (by simpa using hkey),
            List.find?_cons_of_neg (by simpa using hkey), ih hrest]
  exact hlist m.entries m.sorted

/-- A key above all others goes to the end. -/
theorem insert_entries_of_forall_lt {m : OrdMap κ α} {k : κ} (v : α)
    (h : ∀ e ∈ m.entries, e.1 < k) : (m.insert k v).entries = m.entries ++ [(k, v)] := by
  have hbelow : m.entries.filter (fun e => decide (e.1 < k)) = m.entries := by
    rw [List.filter_eq_self]
    intro e he
    simpa using h e he
  have habove : m.entries.filter (fun e => decide (k < e.1)) = [] := by
    rw [List.filter_eq_nil_iff]
    intro e he
    simpa using (h e he).le
  simp [insert, hbelow, habove]

theorem foldl_erase_entries (m : OrdMap κ α) (keys : List κ) :
    (keys.foldl erase m).entries = m.entries.filter (fun e => decide (e.1 ∉ keys)) := by
  induction keys generalizing m with
  | nil => simp
  | cons k rest ih =>
      rw [List.foldl_cons, ih, erase, List.filter_filter]
      congr 1
      funext e
      simp [Bool.and_comm]

end OrdMap

end CppWorkspace.Lib
