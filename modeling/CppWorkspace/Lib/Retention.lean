import CppWorkspace.Lib.OrdMap

/-!
Keeping the largest elements. A set that only ever drops an element when
`bound` larger ones are left answers the question whether fewer than `bound`
elements lie above a key just as the set of all elements ever added does.
-/

namespace CppWorkspace.Lib

section KeepsLargest

variable {κ : Type*} [LinearOrder κ]

/-- The elements above a key. -/
def above (s : Finset κ) (k : κ) : Finset κ := {i ∈ s | k < i}

theorem above_mono {s t : Finset κ} (h : s ⊆ t) (k : κ) : above s k ⊆ above t k :=
  Finset.filter_subset_filter _ h

theorem mem_above {s : Finset κ} {i k : κ} : i ∈ above s k ↔ i ∈ s ∧ k < i := by
  simp [above]

/-- `kept` holds elements of `s` only, and whatever it lacks has `bound` larger
ones in `s`. -/
structure KeepsLargest (bound : ℕ) (kept s : Finset κ) : Prop where
  subset : kept ⊆ s
  dropped : ∀ i ∈ s, i ∉ kept → bound ≤ (above s i).card

namespace KeepsLargest

variable {bound : ℕ} {kept s t : Finset κ}

theorem refl (bound : ℕ) (s : Finset κ) : KeepsLargest bound s s :=
  ⟨Finset.Subset.refl s, fun _ hi hnot => absurd hi hnot⟩

theorem trans (h : KeepsLargest bound kept s) (h' : KeepsLargest bound s t) :
    KeepsLargest bound kept t := by
  refine ⟨h.subset.trans h'.subset, fun i hi hnot => ?_⟩
  by_cases hs : i ∈ s
  · have hcard := Finset.card_le_card (above_mono h'.subset i)
    exact (h.dropped i hs hnot).trans hcard
  · exact h'.dropped i hi hs

theorem insert (h : KeepsLargest bound kept s) (k : κ) :
    KeepsLargest bound (insert k kept) (insert k s) := by
  refine ⟨Finset.insert_subset_insert k h.subset, fun i hi hnot => ?_⟩
  obtain ⟨hne, hkept⟩ := not_or.mp (mt Finset.mem_insert.mpr hnot)
  have hs := (Finset.mem_insert.mp hi).resolve_left hne
  have hcard := Finset.card_le_card (above_mono (Finset.subset_insert k s) i)
  exact (h.dropped i hs hkept).trans hcard

/-- Above a key with fewer than `bound` larger elements kept, nothing was
dropped: the largest one dropped would have too few above it. -/
theorem card_above_lt_iff (h : KeepsLargest bound kept s) (k : κ) :
    (above kept k).card < bound ↔ (above s k).card < bound := by
  constructor
  · intro hlt
    suffices hsub : above s k ⊆ above kept k from (Finset.card_le_card hsub).trans_lt hlt
    by_contra hnot
    obtain ⟨i, hi, hmax⟩ := Finset.exists_max_image (above s k \ above kept k) id
      (Finset.sdiff_nonempty.mpr hnot)
    obtain ⟨hs, hkept⟩ := Finset.mem_sdiff.mp hi
    obtain ⟨his, hki⟩ := mem_above.mp hs
    have hdropped := h.dropped i his fun hmem => hkept (mem_above.mpr ⟨hmem, hki⟩)
    have hsub : above s i ⊆ above kept k := by
      intro j hj
      obtain ⟨hjs, hij⟩ := mem_above.mp hj
      by_contra hjkept
      have hjmem := Finset.mem_sdiff.mpr ⟨mem_above.mpr ⟨hjs, hki.trans hij⟩, hjkept⟩
      exact absurd (hmax j hjmem) (not_le.mpr hij)
    have hcard := Finset.card_le_card hsub
    omega
  · intro hlt
    exact (Finset.card_le_card (above_mono h.subset k)).trans_lt hlt

end KeepsLargest

end KeepsLargest

namespace OrdMap

variable {κ : Type*} [LinearOrder κ] {α : Type*}

def keys (m : OrdMap κ α) : Finset κ := (m.entries.map Prod.fst).toFinset

theorem mem_keys {m : OrdMap κ α} {k : κ} : k ∈ m.keys ↔ ∃ v, (k, v) ∈ m.entries := by
  simp [keys]

@[simp] theorem keys_empty : (empty : OrdMap κ α).keys = ∅ := rfl

theorem keys_insert (m : OrdMap κ α) (k : κ) (v : α) :
    (m.insert k v).keys = Insert.insert k m.keys := by
  ext i
  rw [mem_keys, Finset.mem_insert, mem_keys]
  constructor
  · rintro ⟨w, hw⟩
    rcases mem_insert.mp hw with heq | ⟨hold, -⟩
    · exact Or.inl (congrArg Prod.fst heq)
    · exact Or.inr ⟨w, hold⟩
  · rintro (rfl | ⟨w, hw⟩)
    · exact ⟨v, mem_insert.mpr (Or.inl rfl)⟩
    · by_cases hik : i = k
      · exact ⟨v, mem_insert.mpr (Or.inl (by rw [hik]))⟩
      · exact ⟨w, mem_insert.mpr (Or.inr ⟨hw, hik⟩)⟩

theorem card_above_keys (m : OrdMap κ α) (k : κ) :
    (above m.keys k).card = (m.entries.filter fun e => decide (k < e.1)).length := by
  have hnodup : (m.entries.map Prod.fst).Nodup := by
    rw [List.nodup_iff_pairwise_ne, List.pairwise_map]
    exact m.sorted.imp fun h => h.ne
  have hfilter : above m.keys k =
      ((m.entries.filter fun e => decide (k < e.1)).map Prod.fst).toFinset := by
    ext i
    simp [mem_above, keys]
  have hsub : ((m.entries.filter fun e => decide (k < e.1)).map Prod.fst).Nodup :=
    hnodup.sublist (List.filter_sublist.map Prod.fst)
  rw [hfilter, List.toFinset_card_of_nodup hsub, List.length_map]

/-- Of a sorted list, dropping from the front leaves what has fewer than
`bound` entries behind it. -/
theorem mem_dropWhileLonger {bound : ℕ} {l : List (κ × α)}
    (hsorted : l.Pairwise fun a b => a.1 < b.1) {e : κ × α} :
    e ∈ dropWhileLonger bound l ↔
      e ∈ l ∧ (l.filter fun e' => decide (e.1 < e'.1)).length < bound := by
  induction l with
  | nil => simp [dropWhileLonger]
  | cons first rest ih =>
      obtain ⟨hfirst, hrest⟩ := List.pairwise_cons.mp hsorted
      by_cases hlong : bound < (first :: rest).length
      · rw [dropWhileLonger, if_pos hlong, ih hrest, List.mem_cons]
        rw [List.length_cons] at hlong
        have hbehind : ∀ e ∈ rest, (first :: rest).filter (fun e' => decide (e.1 < e'.1)) =
            rest.filter fun e' => decide (e.1 < e'.1) :=
          fun e he => List.filter_cons_of_neg (by simpa using (hfirst e he).le)
        constructor
        · rintro ⟨he, hlt⟩
          rw [hbehind e he]
          exact ⟨Or.inr he, hlt⟩
        · rintro ⟨rfl | he, hlt⟩
          · have hall : rest.filter (fun e' => decide (e.1 < e'.1)) = rest := by
              rw [List.filter_eq_self]
              intro e' he'
              simpa using hfirst e' he'
            rw [List.filter_cons_of_neg (by simp), hall] at hlt
            omega
          · rw [hbehind e he] at hlt
            exact ⟨he, hlt⟩
      · rw [dropWhileLonger, if_neg hlong]
        refine ⟨fun he => ⟨he, ?_⟩, And.left⟩
        have hself : ((first :: rest).filter fun e' => decide (e.1 < e'.1)).length <
            (first :: rest).length :=
          List.length_filter_lt_length_iff_exists.mpr ⟨e, he, by simp⟩
        omega

theorem mem_keys_shrinkTo {m : OrdMap κ α} {bound : ℕ} {k : κ} :
    k ∈ (m.shrinkTo bound).keys ↔ k ∈ m.keys ∧ (above m.keys k).card < bound := by
  rw [card_above_keys, mem_keys, mem_keys]
  constructor
  · rintro ⟨v, hv⟩
    obtain ⟨hmem, hlt⟩ := (mem_dropWhileLonger m.sorted).mp hv
    exact ⟨⟨v, hmem⟩, hlt⟩
  · rintro ⟨⟨v, hmem⟩, hlt⟩
    exact ⟨v, (mem_dropWhileLonger m.sorted).mpr ⟨hmem, hlt⟩⟩

theorem keepsLargest_shrinkTo (m : OrdMap κ α) (bound : ℕ) :
    KeepsLargest bound (m.shrinkTo bound).keys m.keys := by
  refine ⟨fun k hk => (mem_keys_shrinkTo.mp hk).1, fun k hk hnot => ?_⟩
  by_contra hlt
  exact hnot (mem_keys_shrinkTo.mpr ⟨hk, not_le.mp hlt⟩)

/-- An entry just inserted survives exactly if fewer than `bound` keys are
above it. -/
theorem find?_shrinkTo_insert (m : OrdMap κ α) (bound : ℕ) (k : κ) (v : α) :
    ((m.insert k v).shrinkTo bound).find? k =
      if (above m.keys k).card < bound then some v else none := by
  have habove : above (m.insert k v).keys k = above m.keys k := by
    ext i
    rw [mem_above, mem_above, keys_insert, Finset.mem_insert]
    constructor
    · rintro ⟨rfl | hi, hlt⟩
      · exact absurd hlt (lt_irrefl i)
      · exact ⟨hi, hlt⟩
    · rintro ⟨hi, hlt⟩
      exact ⟨Or.inr hi, hlt⟩
  have hentry : ∀ w, (k, w) ∈ ((m.insert k v).shrinkTo bound).entries ↔
      w = v ∧ (above m.keys k).card < bound := by
    intro w
    have hmem : (k, w) ∈ (m.insert k v).entries ↔ w = v := by
      rw [mem_insert]
      simp
    rw [← habove, card_above_keys, ← hmem]
    exact mem_dropWhileLonger (m.insert k v).sorted
  by_cases hlt : (above m.keys k).card < bound
  · rw [if_pos hlt, find?_eq_some, hentry]
    exact ⟨rfl, hlt⟩
  · rw [if_neg hlt, find?_eq_none]
    rintro ⟨i, w⟩ he rfl
    exact hlt ((hentry w).mp he).2

end OrdMap

end CppWorkspace.Lib
