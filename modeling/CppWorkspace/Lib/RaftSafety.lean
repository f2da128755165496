import CppWorkspace.Lib.RaftMatching

/-!
Leader completeness: what a majority stored in one term is in the log of every
leader of a later term. A prefix that misses this has lost its chance: a
majority has gone to later terms without storing it.
-/

namespace CppWorkspace.Lib.Raft

open World

variable {ι ε : Type*} [Fintype ι] [DecidableEq ι] (termOf : ε → Nat)

/-- A majority has left term `T` without storing `p`, so nobody ever will. -/
def NoCommit (w : World ι ε) (T : Nat) (p : List ε) : Prop :=
  ∃ Q : Finset ι, Majority Q ∧ ∀ v ∈ Q, T < (w.node v).term ∧ w.stored v T < p.length

structure Complete (w : World ι ε) : Prop where
  leader : ∀ T p, Slot termOf w T p → ∀ U c l, T < U → w.leaderLog U = some (c, l) →
    p <+: l ∨ NoCommit w T p
  voter : ∀ T p, Slot termOf w T p → ∀ v U c x, T < U → w.votes v U c →
    w.candLog U c = some x → p.length ≤ w.stored v T → p <+: x ∨ NoCommit w T p
  synced : ∀ T p, Slot termOf w T p → ∀ v, (w.node v).synced = true →
    p.length ≤ w.stored v T → p <+: (w.node v).log ∨ NoCommit w T p

variable {termOf} {w w' : World ι ε}

section Growing

omit [DecidableEq ι]

theorem NoCommit.mono {T : Nat} {p : List ε} (h : NoCommit w T p) (hgrows : Grows w w') :
    NoCommit w' T p := by
  obtain ⟨Q, hQ, hlost⟩ := h
  refine ⟨Q, hQ, fun v hv => ?_⟩
  obtain ⟨hterm, hstored⟩ := hlost v hv
  rw [hgrows.frozen v T hterm]
  exact ⟨hterm.trans_le (hgrows.term v), hstored⟩

omit [Fintype ι] in
theorem Slot.mono {T : Nat} {p : List ε} (h : Slot termOf w T p) (hgrows : Grows w w') :
    Slot termOf w' T p := by
  obtain ⟨c, l, hl, hp, hlast⟩ := h
  obtain ⟨l', hl', hpre⟩ := hgrows.leaderLog T c l hl
  exact ⟨c, l', hl', hp.trans hpre, hlast⟩

theorem Commit.mono {T : Nat} {p : List ε} (h : Commit termOf w T p) (hgrows : Grows w w') :
    Commit termOf w' T p := by
  obtain ⟨hslot, Q, hQ, hstored⟩ := h
  exact ⟨hslot.mono hgrows, Q, hQ, fun v hv => (hstored v hv).trans (hgrows.stored v T)⟩

theorem CommittedBy.mono {U U' : Nat} {p : List ε} (h : CommittedBy termOf w U p)
    (hgrows : Grows w w') (hU : U ≤ U') : CommittedBy termOf w' U' p := by
  rcases h with hnil | ⟨T, q, hT, hcommit, hp⟩
  · exact Or.inl hnil
  · exact Or.inr ⟨T, q, hT.trans hU, hcommit.mono hgrows, hp⟩

theorem CommittedBy.shorten {U : Nat} {p q : List ε} (h : CommittedBy termOf w U p)
    (hq : q <+: p) : CommittedBy termOf w U q := by
  rcases h with rfl | ⟨T, r, hT, hcommit, hp⟩
  · exact Or.inl (List.prefix_nil.mp hq)
  · exact Or.inr ⟨T, r, hT, hcommit, hq.trans hp⟩

end Growing

omit [DecidableEq ι] in
/-- Stored by a majority, a prefix cannot also be lost. -/
theorem Commit.not_noCommit {T : Nat} {p : List ε} (h : Commit termOf w T p) :
    ¬ NoCommit w T p := by
  rintro ⟨Q, hQ, hlost⟩
  obtain ⟨-, Q', hQ', hstored⟩ := h
  obtain ⟨v, hv, hv'⟩ := hQ.meet hQ'
  have hless := (hlost v hv).2
  have hge := hstored v hv'
  omega

section Order

omit [Fintype ι] [DecidableEq ι]

theorem Slot.last {T : Nat} {p : List ε} (h : Slot termOf w T p) :
    ∃ q e, p = q ++ [e] ∧ termOf e = T := by
  obtain ⟨c, l, -, -, e, he, hterm⟩ := h
  obtain ⟨q, rfl⟩ := List.getLast?_eq_some_iff.mp he
  exact ⟨q, e, rfl, hterm⟩

/-- Along a sorted log no entry has a term above the last one's. -/
theorem term_le_lastTerm {x : List ε} (hsorted : x.Pairwise fun a b => termOf a ≤ termOf b)
    {e : ε} (he : e ∈ x) : termOf e ≤ lastTerm termOf x := by
  obtain ⟨y, last, rfl⟩ := (List.eq_nil_or_concat' x).resolve_left (List.ne_nil_of_mem he)
  have hlast : lastTerm termOf (y ++ [last]) = termOf last := by simp [lastTerm]
  rw [hlast]
  rcases List.mem_append.mp he with hin | hsingle
  · exact (List.pairwise_append.mp hsorted).2.2 e hin last (List.mem_singleton_self last)
  · rw [List.mem_singleton.mp hsingle]

theorem Slot.term_le (hlogs : Logs termOf w) {T : Nat} {p : List ε} (h : Slot termOf w T p) :
    ∀ e ∈ p, termOf e ≤ T := by
  obtain ⟨c, l, hl, hp, last, hlast, hterm⟩ := h
  intro e he
  have hle := term_le_lastTerm ((hlogs.leader T c l hl).shorten hp).sorted he
  rw [lastTerm, hlast] at hle
  exact hle.trans hterm.le

/-- An up-to-date log carries what the voter's log contains. -/
theorem upToDate_carries [Fintype ι] (hlogs : Logs termOf w) (hcomplete : Complete termOf w)
    {T : Nat} {p x y : List ε} (hslot : Slot termOf w T p) (hp : p <+: y)
    (hx : Matched termOf w x) (hy : Matched termOf w y) (hdate : UpToDate termOf x y) :
    p <+: x ∨ NoCommit w T p := by
  obtain ⟨q, e, rfl, he⟩ := hslot.last
  have hey : e ∈ y := hp.subset (by simp)
  have hTy : T ≤ lastTerm termOf y := he ▸ term_le_lastTerm hy.sorted hey
  have hplen : (q ++ [e]).length ≤ y.length := hp.length_le
  have hx_ne : x ≠ [] := by
    rintro rfl
    rcases hdate with hless | ⟨-, hlen⟩
    · simp [lastTerm] at hless
    · simp at hlen
      simp [hlen] at hey
  obtain ⟨x₀, last, rfl⟩ := (List.eq_nil_or_concat' x).resolve_left hx_ne
  have hlast : lastTerm termOf (x₀ ++ [last]) = termOf last := by simp [lastTerm]
  obtain ⟨c, l, hl, hxl⟩ := hx.leads x₀ last (List.prefix_refl _)
  rcases Nat.lt_or_ge T (termOf last) with hlater | hsame
  -- a later term: its leader log holds `p`, and `x` reaches beyond `p`
  · rcases hcomplete.leader T _ hslot (termOf last) c l hlater hl with hpl | hlost
    · rcases Nat.le_total (q ++ [e]).length (x₀ ++ [last]).length with hle | hge
      · exact Or.inl (prefix_of_length_le hpl hxl hle)
      · have hxp := prefix_of_length_le hxl hpl hge
        have hle := hslot.term_le hlogs last (hxp.subset (by simp))
        omega
    · exact Or.inr hlost
  -- the same term: both are prefixes of its leader log
  · have hlen : y.length ≤ (x₀ ++ [last]).length := by
      rcases hdate with hless | ⟨-, hlen⟩
      · omega
      · exact hlen
    have hT : termOf last = T := by
      rcases hdate with hless | ⟨heq, -⟩ <;> omega
    obtain ⟨c', l', hl', hpl, -⟩ := hslot
    rw [hT, hl'] at hl
    cases hl
    exact Or.inl (prefix_of_length_le hpl hxl (by omega))

end Order

namespace Complete

/-- A change of one node. Only what it may then claim to have needs an
argument. -/
theorem setNode (h : Complete termOf w) {v : ι} {n : Node ι ε}
    (hterm : (w.node v).term ≤ n.term)
    (hsynced : n.synced = true → ∀ T p, Slot termOf w T p → p.length ≤ w.stored v T →
      p <+: n.log ∨ NoCommit w T p) : Complete termOf (w.setNode v n) := by
  have hgrows : Grows w (w.setNode v n) := .setNode w hterm
  constructor
  · intro T p hslot U c l hlt hl
    exact (h.leader T p hslot U c l hlt hl).imp_right (·.mono hgrows)
  · intro T p hslot u U c x hlt hvote hx hstored
    exact (h.voter T p hslot u U c x hlt hvote hx hstored).imp_right (·.mono hgrows)
  · intro T p hslot u hsync hstored
    by_cases hu : u = v
    · subst hu
      simp only [setNode_node, Function.update_self] at hsync ⊢
      exact (hsynced hsync T p hslot hstored).imp_right (·.mono hgrows)
    · simp only [setNode_node, Function.update_of_ne hu] at hsync ⊢
      exact (h.synced T p hslot u hsync hstored).imp_right (·.mono hgrows)

theorem stand (h : Complete termOf w) (helections : Elections termOf w) {v : ι}
    (hsync : (w.node v).synced = true) (hgrows : Grows w (w.stand v)) :
    Complete termOf (w.stand v) := by
  constructor
  · intro T p hslot U c l hlt hl
    exact (h.leader T p hslot U c l hlt hl).imp_right (·.mono hgrows)
  · rintro T p hslot u U c x hlt (hvote | ⟨rfl, rfl, rfl⟩) hx hstored
    · have hold : ¬ (U = (w.node v).term + 1 ∧ c = v) := by
        rintro ⟨rfl, rfl⟩
        obtain ⟨y, hy⟩ := helections.vote_cand u _ _ hvote
        have hle := helections.cand_term _ _ _ hy
        omega
      rw [stand_candLog_of_ne w v hold] at hx
      exact (h.voter T p hslot u U c x hlt hvote hx hstored).imp_right (·.mono hgrows)
    · rw [stand_candLog_self, Option.some.injEq] at hx
      subst hx
      exact (h.synced T p hslot c hsync hstored).imp_right (·.mono hgrows)
  · intro T p hslot u hsync' hstored
    have hsame : ((w.stand v).node u).synced = (w.node u).synced ∧
        ((w.stand v).node u).log = (w.node u).log := by
      by_cases hu : u = v
      · subst hu
        simp [World.stand]
      · simp [hu]
    rw [hsame.1] at hsync'
    rw [hsame.2]
    exact (h.synced T p hslot u hsync' hstored).imp_right (·.mono hgrows)

theorem grant (h : Complete termOf w) (hlogs : Logs termOf w) {v c : ι} {x : List ε}
    (hsync : (w.node v).synced = true) (hx : w.candLog (w.node v).term c = some x)
    (hdate : UpToDate termOf x (w.node v).log) (hgrows : Grows w (w.grant v c)) :
    Complete termOf (w.grant v c) := by
  constructor
  · intro T p hslot U c' l hlt hl
    exact (h.leader T p hslot U c' l hlt hl).imp_right (·.mono hgrows)
  · rintro T p hslot u U c' x' hlt (hvote | ⟨rfl, rfl, rfl⟩) hx' hstored
    · exact (h.voter T p hslot u U c' x' hlt hvote hx' hstored).imp_right (·.mono hgrows)
    · have heq : x' = x := Option.some.inj (hx'.symm.trans hx)
      subst heq
      rcases h.synced T p hslot u hsync hstored with hp | hlost
      · exact (upToDate_carries hlogs h hslot hp (hlogs.cand _ _ _ hx) (hlogs.node u)
          hdate).imp_right (·.mono hgrows)
      · exact Or.inr (hlost.mono hgrows)
  · intro T p hslot u hsync' hstored
    have hsame : ((w.grant v c).node u).synced = (w.node u).synced ∧
        ((w.grant v c).node u).log = (w.node u).log := by
      by_cases hu : u = v
      · subst hu
        simp [World.grant]
      · simp [World.grant, hu]
    rw [hsame.1] at hsync'
    rw [hsame.2]
    exact (h.synced T p hslot u hsync' hstored).imp_right (·.mono hgrows)

/-- The election. Either a voter had stored `p`, and its vote speaks for the
candidate's log, or the whole majority has moved on without it. -/
theorem elect (h : Complete termOf w) (helections : Elections termOf w) (hlogs : Logs termOf w)
    {c : ι} (hrole : (w.node c).role = .candidate) {Q : Finset ι} (hQ : Majority Q)
    (hvotes : ∀ v ∈ Q, w.votes v (w.node c).term c) (hgrows : Grows w (w.elect c)) :
    Complete termOf (w.elect c) := by
  have hcand := (helections.candidate c hrole).1
  have hnew : (w.elect c).leaderLog (w.node c).term = some (c, (w.node c).log) :=
    Function.update_self _ _ _
  have hother {U : Nat} (hU : U ≠ (w.node c).term) :
      (w.elect c).leaderLog U = w.leaderLog U := Function.update_of_ne hU _ _
  have hold {T : Nat} {p : List ε} (hslot : Slot termOf (w.elect c) T p) :
      T ≠ (w.node c).term ∧ Slot termOf w T p := by
    obtain ⟨c', l, hl, hp, e, he, hterm⟩ := hslot
    have hT : T ≠ (w.node c).term := by
      rintro rfl
      rw [hnew] at hl
      cases hl
      have hmem := hp.subset (List.mem_of_getLast? he)
      have hlt := hlogs.cand_bound _ _ _ hcand e hmem
      omega
    rw [hother hT] at hl
    exact ⟨hT, c', l, hl, hp, e, he, hterm⟩
  have hstored_old {v : ι} {T : Nat} (hT : T ≠ (w.node c).term) :
      (w.elect c).stored v T = w.stored v T := raiseStored_of_ne w c _ _ fun hpair => hT hpair.2
  constructor
  · intro T p hslot U c' l hlt hl
    obtain ⟨-, hslot⟩ := hold hslot
    by_cases hU : U = (w.node c).term
    · subst hU
      rw [hnew] at hl
      cases hl
      by_cases hvoter : ∃ v ∈ Q, p.length ≤ w.stored v T
      · obtain ⟨v, hv, hstored⟩ := hvoter
        exact (h.voter T p hslot v _ c _ hlt (hvotes v hv) hcand hstored).imp_right
          (·.mono hgrows)
      · refine Or.inr (NoCommit.mono ⟨Q, hQ, fun v hv => ?_⟩ hgrows)
        have hle := (helections.vote_term v _ c (hvotes v hv)).1
        refine ⟨by omega, ?_⟩
        by_contra hge
        exact hvoter ⟨v, hv, by omega⟩
    · rw [hother hU] at hl
      exact (h.leader T p hslot U c' l hlt hl).imp_right (·.mono hgrows)
  · intro T p hslot v U c' x hlt hvote hx hstored
    obtain ⟨hT, hslot⟩ := hold hslot
    rw [hstored_old hT] at hstored
    exact (h.voter T p hslot v U c' x hlt hvote hx hstored).imp_right (·.mono hgrows)
  · intro T p hslot u hsync hstored
    have hsame : ((w.elect c).node u).synced = (w.node u).synced ∧
        ((w.elect c).node u).log = (w.node u).log := by
      by_cases hu : u = c
      · subst hu
        simp [World.elect]
      · simp [World.elect, hu]
    obtain ⟨hT, hslot⟩ := hold hslot
    rw [hstored_old hT] at hstored
    rw [hsame.1] at hsync
    rw [hsame.2]
    exact (h.synced T p hslot u hsync hstored).imp_right (·.mono hgrows)

/-- A leader appends. The longer log is new to everyone: a later term's voters
have left without it, and only the leader itself stores it. -/
theorem append (h : Complete termOf w) (helections : Elections termOf w) (hlogs : Logs termOf w)
    {c : ι} {e : ε} (hrole : (w.node c).role = .leader) (hgrows : Grows w (w.append c e)) :
    Complete termOf (w.append c e) := by
  have hlead := helections.leader c hrole
  have hnew : (w.append c e).leaderLog (w.node c).term = some (c, (w.node c).log ++ [e]) :=
    Function.update_self _ _ _
  have hother {U : Nat} (hU : U ≠ (w.node c).term) :
      (w.append c e).leaderLog U = w.leaderLog U := Function.update_of_ne hU _ _
  have hold {T : Nat} {p : List ε} (hslot : Slot termOf (w.append c e) T p) :
      Slot termOf w T p ∨ T = (w.node c).term ∧ p = (w.node c).log ++ [e] := by
    obtain ⟨c', l, hl, hp, hlast⟩ := hslot
    by_cases hT : T = (w.node c).term
    · subst hT
      rw [hnew] at hl
      cases hl
      rcases prefix_of_prefix_append_singleton hp with hpre | heq
      · exact Or.inl ⟨c, _, hlead, hpre, hlast⟩
      · exact Or.inr ⟨rfl, heq⟩
    · rw [hother hT] at hl
      exact Or.inl ⟨c', l, hl, hp, hlast⟩
  -- nobody has stored the new log except its leader, whose term is not over
  have hshort (v : ι) : w.stored v (w.node c).term < ((w.node c).log ++ [e]).length := by
    have hle := hlogs.stored_le hlead v
    simp only [List.length_append, List.length_singleton]
    omega
  have hstored_old {v : ι} {T : Nat} (hpair : ¬ (v = c ∧ T = (w.node c).term)) :
      (w.append c e).stored v T = w.stored v T := raiseStored_of_ne w c _ _ hpair
  constructor
  · intro T p hslot U c' l hlt hl
    rcases hold hslot with hslot | ⟨rfl, rfl⟩
    · by_cases hU : U = (w.node c).term
      · subst hU
        rw [hnew] at hl
        cases hl
        rcases h.leader T p hslot _ c _ hlt hlead with hp | hlost
        · exact Or.inl (hp.trans (List.prefix_append _ _))
        · exact Or.inr (hlost.mono hgrows)
      · rw [hother hU] at hl
        exact (h.leader T p hslot U c' l hlt hl).imp_right (·.mono hgrows)
    · rw [hother (by omega)] at hl
      obtain ⟨⟨Q, hQ, hvotes⟩, -⟩ := helections.elected U c' l hl
      refine Or.inr (NoCommit.mono ⟨Q, hQ, fun v hv => ⟨?_, hshort v⟩⟩ hgrows)
      have hle := (helections.vote_term v U c' (hvotes v hv)).1
      omega
  · intro T p hslot v U c' x hlt hvote hx hstored
    have hle := (helections.vote_term v U c' hvote).1
    have hpair : ¬ (v = c ∧ T = (w.node c).term) := by
      rintro ⟨rfl, rfl⟩
      omega
    rw [hstored_old hpair] at hstored
    rcases hold hslot with hslot | ⟨rfl, rfl⟩
    · exact (h.voter T p hslot v U c' x hlt hvote hx hstored).imp_right (·.mono hgrows)
    · have hless := hshort v
      omega
  · intro T p hslot v hsync hstored
    have hsame : ((w.append c e).node v).synced = (w.node v).synced ∧
        (w.node v).log <+: ((w.append c e).node v).log := by
      by_cases hv : v = c
      · subst hv
        simp [World.append]
      · simp [World.append, hv]
    rw [hsame.1] at hsync
    by_cases hpair : v = c ∧ T = (w.node c).term
    · obtain ⟨rfl, rfl⟩ := hpair
      obtain ⟨c', l, hl, hp, -⟩ := hslot
      rw [hnew] at hl
      cases hl
      refine Or.inl ?_
      have hlog : ((w.append v e).node v).log = (w.node v).log ++ [e] := by
        simp [World.append]
      rwa [hlog]
    · rw [hstored_old hpair] at hstored
      rcases hold hslot with hslot | ⟨rfl, rfl⟩
      · rcases h.synced T p hslot v hsync hstored with hp | hlost
        · exact Or.inl (hp.trans hsame.2)
        · exact Or.inr (hlost.mono hgrows)
      · have hless := hshort v
        omega

omit [DecidableEq ι] in
/-- What the node stored in the term it is in: its old log or the offer has
it. -/
theorem takeOver_own (h : Complete termOf w) {v c : ι} {p l offered : List ε}
    (hslot : Slot termOf w (w.node v).term p) (hsync : (w.node v).synced = true)
    (hl : w.leaderLog (w.node v).term = some (c, l)) (hoffered : offered <+: l)
    (hstored : p.length ≤ max (w.stored v (w.node v).term) offered.length) :
    p <+: takeOver (w.node v).log offered ∨ NoCommit w (w.node v).term p := by
  have hpl : p <+: l := by
    obtain ⟨c', l', hl', hp, -⟩ := hslot
    rw [hl] at hl'
    cases hl'
    exact hp
  rcases Nat.le_total p.length offered.length with hle | hge
  · have hp := prefix_of_length_le hpl hoffered hle
    rcases takeOver_cases (w.node v).log offered with ⟨heq, hpre⟩ | ⟨heq, -⟩
    · rw [heq]
      exact Or.inl (hp.trans hpre)
    · rw [heq]
      exact Or.inl hp
  · rcases Nat.lt_or_ge (w.stored v (w.node v).term) p.length with hless | hold
    · have heq : p = offered :=
        ((prefix_of_length_le hoffered hpl hge).eq_of_length (by omega)).symm
      subst heq
      rcases takeOver_cases (w.node v).log p with ⟨heq, hpre⟩ | ⟨heq, -⟩
      · rw [heq]
        exact Or.inl hpre
      · rw [heq]
        exact Or.inl (List.prefix_refl p)
    · rcases h.synced _ p hslot v hsync hold with hp | hlost
      · exact Or.inl (takeOver_keeps hp hpl hoffered)
      · exact Or.inr hlost

omit [DecidableEq ι] in
/-- What the node stored in an earlier term: the leader log has it too. -/
theorem takeOver_earlier (h : Complete termOf w) (hlogs : Logs termOf w) {v c : ι} {T : Nat}
    {p l offered : List ε} (hslot : Slot termOf w T p) (hsync : (w.node v).synced = true)
    (hl : w.leaderLog (w.node v).term = some (c, l)) (hoffered : offered <+: l)
    (hT : T ≠ (w.node v).term) (hstored : p.length ≤ w.stored v T) :
    p <+: takeOver (w.node v).log offered ∨ NoCommit w T p := by
  have hpos : 0 < w.stored v T := by
    obtain ⟨q, e, rfl, -⟩ := hslot.last
    simp only [List.length_append, List.length_singleton] at hstored
    omega
  have hle := (hlogs.stored v T hpos).1
  rcases h.synced T p hslot v hsync hstored with hp | hlost
  · rcases h.leader T p hslot _ c l (by omega) hl with hpl | hlost
    · exact Or.inl (takeOver_keeps hp hpl hoffered)
    · exact Or.inr hlost
  · exact Or.inr hlost

/-- A node takes over an offered prefix of the leader log of its term. -/
theorem accept (h : Complete termOf w) (helections : Elections termOf w)
    (hlogs : Logs termOf w) {v c : ι} {l offered : List ε}
    (hl : w.leaderLog (w.node v).term = some (c, l)) (hoffered : offered <+: l) (commit : Nat)
    (hgrows : Grows w (w.accept v offered commit)) :
    Complete termOf (w.accept v offered commit) := by
  have hstored_old {u : ι} {T : Nat} (hpair : ¬ (u = v ∧ T = (w.node v).term)) :
      (w.accept v offered commit).stored u T = w.stored u T := raiseStored_of_ne w v _ _ hpair
  constructor
  · intro T p hslot U c' l' hlt hl'
    exact (h.leader T p hslot U c' l' hlt hl').imp_right (·.mono hgrows)
  · intro T p hslot u U c' x hlt hvote hx hstored
    have hle := (helections.vote_term u U c' hvote).1
    have hpair : ¬ (u = v ∧ T = (w.node v).term) := by
      rintro ⟨rfl, rfl⟩
      omega
    rw [hstored_old hpair] at hstored
    exact (h.voter T p hslot u U c' x hlt hvote hx hstored).imp_right (·.mono hgrows)
  · intro T p hslot u hsync hstored
    by_cases hu : u = v
    · subst hu
      have hlog : ((w.accept u offered commit).node u).log =
          takeOver (w.node u).log offered := by simp [World.accept]
      have hsync' : (w.node u).synced = true := by simpa [World.accept] using hsync
      rw [hlog]
      by_cases hT : T = (w.node u).term
      · subst hT
        exact (h.takeOver_own hslot hsync' hl hoffered (by
          simpa [World.accept, raiseStored_self] using hstored)).imp_right (·.mono hgrows)
      · rw [hstored_old fun hpair => hT hpair.2] at hstored
        exact (h.takeOver_earlier hlogs hslot hsync' hl hoffered hT hstored).imp_right
          (·.mono hgrows)
    · have hnode : (w.accept v offered commit).node u = w.node u :=
        Function.update_of_ne hu _ _
      rw [hnode] at hsync ⊢
      rw [hstored_old fun hpair => hu hpair.1] at hstored
      exact (h.synced T p hslot u hsync hstored).imp_right (·.mono hgrows)

end Complete

end CppWorkspace.Lib.Raft
