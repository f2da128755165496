import CppWorkspace.Lib.Raft

/-!
One leader for each term: votes are cast once, and a leader's log is the log
it stood with followed by entries of its own term.
-/

namespace CppWorkspace.Lib.Raft

open World

variable {ι ε : Type*} [Fintype ι] [DecidableEq ι] (termOf : ε → Nat)

structure Elections (w : World ι ε) : Prop where
  vote_term : ∀ v U c, w.votes v U c →
    U ≤ (w.node v).term ∧ (U = (w.node v).term → (w.node v).vote = some c)
  vote_unique : ∀ v U c c', w.votes v U c → w.votes v U c' → c = c'
  vote_cand : ∀ v U c, w.votes v U c → ∃ x, w.candLog U c = some x
  cand_term : ∀ U c x, w.candLog U c = some x → U ≤ (w.node c).term
  candidate : ∀ c, (w.node c).role = .candidate →
    w.candLog (w.node c).term c = some (w.node c).log ∧
      ∀ l, w.leaderLog (w.node c).term ≠ some (c, l)
  leader : ∀ c, (w.node c).role = .leader →
    w.leaderLog (w.node c).term = some (c, (w.node c).log)
  leader_stored : ∀ c, (w.node c).role = .leader →
    (w.node c).log.length ≤ w.stored c (w.node c).term
  elected : ∀ U c l, w.leaderLog U = some (c, l) →
    (∃ Q : Finset ι, Majority Q ∧ ∀ v ∈ Q, w.votes v U c) ∧
      ∃ x r, w.candLog U c = some x ∧ l = x ++ r ∧ ∀ e ∈ r, termOf e = U

/-- A change of one node that touches no election: the term may rise, and a
candidate or leader keeps its term and its log. -/
structure Quiet (n n' : Node ι ε) : Prop where
  term : n.term ≤ n'.term
  vote : n'.term = n.term → n'.vote = n.vote
  candidate : n'.role = .candidate → n.role = .candidate ∧ n'.term = n.term ∧ n'.log = n.log
  leader : n'.role = .leader → n.role = .leader ∧ n'.term = n.term ∧ n'.log = n.log

namespace Elections

variable {termOf} {w : World ι ε}

omit [DecidableEq ι] in
/-- A candidate with a majority is the first leader of its term. -/
theorem leaderLog_none (h : Elections termOf w) {c : ι} (hrole : (w.node c).role = .candidate)
    {Q : Finset ι} (hQ : Majority Q) (hvotes : ∀ v ∈ Q, w.votes v (w.node c).term c) :
    w.leaderLog (w.node c).term = none := by
  cases hl : w.leaderLog (w.node c).term with
  | none => rfl
  | some owner =>
      obtain ⟨c', l⟩ := owner
      obtain ⟨⟨Q', hQ', hvotes'⟩, -⟩ := h.elected _ _ _ hl
      obtain ⟨v, hv, hv'⟩ := hQ.meet hQ'
      have heq := h.vote_unique v _ _ _ (hvotes v hv) (hvotes' v hv')
      subst heq
      exact absurd hl ((h.candidate c hrole).2 l)

theorem quiet (h : Elections termOf w) {v : ι} {n : Node ι ε} (hquiet : Quiet (w.node v) n) :
    Elections termOf (w.setNode v n) where
  vote_term u U c hvote := by
    obtain ⟨hle, hsame⟩ := h.vote_term u U c hvote
    by_cases hu : u = v
    · subst hu
      simp only [setNode_node, Function.update_self]
      have hterm := hquiet.term
      refine ⟨by omega, fun heq => ?_⟩
      rw [hquiet.vote (by omega)]
      exact hsame (by omega)
    · simp only [setNode_node, Function.update_of_ne hu]
      exact ⟨hle, hsame⟩
  vote_unique := h.vote_unique
  vote_cand := h.vote_cand
  cand_term U c x hx := by
    have hle := h.cand_term U c x hx
    by_cases hc : c = v
    · subst hc
      have hterm := hquiet.term
      simp only [setNode_node, Function.update_self]
      omega
    · simpa only [setNode_node, Function.update_of_ne hc] using hle
  candidate c hrole := by
    by_cases hc : c = v
    · subst hc
      simp only [setNode_node, Function.update_self] at hrole ⊢
      obtain ⟨hold, hterm, hlog⟩ := hquiet.candidate hrole
      rw [hterm, hlog]
      exact h.candidate c hold
    · simp only [setNode_node, Function.update_of_ne hc] at hrole ⊢
      exact h.candidate c hrole
  leader c hrole := by
    by_cases hc : c = v
    · subst hc
      simp only [setNode_node, Function.update_self] at hrole ⊢
      obtain ⟨hold, hterm, hlog⟩ := hquiet.leader hrole
      rw [hterm, hlog]
      exact h.leader c hold
    · simp only [setNode_node, Function.update_of_ne hc] at hrole ⊢
      exact h.leader c hrole
  leader_stored c hrole := by
    by_cases hc : c = v
    · subst hc
      simp only [setNode_node, Function.update_self] at hrole ⊢
      obtain ⟨hold, hterm, hlog⟩ := hquiet.leader hrole
      rw [hterm, hlog]
      exact h.leader_stored c hold
    · simp only [setNode_node, Function.update_of_ne hc] at hrole ⊢
      exact h.leader_stored c hrole
  elected := h.elected

theorem stand (h : Elections termOf w) (v : ι) : Elections termOf (w.stand v) := by
  have hfresh : ∀ x, w.candLog ((w.node v).term + 1) v ≠ some x := by
    intro x hx
    have hle := h.cand_term _ _ _ hx
    omega
  have hleader : ∀ c, ((w.stand v).node c).role = .leader → (w.stand v).node c = w.node c := by
    intro c hrole
    by_cases hc : c = v
    · subst hc
      simp [World.stand] at hrole
    · exact Function.update_of_ne hc _ _
  constructor
  · rintro u U c (hvote | ⟨rfl, rfl, rfl⟩)
    · obtain ⟨hle, hsame⟩ := h.vote_term u U c hvote
      by_cases hu : u = v
      · subst hu
        simp only [World.stand, setNode_node, Function.update_self]
        exact ⟨by omega, fun heq => by omega⟩
      · simpa only [World.stand, setNode_node, Function.update_of_ne hu] using ⟨hle, hsame⟩
    · simp [World.stand]
  · rintro u U c c' (hvote | ⟨rfl, rfl, rfl⟩) (hvote' | ⟨heq, hU, rfl⟩)
    · exact h.vote_unique u U c c' hvote hvote'
    · subst heq
      have hle := (h.vote_term u U c hvote).1
      omega
    · have hle := (h.vote_term _ _ _ hvote').1
      omega
    · rfl
  · rintro u U c (hvote | ⟨rfl, rfl, rfl⟩)
    · obtain ⟨x, hx⟩ := h.vote_cand u U c hvote
      refine ⟨x, ?_⟩
      rw [stand_candLog_of_ne, hx]
      rintro ⟨rfl, rfl⟩
      exact hfresh x hx
    · exact ⟨_, stand_candLog_self w _⟩
  · intro U c x hx
    by_cases hnew : U = (w.node v).term + 1 ∧ c = v
    · obtain ⟨rfl, rfl⟩ := hnew
      simp [World.stand]
    · rw [stand_candLog_of_ne w v hnew] at hx
      have hle := h.cand_term U c x hx
      by_cases hc : c = v
      · subst hc
        simp only [World.stand, setNode_node, Function.update_self]
        omega
      · simpa only [World.stand, setNode_node, Function.update_of_ne hc] using hle
  · intro c hrole
    by_cases hc : c = v
    · subst hc
      simp only [World.stand, setNode_node, Function.update_self, setNode_leaderLog]
      refine ⟨trivial, fun l hl => ?_⟩
      obtain ⟨-, x, r, hx, -⟩ := h.elected _ _ _ hl
      exact hfresh x hx
    · have hnode : (w.stand v).node c = w.node c := Function.update_of_ne hc _ _
      rw [hnode] at hrole ⊢
      rw [stand_candLog_of_ne w v fun hnew => hc hnew.2]
      exact h.candidate c hrole
  · intro c hrole
    have hnode := hleader c hrole
    rw [hnode] at hrole ⊢
    exact h.leader c hrole
  · intro c hrole
    have hnode := hleader c hrole
    rw [hnode] at hrole ⊢
    exact h.leader_stored c hrole
  · intro U c l hl
    obtain ⟨⟨Q, hQ, hvotes⟩, x, r, hx, hrest⟩ := h.elected U c l hl
    refine ⟨⟨Q, hQ, fun u hu => Or.inl (hvotes u hu)⟩, x, r, ?_, hrest⟩
    rw [stand_candLog_of_ne, hx]
    rintro ⟨rfl, rfl⟩
    exact hfresh x hx

theorem grant (h : Elections termOf w) {v c : ι} {x : List ε}
    (hvote : (w.node v).vote = none ∨ (w.node v).vote = some c)
    (hx : w.candLog (w.node v).term c = some x) : Elections termOf (w.grant v c) := by
  have hterm (u : ι) : ((w.grant v c).node u).term = (w.node u).term := by
    by_cases hu : u = v
    · subst hu
      simp [World.grant]
    · simp [World.grant, hu]
  have hrole (u : ι) : ((w.grant v c).node u).role = (w.node u).role := by
    by_cases hu : u = v
    · subst hu
      simp [World.grant]
    · simp [World.grant, hu]
  have hlog (u : ι) : ((w.grant v c).node u).log = (w.node u).log := by
    by_cases hu : u = v
    · subst hu
      simp [World.grant]
    · simp [World.grant, hu]
  have hvoted (c' : ι) (hcast : w.votes v (w.node v).term c') : c' = c := by
    have hsome := (h.vote_term v _ c' hcast).2 rfl
    rcases hvote with hnone | hsame
    · rw [hnone] at hsome
      cases hsome
    · rw [hsame] at hsome
      exact (Option.some.inj hsome).symm
  constructor
  · rintro u U c' (hcast | ⟨rfl, rfl, rfl⟩)
    · obtain ⟨hle, hsame⟩ := h.vote_term u U c' hcast
      rw [hterm]
      refine ⟨hle, fun hU => ?_⟩
      by_cases hu : u = v
      · subst hu
        rw [hU] at hcast
        simp [World.grant, hvoted c' hcast]
      · simpa [World.grant, hu] using hsame hU
    · simp [World.grant]
  · rintro u U c₁ c₂ (hcast | ⟨rfl, rfl, rfl⟩) (hcast' | ⟨heq, hU, rfl⟩)
    · exact h.vote_unique u U c₁ c₂ hcast hcast'
    · subst heq hU
      exact hvoted c₁ hcast
    · exact (hvoted c₂ hcast').symm
    · rfl
  · rintro u U c' (hcast | ⟨rfl, rfl, rfl⟩)
    · exact h.vote_cand u U c' hcast
    · exact ⟨x, hx⟩
  · intro U c' x' hx'
    rw [hterm]
    exact h.cand_term U c' x' hx'
  · intro c' hcand
    rw [hrole] at hcand
    rw [hterm, hlog]
    exact h.candidate c' hcand
  · intro c' hlead
    rw [hrole] at hlead
    rw [hterm, hlog]
    exact h.leader c' hlead
  · intro c' hlead
    rw [hrole] at hlead
    rw [hterm, hlog]
    exact h.leader_stored c' hlead
  · intro U c' l hl
    obtain ⟨⟨Q, hQ, hvotes⟩, hrest⟩ := h.elected U c' l hl
    exact ⟨⟨Q, hQ, fun u hu => Or.inl (hvotes u hu)⟩, hrest⟩

/-- The leader log of one term is replaced, by its owner: on election, or when
the leader appends. -/
theorem setLeader (h : Elections termOf w) {c : ι} {n : Node ι ε}
    (hterm : n.term = (w.node c).term) (hvote : n.vote = (w.node c).vote)
    (hrole : n.role = .leader)
    (howner : ∀ c' l, w.leaderLog (w.node c).term = some (c', l) → c' = c)
    (hquorum : ∃ Q : Finset ι, Majority Q ∧ ∀ v ∈ Q, w.votes v (w.node c).term c)
    (hlog : ∃ x r, w.candLog (w.node c).term c = some x ∧ n.log = x ++ r ∧
      ∀ e ∈ r, termOf e = (w.node c).term)
    {stored : ι → Nat → Nat} (hstored : n.log.length ≤ stored c (w.node c).term)
    (hmono : ∀ v T, w.stored v T ≤ stored v T) :
    Elections termOf { w.setNode c n with
      leaderLog := Function.update w.leaderLog (w.node c).term (some (c, n.log))
      stored := stored } := by
  have hterm' (u : ι) : ((w.setNode c n).node u).term = (w.node u).term := by
    by_cases hu : u = c
    · subst hu
      simpa using hterm
    · simp [hu]
  have hother {u : ι} (hu : u ≠ c) : (w.setNode c n).node u = w.node u :=
    Function.update_of_ne hu _ _
  constructor
  · intro u U c' hcast
    obtain ⟨hle, hsame⟩ := h.vote_term u U c' hcast
    by_cases hu : u = c
    · subst hu
      simp only [setNode_node, Function.update_self]
      rw [hterm, hvote]
      exact ⟨hle, hsame⟩
    · simp only [setNode_node, Function.update_of_ne hu]
      exact ⟨hle, hsame⟩
  · exact h.vote_unique
  · exact h.vote_cand
  · intro U c' x hx
    simp only [hterm']
    exact h.cand_term U c' x hx
  · intro c' hcand
    by_cases hc : c' = c
    · subst hc
      simp [hrole] at hcand
    · simp only [hother hc] at hcand ⊢
      obtain ⟨hx, hnone⟩ := h.candidate c' hcand
      refine ⟨hx, fun l hl => ?_⟩
      by_cases hU : (w.node c').term = (w.node c).term
      · rw [hU, Function.update_self] at hl
        cases hl
        exact hc rfl
      · rw [Function.update_of_ne hU] at hl
        exact hnone l hl
  · intro c' hlead
    by_cases hc : c' = c
    · subst hc
      simp [hterm]
    · simp only [hother hc] at hlead ⊢
      have hold := h.leader c' hlead
      by_cases hU : (w.node c').term = (w.node c).term
      · rw [hU] at hold
        exact absurd (howner c' _ hold) hc
      · rw [Function.update_of_ne hU]
        exact hold
  · intro c' hlead
    by_cases hc : c' = c
    · subst hc
      simpa [hterm] using hstored
    · simp only [hother hc] at hlead ⊢
      exact (h.leader_stored c' hlead).trans (hmono _ _)
  · intro U c' l hl
    by_cases hU : U = (w.node c).term
    · subst hU
      simp only [Function.update_self, Option.some.injEq, Prod.mk.injEq] at hl
      obtain ⟨rfl, rfl⟩ := hl
      exact ⟨hquorum, hlog⟩
    · simp only [Function.update_of_ne hU] at hl
      exact h.elected U c' l hl

theorem elect (h : Elections termOf w) {c : ι} (hrole : (w.node c).role = .candidate)
    {Q : Finset ι} (hQ : Majority Q) (hvotes : ∀ v ∈ Q, w.votes v (w.node c).term c) :
    Elections termOf (w.elect c) := by
  have hnone := h.leaderLog_none hrole hQ hvotes
  refine h.setLeader (n := { w.node c with role := .leader }) rfl rfl rfl ?_ ⟨Q, hQ, hvotes⟩
    ⟨_, [], (h.candidate c hrole).1, by simp, by simp⟩ (by simp [raiseStored_self])
    (raiseStored_le w c _ _)
  intro c' l hl
  rw [hnone] at hl
  cases hl

theorem append (h : Elections termOf w) {c : ι} {e : ε} (hrole : (w.node c).role = .leader)
    (he : termOf e = (w.node c).term) : Elections termOf (w.append c e) := by
  have hold := h.leader c hrole
  obtain ⟨hquorum, x, r, hx, hlog, hr⟩ := h.elected _ _ _ hold
  refine h.setLeader (n := { w.node c with log := (w.node c).log ++ [e] }) rfl rfl hrole ?_
    hquorum ⟨x, r ++ [e], hx, by simp [hlog], ?_⟩ (by simp [raiseStored_self])
    (raiseStored_le w c _ _)
  · intro c' l hl
    rw [hold] at hl
    cases hl
    rfl
  · intro e' he'
    rcases List.mem_append.mp he' with hold' | hnew
    · exact hr e' hold'
    · rw [List.mem_singleton.mp hnew, he]

theorem accept (h : Elections termOf w) {v : ι} (offered : List ε) (commit : Nat) :
    Elections termOf (w.accept v offered commit) := by
  have hquiet := h.quiet (v := v) (n := { w.node v with
    log := takeOver (w.node v).log offered
    role := .follower
    commit := max (w.node v).commit commit }) ⟨le_rfl, fun _ => rfl, nofun, nofun⟩
  have hmono := raiseStored_le w v (w.node v).term offered.length
  exact ⟨hquiet.vote_term, hquiet.vote_unique, hquiet.vote_cand, hquiet.cand_term,
    hquiet.candidate, hquiet.leader, fun c hrole => (hquiet.leader_stored c hrole).trans (hmono _ _),
    hquiet.elected⟩

/-- Every step keeps the elections in order. -/
theorem step (h : Elections termOf w) {w' : World ι ε} {event : Event ι ε}
    (hstep : Step termOf w event w') : Elections termOf w' := by
  cases event with
  | updateTerm v term =>
      obtain ⟨-, hlt, rfl⟩ := hstep
      exact h.quiet ⟨hlt.le, fun heq => absurd heq hlt.ne', nofun, nofun⟩
  | stand v =>
      obtain ⟨-, -, rfl⟩ := hstep
      exact h.stand v
  | grant v c =>
      obtain ⟨-, -, hvote, ⟨x, hx, -⟩, rfl⟩ := hstep
      exact h.grant hvote hx
  | elect c =>
      obtain ⟨hrole, ⟨Q, hQ, hvotes⟩, rfl⟩ := hstep
      exact h.elect hrole hQ hvotes
  | append c e =>
      obtain ⟨hrole, he, rfl⟩ := hstep
      exact h.append hrole he
  | accept v offered commit =>
      obtain ⟨-, -, -, -, -, rfl⟩ := hstep
      exact h.accept offered commit
  | advance c commit =>
      obtain ⟨hrole, -, -, rfl⟩ := hstep
      exact h.quiet ⟨le_rfl, fun _ => rfl, fun hr => ⟨hr, rfl, rfl⟩, fun hr => ⟨hr, rfl, rfl⟩⟩
  | sync v c =>
      obtain ⟨-, -, -, -, rfl⟩ := hstep
      exact h.quiet ⟨le_rfl, fun _ => rfl, fun hr => ⟨hr, rfl, rfl⟩, fun hr => ⟨hr, rfl, rfl⟩⟩
  | crash v =>
      rw [Step] at hstep
      subst hstep
      exact h.quiet ⟨le_rfl, fun _ => rfl, nofun, nofun⟩
  | restart v =>
      obtain ⟨-, rfl⟩ := hstep
      exact h.quiet ⟨le_rfl, fun _ => rfl, nofun, nofun⟩

end Elections

end CppWorkspace.Lib.Raft
