import CppWorkspace.Lib.RaftSafety

/-!
What holds along every run: the commit index of a node stays inside what a
majority stored, later leaders have it, and what is committed later extends
what was committed before.
-/

namespace CppWorkspace.Lib.Raft

open World

variable {ι ε : Type*} [Fintype ι] [DecidableEq ι] (termOf : ε → Nat)

/-- Every node's committed prefix is in its log and was committed. -/
def Committed (w : World ι ε) : Prop :=
  ∀ v, (w.node v).commit ≤ (w.node v).log.length ∧
    CommittedBy termOf w (w.node v).term ((w.node v).log.take (w.node v).commit)

/-- The whole invariant of the protocol. -/
structure Inv (w : World ι ε) : Prop where
  elections : Elections termOf w
  logs : Logs termOf w
  complete : Complete termOf w
  committed : Committed termOf w

variable {termOf} {w w' : World ι ε}

omit [DecidableEq ι] in
/-- A committed prefix is in the log of every later leader. -/
theorem CommittedBy.prefix_leaderLog (hcomplete : Complete termOf w) {U : Nat} {p l : List ε}
    {c : ι} (h : CommittedBy termOf w U p) (hl : w.leaderLog U = some (c, l)) : p <+: l := by
  rcases h with rfl | ⟨T, q, hT, hcommit, hp⟩
  · exact List.nil_prefix
  · rcases Nat.lt_or_ge T U with hlt | hge
    · rcases hcomplete.leader T q hcommit.1 U c l hlt hl with hq | hlost
      · exact hp.trans hq
      · exact absurd hlost hcommit.not_noCommit
    · obtain rfl : T = U := by omega
      obtain ⟨⟨c', l', hl', hq, -⟩, -⟩ := hcommit
      rw [hl] at hl'
      cases hl'
      exact hp.trans hq

namespace Committed

omit [DecidableEq ι] in
/-- A step keeps the commit indexes sound if it does so for those it changes. -/
theorem of_grows (h : Committed termOf w) (hgrows : Grows w w')
    (hnode : ∀ v, ((w'.node v).commit = (w.node v).commit ∧
        (w.node v).log <+: (w'.node v).log) ∨
      (w'.node v).commit ≤ (w'.node v).log.length ∧
        CommittedBy termOf w' (w'.node v).term ((w'.node v).log.take (w'.node v).commit)) :
    Committed termOf w' := by
  intro v
  rcases hnode v with ⟨hcommit, hpre⟩ | hnew
  · obtain ⟨hle, hold⟩ := h v
    rw [hcommit]
    refine ⟨hle.trans hpre.length_le, ?_⟩
    obtain ⟨rest, hrest⟩ := hpre
    rw [← hrest, List.take_append_of_le_length hle]
    exact hold.mono hgrows (hgrows.term v)
  · exact hnew

omit [DecidableEq ι] in
/-- Taking over an offer keeps the committed prefix. -/
theorem takeOver_extends (h : Committed termOf w) (hcomplete : Complete termOf w) {v c : ι}
    {l offered : List ε} (hl : w.leaderLog (w.node v).term = some (c, l))
    (hoffered : offered <+: l) :
    (w.node v).log.take (w.node v).commit <+: takeOver (w.node v).log offered := by
  have hpre := (h v).2.prefix_leaderLog hcomplete hl
  exact takeOver_keeps (List.take_prefix _ _) hpre hoffered

omit [DecidableEq ι] in
/-- Taking over an offer keeps the committed prefix and adds the offer's. -/
theorem accept (h : Committed termOf w) (hcomplete : Complete termOf w) {v c : ι}
    {l offered : List ε} (hl : w.leaderLog (w.node v).term = some (c, l))
    (hoffered : offered <+: l) {commit : Nat} (hcommit : commit ≤ offered.length)
    (hby : CommittedBy termOf w (w.node v).term (offered.take commit)) :
    max (w.node v).commit commit ≤ (takeOver (w.node v).log offered).length ∧
      CommittedBy termOf w (w.node v).term
        ((takeOver (w.node v).log offered).take (max (w.node v).commit commit)) := by
  obtain ⟨hle, hold⟩ := h v
  have hkeep := h.takeOver_extends hcomplete hl hoffered
  have hlen : ((w.node v).log.take (w.node v).commit).length = (w.node v).commit := by
    simp [hle]
  -- both prefixes are prefixes of the new log
  have hnew : offered <+: takeOver (w.node v).log offered := by
    rcases takeOver_cases (w.node v).log offered with ⟨heq, hin⟩ | ⟨heq, -⟩
    · rwa [heq]
    · rw [heq]
  refine ⟨max_le ?_ (hcommit.trans hnew.length_le), ?_⟩
  · rw [← hlen]
    exact hkeep.length_le
  · rcases max_cases (w.node v).commit commit with ⟨hmax, -⟩ | ⟨hmax, -⟩
    · rw [hmax]
      have htake := List.prefix_iff_eq_take.mp hkeep
      rw [hlen] at htake
      rwa [← htake]
    · rw [hmax]
      obtain ⟨rest, hrest⟩ := hnew
      rw [← hrest, List.take_append_of_le_length hcommit]
      exact hby

theorem step (h : Committed termOf w) (helections : Elections termOf w)
    (hcomplete : Complete termOf w) {event : Event ι ε} (hstep : Step termOf w event w') :
    Committed termOf w' := by
  have hgrows := Step.grows helections hstep
  cases event with
  | updateTerm v term =>
      obtain ⟨-, -, rfl⟩ := hstep
      refine h.of_grows hgrows fun u => Or.inl ?_
      by_cases hu : u = v
      · subst hu
        simp
      · simp [hu]
  | stand v =>
      obtain ⟨-, -, rfl⟩ := hstep
      refine h.of_grows hgrows fun u => Or.inl ?_
      by_cases hu : u = v
      · subst hu
        simp [World.stand]
      · simp [hu]
  | grant v c =>
      obtain ⟨-, -, -, -, rfl⟩ := hstep
      refine h.of_grows hgrows fun u => Or.inl ?_
      by_cases hu : u = v
      · subst hu
        simp [World.grant]
      · simp [World.grant, hu]
  | elect c =>
      obtain ⟨-, -, rfl⟩ := hstep
      refine h.of_grows hgrows fun u => Or.inl ?_
      by_cases hu : u = c
      · subst hu
        simp [World.elect]
      · simp [World.elect, hu]
  | append c e =>
      obtain ⟨-, -, rfl⟩ := hstep
      refine h.of_grows hgrows fun u => Or.inl ?_
      by_cases hu : u = c
      · subst hu
        simp [World.append]
      · simp [World.append, hu]
  | accept v offered commit =>
      obtain ⟨-, -, ⟨c, l, hl, hoffered⟩, hcommit, hby, rfl⟩ := hstep
      refine h.of_grows hgrows fun u => ?_
      by_cases hu : u = v
      · subst hu
        obtain ⟨hlen, hnew⟩ := h.accept hcomplete hl hoffered hcommit hby
        have hnode : (w.accept u offered commit).node u = { w.node u with
            log := takeOver (w.node u).log offered
            role := .follower
            commit := max (w.node u).commit commit } := Function.update_self _ _ _
        rw [hnode]
        exact Or.inr ⟨hlen, hnew.mono hgrows le_rfl⟩
      · exact Or.inl (by simp [World.accept, hu])
  | advance c commit =>
      obtain ⟨-, hcommit, hby, rfl⟩ := hstep
      refine h.of_grows hgrows fun u => ?_
      by_cases hu : u = c
      · subst hu
        obtain ⟨hle, hold⟩ := h u
        simp only [setNode_node, Function.update_self]
        have hboth : CommittedBy termOf w (w.node u).term
            ((w.node u).log.take (max (w.node u).commit commit)) := by
          rcases max_cases (w.node u).commit commit with ⟨hmax, -⟩ | ⟨hmax, -⟩
          · rwa [hmax]
          · rw [hmax]
            exact Or.inr ⟨_, _, le_rfl, hby, List.prefix_refl _⟩
        exact Or.inr ⟨max_le hle hcommit, hboth.mono hgrows le_rfl⟩
      · exact Or.inl (by simp [hu])
  | sync v c =>
      obtain ⟨-, -, -, -, rfl⟩ := hstep
      refine h.of_grows hgrows fun u => Or.inl ?_
      by_cases hu : u = v
      · subst hu
        simp
      · simp [hu]
  | crash v =>
      rw [Step] at hstep
      subst hstep
      refine h.of_grows hgrows fun u => ?_
      by_cases hu : u = v
      · subst hu
        simp only [setNode_node, Function.update_self]
        exact Or.inr ⟨le_rfl, Or.inl rfl⟩
      · exact Or.inl (by simp [hu])
  | restart v =>
      obtain ⟨-, rfl⟩ := hstep
      refine h.of_grows hgrows fun u => Or.inl ?_
      by_cases hu : u = v
      · subst hu
        simp
      · simp [hu]

end Committed

omit [DecidableEq ι] in
/-- What a node that holds the whole log of its leader has stored is in it. -/
theorem Inv.synced_of_leader (h : Inv termOf w) {v c : ι} (hrole : (w.node c).role = .leader)
    (hterm : (w.node c).term = (w.node v).term) {T : Nat} {p : List ε}
    (hslot : Slot termOf w T p) (hstored : p.length ≤ w.stored v T) :
    p <+: (w.node c).log ∨ NoCommit w T p := by
  have hl := h.elections.leader c hrole
  have hpos : 0 < w.stored v T := by
    obtain ⟨q, e, rfl, -⟩ := hslot.last
    simp only [List.length_append, List.length_singleton] at hstored
    omega
  have hle := (h.logs.stored v T hpos).1
  rcases Nat.lt_or_ge T (w.node v).term with hlt | hge
  · exact h.complete.leader T p hslot _ c _ (by omega) hl
  · obtain rfl : T = (w.node c).term := by omega
    obtain ⟨c', l, hl', hp, -⟩ := hslot
    rw [hl] at hl'
    cases hl'
    exact Or.inl hp

theorem Complete.step (h : Inv termOf w) {event : Event ι ε} (hstep : Step termOf w event w') :
    Complete termOf w' := by
  have hgrows := Step.grows h.elections hstep
  cases event with
  | updateTerm v term =>
      obtain ⟨-, hlt, rfl⟩ := hstep
      exact h.complete.setNode hlt.le fun hsync T p hslot => h.complete.synced T p hslot v hsync
  | stand v =>
      obtain ⟨-, hsync, rfl⟩ := hstep
      exact h.complete.stand h.elections hsync hgrows
  | grant v c =>
      obtain ⟨-, hsync, -, ⟨x, hx, hdate⟩, rfl⟩ := hstep
      exact h.complete.grant h.logs hsync hx hdate hgrows
  | elect c =>
      obtain ⟨hrole, ⟨Q, hQ, hvotes⟩, rfl⟩ := hstep
      exact h.complete.elect h.elections h.logs hrole hQ hvotes hgrows
  | append c e =>
      obtain ⟨hrole, -, rfl⟩ := hstep
      exact h.complete.append h.elections h.logs hrole hgrows
  | accept v offered commit =>
      obtain ⟨-, -, ⟨c, l, hl, hoffered⟩, -, -, rfl⟩ := hstep
      exact h.complete.accept h.elections h.logs hl hoffered commit hgrows
  | advance c commit =>
      obtain ⟨-, -, -, rfl⟩ := hstep
      exact h.complete.setNode le_rfl fun hsync T p hslot => h.complete.synced T p hslot c hsync
  | sync v c =>
      obtain ⟨-, hrole, hterm, hlog, rfl⟩ := hstep
      refine h.complete.setNode le_rfl fun _ T p hslot hstored => ?_
      rw [hlog]
      exact h.synced_of_leader hrole hterm hslot hstored
  | crash v =>
      rw [Step] at hstep
      subst hstep
      exact h.complete.setNode le_rfl fun hsync => absurd hsync Bool.false_ne_true
  | restart v =>
      obtain ⟨-, rfl⟩ := hstep
      exact h.complete.setNode le_rfl fun hsync T p hslot => h.complete.synced T p hslot v hsync

theorem Inv.step (h : Inv termOf w) {event : Event ι ε} (hstep : Step termOf w event w') :
    Inv termOf w' where
  elections := h.elections.step hstep
  logs := h.logs.step h.elections hstep
  complete := Complete.step h hstep
  committed := h.committed.step h.elections h.complete hstep

omit [DecidableEq ι] in
theorem inv_initialWorld : Inv termOf (initialWorld : World ι ε) where
  elections := by constructor <;> simp [initialWorld]
  logs := by constructor <;> simp [initialWorld, Matched.nil]
  complete := by constructor <;> simp [initialWorld, Slot]
  committed := by
    intro v
    simp [initialWorld, CommittedBy]

theorem inv_invariant : (system termOf : System (World ι ε) (Event ι ε)).Invariant (Inv termOf) where
  init w hw := by
    rw [system] at hw
    subst hw
    exact inv_initialWorld
  step _ _ _ h hstep := h.step hstep

/-- A run from a state that meets the invariant grows the history. -/
theorem run_grows {events : List (Event ι ε)} (h : Inv termOf w)
    (hrun : (system termOf).Run w events w') : Grows w w' ∧ Inv termOf w' := by
  induction hrun with
  | nil => exact ⟨.refl w, h⟩
  | snoc event _ hstep ih =>
      obtain ⟨hgrows, hinv⟩ := ih
      exact ⟨hgrows.trans (Step.grows hinv.elections hstep), hinv.step hstep⟩

omit [DecidableEq ι] in
/-- What is committed later, in a prefix that did not exist before, extends
what had been committed before, whichever terms the two were stored in. -/
theorem commit_extends (h : Inv termOf w) (h' : Inv termOf w') (hgrows : Grows w w') {T U : Nat}
    {p q : List ε} (hp : Commit termOf w T p) (hq : Commit termOf w' U q)
    (hnew : ¬ Slot termOf w U q) : p <+: q := by
  have hp' := hp.mono hgrows
  obtain ⟨c, l, hl, hql, last, hlast, hterm⟩ := hq.1
  rcases Nat.lt_trichotomy T U with hlt | rfl | hgt
  -- a later term: its log has `p`, and `q` ends with an entry `p` cannot contain
  · have hpl : p <+: l :=
      (h'.complete.leader T p hp'.1 U c l hlt hl).resolve_right hp'.not_noCommit
    rcases Nat.le_total p.length q.length with hle | hge
    · exact prefix_of_length_le hpl hql hle
    · have hqp := prefix_of_length_le hql hpl hge
      have hle := hp'.1.term_le h'.logs last (hqp.subset (List.mem_of_getLast? hlast))
      omega
  -- the same term: `q` is beyond the leader log of before
  · obtain ⟨c₀, l₀, hl₀, hpl, -⟩ := hp.1
    obtain ⟨l', hl', hgrow⟩ := hgrows.leaderLog T c₀ l₀ hl₀
    rw [hl] at hl'
    cases hl'
    rcases Nat.le_total q.length l₀.length with hle | hge
    · exact absurd ⟨c, l₀, hl₀, prefix_of_length_le hql hgrow hle, last, hlast, hterm⟩ hnew
    · exact hpl.trans (prefix_of_length_le hgrow hql hge)
  -- an earlier term: the leader of `T` had all of `q` when it was elected
  · exfalso
    obtain ⟨c₀, l₀, hl₀, hpl, -⟩ := hp.1
    obtain ⟨l', hl', hgrow⟩ := hgrows.leaderLog T c₀ l₀ hl₀
    have hql' : q <+: l' :=
      (h'.complete.leader U q hq.1 T c₀ l' hgt hl').resolve_right hq.not_noCommit
    obtain ⟨q₀, rfl⟩ := List.getLast?_eq_some_iff.mp hlast
    rcases Nat.lt_or_ge l₀.length (q₀ ++ [last]).length with hlong | hle
    · obtain ⟨-, x, r, hx, rfl, -⟩ := h.elections.elected T c₀ l₀ hl₀
      obtain ⟨-, x', r', hx', rfl, hr⟩ := h'.elections.elected T c₀ l' hl'
      rw [hgrows.candLog T c₀ x hx] at hx'
      cases hx'
      simp only [List.length_append, List.length_singleton] at hlong
      have hmem := mem_rest_of_prefix hql' (by omega)
      have heq := hr last hmem
      omega
    · have hql₀ := prefix_of_length_le hql' hgrow hle
      obtain ⟨c₁, l₁, hl₁, hql₁⟩ := (h.logs.leader T c₀ l₀ hl₀).leads q₀ last hql₀
      rw [hterm] at hl₁
      exact hnew ⟨c₁, l₁, hl₁, hql₁, last, by simp, hterm⟩

end CppWorkspace.Lib.Raft
