import CppWorkspace.Lib.RaftElection

/-!
Log matching: an entry determines the log up to it, because every log is made
of pieces of the leader logs, which only grow.
-/

namespace CppWorkspace.Lib.Raft

open World

section Prefixes

variable {ε : Type*}

theorem prefix_of_prefix_append_singleton {p l : List ε} {e : ε} (h : p <+: l ++ [e]) :
    p <+: l ∨ p = l ++ [e] := by
  rcases List.prefix_concat_iff.mp h with heq | hpre
  · exact Or.inr heq
  · exact Or.inl hpre

/-- Of two prefixes of one list, the one that is not longer is a prefix of
the other. -/
theorem prefix_of_length_le {p q l : List ε} (hp : p <+: l) (hq : q <+: l)
    (hlen : p.length ≤ q.length) : p <+: q :=
  List.prefix_of_prefix_length_le hp hq hlen

theorem takeOver_cases (log offered : List ε) :
    takeOver log offered = log ∧ offered <+: log ∨
      takeOver log offered = offered ∧ ¬ offered <+: log := by
  unfold takeOver
  split
  · next h => exact Or.inl ⟨rfl, h⟩
  · next h => exact Or.inr ⟨rfl, h⟩

/-- A prefix that `offered` does not reach beyond stays through a take-over. -/
theorem takeOver_keeps {p log offered l : List ε} (hp : p <+: log) (hpl : p <+: l)
    (hoffered : offered <+: l) : p <+: takeOver log offered := by
  rcases takeOver_cases log offered with ⟨heq, -⟩ | ⟨heq, hnot⟩
  · rw [heq]
    exact hp
  · rw [heq]
    rcases Nat.le_total p.length offered.length with hle | hge
    · exact prefix_of_length_le hpl hoffered hle
    · exact absurd ((prefix_of_length_le hoffered hpl hge).trans hp) hnot

/-- An element of a list beyond a prefix of it is in the rest. -/
theorem mem_rest_of_prefix {x r q : List ε} {e : ε} (hq : q ++ [e] <+: x ++ r)
    (hlen : x.length ≤ q.length) : e ∈ r := by
  have hx := prefix_of_length_le (List.prefix_append x r) hq (by simp; omega)
  rcases prefix_of_prefix_append_singleton hx with hpre | heq
  · obtain ⟨rest, rfl⟩ := hpre
    rw [List.append_assoc, List.prefix_append_right_inj] at hq
    exact hq.subset (by simp)
  · have hlen' := congrArg List.length heq
    simp at hlen'
    omega

end Prefixes

variable {ι ε : Type*} [Fintype ι] [DecidableEq ι] (termOf : ε → Nat)

/-- What no step undoes. -/
structure Grows (w w' : World ι ε) : Prop where
  leaderLog : ∀ U c l, w.leaderLog U = some (c, l) →
    ∃ l', w'.leaderLog U = some (c, l') ∧ l <+: l'
  candLog : ∀ U c x, w.candLog U c = some x → w'.candLog U c = some x
  votes : ∀ v U c, w.votes v U c → w'.votes v U c
  term : ∀ v, (w.node v).term ≤ (w'.node v).term
  stored : ∀ v T, w.stored v T ≤ w'.stored v T
  frozen : ∀ v T, T < (w.node v).term → w'.stored v T = w.stored v T

/-- Every prefix of `x` is a prefix of the leader log of its last entry's
term, and terms do not fall along `x`. -/
structure Matched (w : World ι ε) (x : List ε) : Prop where
  leads : ∀ p e, p ++ [e] <+: x → ∃ c l, w.leaderLog (termOf e) = some (c, l) ∧ p ++ [e] <+: l
  sorted : x.Pairwise fun a b => termOf a ≤ termOf b

structure Logs (w : World ι ε) : Prop where
  node : ∀ v, Matched termOf w (w.node v).log
  cand : ∀ U c x, w.candLog U c = some x → Matched termOf w x
  leader : ∀ U c l, w.leaderLog U = some (c, l) → Matched termOf w l
  node_bound : ∀ v, ∀ e ∈ (w.node v).log, termOf e ≤ (w.node v).term
  cand_bound : ∀ U c x, w.candLog U c = some x → ∀ e ∈ x, termOf e < U
  stored : ∀ v T, 0 < w.stored v T →
    T ≤ (w.node v).term ∧ ∃ c l, w.leaderLog T = some (c, l) ∧ w.stored v T ≤ l.length

variable {termOf}

section Grows

omit [Fintype ι]

theorem Grows.setNode (w : World ι ε) {v : ι} {n : Node ι ε}
    (hterm : (w.node v).term ≤ n.term) : Grows w (w.setNode v n) where
  leaderLog _ _ l hl := ⟨l, hl, List.prefix_refl l⟩
  candLog _ _ _ hx := hx
  votes _ _ _ hvote := hvote
  term u := by
    by_cases hu : u = v
    · subst hu
      simpa using hterm
    · simp [hu]
  stored _ _ := le_rfl
  frozen _ _ _ := rfl

/-- A step that stores more of the node's own term. -/
theorem Grows.raise {w w' : World ι ε} {v : ι} {n : Nat}
    (hleader : ∀ U c l, w.leaderLog U = some (c, l) →
      ∃ l', w'.leaderLog U = some (c, l') ∧ l <+: l')
    (hcand : w'.candLog = w.candLog) (hvotes : w'.votes = w.votes)
    (hterm : ∀ u, (w'.node u).term = (w.node u).term)
    (hstored : w'.stored = w.raiseStored v (w.node v).term n) : Grows w w' where
  leaderLog := hleader
  candLog _ _ _ hx := by rw [hcand, hx]
  votes _ _ _ hvote := by rwa [hvotes]
  term u := (hterm u).ge
  stored u T := by
    rw [hstored]
    exact raiseStored_le w v _ n u T
  frozen u T hT := by
    rw [hstored]
    apply raiseStored_of_ne
    rintro ⟨rfl, rfl⟩
    omega

omit [DecidableEq ι]

theorem Grows.refl (w : World ι ε) : Grows w w where
  leaderLog _ _ l hl := ⟨l, hl, List.prefix_refl l⟩
  candLog _ _ _ hx := hx
  votes _ _ _ hvote := hvote
  term _ := le_rfl
  stored _ _ := le_rfl
  frozen _ _ _ := rfl

theorem Grows.trans {w₁ w₂ w₃ : World ι ε} (h : Grows w₁ w₂) (h' : Grows w₂ w₃) :
    Grows w₁ w₃ where
  leaderLog U c l hl := by
    obtain ⟨l₂, hl₂, hpre⟩ := h.leaderLog U c l hl
    obtain ⟨l₃, hl₃, hpre'⟩ := h'.leaderLog U c l₂ hl₂
    exact ⟨l₃, hl₃, hpre.trans hpre'⟩
  candLog U c x hx := h'.candLog U c x (h.candLog U c x hx)
  votes v U c hvote := h'.votes v U c (h.votes v U c hvote)
  term v := (h.term v).trans (h'.term v)
  stored v T := (h.stored v T).trans (h'.stored v T)
  frozen v T hT := (h'.frozen v T (hT.trans_le (h.term v))).trans (h.frozen v T hT)

end Grows

section Terms

omit [Fintype ι]

@[simp] theorem term_stand_of_ne (w : World ι ε) {u v : ι} (h : u ≠ v) :
    (w.stand v).node u = w.node u := Function.update_of_ne h _ _

@[simp] theorem term_grant (w : World ι ε) (u v c : ι) :
    ((w.grant v c).node u).term = (w.node u).term := by
  by_cases hu : u = v
  · subst hu
    simp [World.grant]
  · simp [World.grant, hu]

@[simp] theorem term_elect (w : World ι ε) (u c : ι) :
    ((w.elect c).node u).term = (w.node u).term := by
  by_cases hu : u = c
  · subst hu
    simp [World.elect]
  · simp [World.elect, hu]

@[simp] theorem term_append (w : World ι ε) (u c : ι) (e : ε) :
    ((w.append c e).node u).term = (w.node u).term := by
  by_cases hu : u = c
  · subst hu
    simp [World.append]
  · simp [World.append, hu]

@[simp] theorem term_accept (w : World ι ε) (u v : ι) (offered : List ε) (commit : Nat) :
    ((w.accept v offered commit).node u).term = (w.node u).term := by
  by_cases hu : u = v
  · subst hu
    simp [World.accept]
  · simp [World.accept, hu]

end Terms

/-- Every step grows the history. -/
theorem Step.grows {w w' : World ι ε} {event : Event ι ε} (h : Elections termOf w)
    (hstep : Step termOf w event w') : Grows w w' := by
  cases event with
  | updateTerm v term =>
      obtain ⟨-, hlt, rfl⟩ := hstep
      exact .setNode w hlt.le
  | stand v =>
      obtain ⟨-, -, rfl⟩ := hstep
      refine ⟨fun U c l hl => ⟨l, hl, List.prefix_refl l⟩, fun U c x hx => ?_,
        fun _ _ _ hvote => Or.inl hvote, fun u => ?_, fun _ _ => le_rfl, fun _ _ _ => rfl⟩
      · rw [stand_candLog_of_ne, hx]
        rintro ⟨rfl, rfl⟩
        have hle := h.cand_term _ _ _ hx
        omega
      · by_cases hu : u = v
        · subst hu
          simp [World.stand]
        · simp [hu]
  | grant v c =>
      obtain ⟨-, -, -, -, rfl⟩ := hstep
      exact ⟨fun U c l hl => ⟨l, hl, List.prefix_refl l⟩, fun _ _ _ hx => hx,
        fun _ _ _ hvote => Or.inl hvote, by simp, fun _ _ => le_rfl, fun _ _ _ => rfl⟩
  | elect c =>
      obtain ⟨hrole, ⟨Q, hQ, hvotes⟩, rfl⟩ := hstep
      have hnone := h.leaderLog_none hrole hQ hvotes
      refine .raise (v := c) ?_ rfl rfl (by simp) rfl
      intro U c' l hl
      refine ⟨l, ?_, List.prefix_refl l⟩
      have hU : U ≠ (w.node c).term := by
        rintro rfl
        rw [hnone] at hl
        cases hl
      rw [← hl]
      exact Function.update_of_ne hU _ _
  | append c e =>
      obtain ⟨hrole, -, rfl⟩ := hstep
      refine .raise (v := c) ?_ rfl rfl (by simp) rfl
      intro U c' l hl
      by_cases hU : U = (w.node c).term
      · subst hU
        rw [h.leader c hrole] at hl
        cases hl
        exact ⟨_, Function.update_self _ _ _, List.prefix_append _ _⟩
      · exact ⟨l, (Function.update_of_ne hU _ _).trans hl, List.prefix_refl l⟩
  | accept v offered commit =>
      obtain ⟨-, -, -, -, -, rfl⟩ := hstep
      exact .raise (v := v) (fun U c l hl => ⟨l, hl, List.prefix_refl l⟩) rfl rfl (by simp) rfl
  | advance c commit =>
      obtain ⟨-, -, -, rfl⟩ := hstep
      exact .setNode w le_rfl
  | sync v c =>
      obtain ⟨-, -, -, -, rfl⟩ := hstep
      exact .setNode w le_rfl
  | crash v =>
      rw [Step] at hstep
      subst hstep
      exact .setNode w le_rfl
  | restart v =>
      obtain ⟨-, rfl⟩ := hstep
      exact .setNode w le_rfl

namespace Matched

omit [Fintype ι] [DecidableEq ι]

variable {w w' : World ι ε} {x y : List ε}

theorem nil : Matched termOf w [] where
  leads p e h := by simp at h
  sorted := List.Pairwise.nil

theorem mono (h : Matched termOf w x) (hgrows : Grows w w') : Matched termOf w' x where
  leads p e hp := by
    obtain ⟨c, l, hl, hpl⟩ := h.leads p e hp
    obtain ⟨l', hl', hgrow⟩ := hgrows.leaderLog _ c l hl
    exact ⟨c, l', hl', hpl.trans hgrow⟩
  sorted := h.sorted

theorem shorten (h : Matched termOf w x) (hpre : y <+: x) : Matched termOf w y where
  leads p e hp := h.leads p e (hp.trans hpre)
  sorted := h.sorted.sublist hpre.sublist

/-- Two logs with entries of one term at the same index agree up to it. -/
theorem agree (hx : Matched termOf w x) (hy : Matched termOf w y) {p q : List ε} {e e' : ε}
    (hp : p ++ [e] <+: x) (hq : q ++ [e'] <+: y) (hlen : p.length = q.length)
    (hterm : termOf e = termOf e') : p ++ [e] = q ++ [e'] := by
  obtain ⟨c, l, hl, hpl⟩ := hx.leads p e hp
  obtain ⟨c', l', hl', hql⟩ := hy.leads q e' hq
  rw [hterm, hl'] at hl
  cases hl
  exact (prefix_of_length_le hpl hql (by simp [hlen])).eq_of_length (by simp [hlen])

end Matched

namespace Logs

variable {w w' : World ι ε}

omit [DecidableEq ι] in
theorem leader_bound (h : Logs termOf w) (helections : Elections termOf w) {U : Nat} {c : ι}
    {l : List ε} (hl : w.leaderLog U = some (c, l)) : ∀ e ∈ l, termOf e ≤ U := by
  obtain ⟨-, x, r, hx, rfl, hr⟩ := helections.elected U c l hl
  intro e he
  rcases List.mem_append.mp he with hold | hnew
  · exact (h.cand_bound U c x hx e hold).le
  · exact (hr e hnew).le

omit [Fintype ι] [DecidableEq ι] in
theorem stored_le (h : Logs termOf w) {T : Nat} {c : ι} {l : List ε}
    (hl : w.leaderLog T = some (c, l)) (v : ι) : w.stored v T ≤ l.length := by
  rcases Nat.eq_zero_or_pos (w.stored v T) with hzero | hpos
  · omega
  · obtain ⟨-, c', l', hl', hlen⟩ := h.stored v T hpos
    rw [hl] at hl'
    cases hl'
    exact hlen

omit [Fintype ι] [DecidableEq ι] in
/-- A step keeps the logs matched if it does so for those it changes. -/
theorem of_grows (h : Logs termOf w) (hgrows : Grows w w')
    (hnode : ∀ v, (w'.node v).log = (w.node v).log ∨ Matched termOf w' (w'.node v).log ∧
      ∀ e ∈ (w'.node v).log, termOf e ≤ (w'.node v).term)
    (hcand : ∀ U c x, w'.candLog U c = some x → w.candLog U c = some x ∨
      Matched termOf w' x ∧ ∀ e ∈ x, termOf e < U)
    (hleader : ∀ U c l, w'.leaderLog U = some (c, l) → w.leaderLog U = some (c, l) ∨
      Matched termOf w' l)
    (hstored : ∀ v T, w'.stored v T = w.stored v T ∨
      T ≤ (w'.node v).term ∧ ∃ c l, w'.leaderLog T = some (c, l) ∧ w'.stored v T ≤ l.length) :
    Logs termOf w' where
  node v := by
    rcases hnode v with hsame | ⟨hmatched, -⟩
    · rw [hsame]
      exact (h.node v).mono hgrows
    · exact hmatched
  cand U c x hx := by
    rcases hcand U c x hx with hsame | ⟨hmatched, -⟩
    · exact (h.cand U c x hsame).mono hgrows
    · exact hmatched
  leader U c l hl := by
    rcases hleader U c l hl with hsame | hmatched
    · exact (h.leader U c l hsame).mono hgrows
    · exact hmatched
  node_bound v := by
    rcases hnode v with hsame | ⟨-, hbound⟩
    · rw [hsame]
      intro e he
      exact (h.node_bound v e he).trans (hgrows.term v)
    · exact hbound
  cand_bound U c x hx := by
    rcases hcand U c x hx with hsame | ⟨-, hbound⟩
    · exact h.cand_bound U c x hsame
    · exact hbound
  stored v T hpos := by
    rcases hstored v T with hsame | hraised
    · rw [hsame] at hpos ⊢
      obtain ⟨hle, c, l, hl, hlen⟩ := h.stored v T hpos
      obtain ⟨l', hl', hpre⟩ := hgrows.leaderLog T c l hl
      exact ⟨hle.trans (hgrows.term v), c, l', hl', hlen.trans hpre.length_le⟩
    · exact hraised

omit [Fintype ι] in
/-- A change of one node that keeps its log or empties it. -/
theorem setNode (h : Logs termOf w) {v : ι} {n : Node ι ε} (hterm : (w.node v).term ≤ n.term)
    (hlog : n.log = (w.node v).log ∨ n.log = []) : Logs termOf (w.setNode v n) := by
  refine h.of_grows (.setNode w hterm) ?_ (fun _ _ _ hx => Or.inl hx)
    (fun _ _ _ hl => Or.inl hl) fun _ _ => Or.inl rfl
  intro u
  by_cases hu : u = v
  · subst hu
    simp only [setNode_node, Function.update_self]
    rcases hlog with hsame | hnil
    · exact Or.inl hsame
    · rw [hnil]
      exact Or.inr ⟨.nil, nofun⟩
  · exact Or.inl (by simp [hu])

/-- Every step keeps the logs matched. -/
theorem step (h : Logs termOf w) (helections : Elections termOf w) {event : Event ι ε}
    (hstep : Step termOf w event w') : Logs termOf w' := by
  have hgrows := Step.grows helections hstep
  cases event with
  | updateTerm v term =>
      obtain ⟨-, hlt, rfl⟩ := hstep
      exact h.setNode hlt.le (Or.inl rfl)
  | stand v =>
      obtain ⟨-, -, rfl⟩ := hstep
      refine h.of_grows hgrows ?_ ?_ (fun _ _ _ hl => Or.inl hl) fun _ _ => Or.inl rfl
      · intro u
        refine Or.inl ?_
        by_cases hu : u = v
        · subst hu
          simp [World.stand]
        · simp [hu]
      · intro U c x hx
        by_cases hnew : U = (w.node v).term + 1 ∧ c = v
        · obtain ⟨rfl, rfl⟩ := hnew
          rw [stand_candLog_self, Option.some.injEq] at hx
          subst hx
          refine Or.inr ⟨(h.node c).mono hgrows, fun e he => ?_⟩
          have hle := h.node_bound c e he
          omega
        · exact Or.inl ((stand_candLog_of_ne w v hnew).symm.trans hx)
  | grant v c =>
      obtain ⟨-, -, -, -, rfl⟩ := hstep
      refine h.of_grows hgrows ?_ (fun _ _ _ hx => Or.inl hx) (fun _ _ _ hl => Or.inl hl)
        fun _ _ => Or.inl rfl
      intro u
      refine Or.inl ?_
      by_cases hu : u = v
      · subst hu
        simp [World.grant]
      · simp [World.grant, hu]
  | elect c =>
      obtain ⟨hrole, ⟨Q, hQ, hvotes⟩, rfl⟩ := hstep
      have hnone := helections.leaderLog_none hrole hQ hvotes
      have hnew : (w.elect c).leaderLog (w.node c).term = some (c, (w.node c).log) :=
        Function.update_self _ _ _
      refine h.of_grows hgrows ?_ (fun _ _ _ hx => Or.inl hx) ?_ ?_
      · intro u
        refine Or.inl ?_
        by_cases hu : u = c
        · subst hu
          simp [World.elect]
        · simp [World.elect, hu]
      · intro U c' l hl
        by_cases hU : U = (w.node c).term
        · subst hU
          rw [hnew] at hl
          cases hl
          exact Or.inr ((h.node c).mono hgrows)
        · refine Or.inl ?_
          rw [← hl]
          exact (Function.update_of_ne hU _ _).symm
      · intro v T
        by_cases hpair : v = c ∧ T = (w.node c).term
        · obtain ⟨rfl, rfl⟩ := hpair
          refine Or.inr ⟨(term_elect w v v).ge, v, _, hnew, ?_⟩
          have hzero : w.stored v (w.node v).term = 0 := by
            by_contra hpos
            obtain ⟨-, c', l, hl, -⟩ := h.stored v _ (Nat.pos_of_ne_zero hpos)
            rw [hnone] at hl
            cases hl
          simp [World.elect, raiseStored_self, hzero]
        · exact Or.inl (raiseStored_of_ne w c _ _ hpair)
  | append c e =>
      obtain ⟨hrole, he, rfl⟩ := hstep
      have hold := helections.leader c hrole
      have hnew : (w.append c e).leaderLog (w.node c).term =
          some (c, (w.node c).log ++ [e]) := Function.update_self _ _ _
      have hmatched : Matched termOf (w.append c e) ((w.node c).log ++ [e]) := by
        constructor
        · intro p e' hp
          rcases prefix_of_prefix_append_singleton hp with hpre | heq
          · exact ((h.node c).mono hgrows).leads p e' hpre
          · have hlast : e' = e := by
              have hlast := congrArg List.getLast? heq
              simpa using hlast
            rw [hlast, he]
            exact ⟨c, _, hnew, by rw [← heq, hlast]⟩
        · apply List.pairwise_append.mpr
          refine ⟨(h.node c).sorted, List.pairwise_singleton _ _, ?_⟩
          intro a ha b hb
          rw [List.mem_singleton.mp hb, he]
          exact h.leader_bound helections hold a ha
      refine h.of_grows hgrows ?_ (fun _ _ _ hx => Or.inl hx) ?_ ?_
      · intro u
        by_cases hu : u = c
        · subst hu
          have hlog : ((w.append u e).node u).log = (w.node u).log ++ [e] := by
            simp [World.append]
          rw [hlog, term_append]
          refine Or.inr ⟨hmatched, fun e' he' => ?_⟩
          rcases List.mem_append.mp he' with hin | hsingle
          · exact h.node_bound u e' hin
          · rw [List.mem_singleton.mp hsingle, he]
        · exact Or.inl (by simp [World.append, hu])
      · intro U c' l hl
        by_cases hU : U = (w.node c).term
        · subst hU
          rw [hnew] at hl
          cases hl
          exact Or.inr hmatched
        · refine Or.inl ?_
          rw [← hl]
          exact (Function.update_of_ne hU _ _).symm
      · intro v T
        by_cases hpair : v = c ∧ T = (w.node c).term
        · obtain ⟨rfl, rfl⟩ := hpair
          refine Or.inr ⟨(term_append w v v e).ge, v, _, hnew, ?_⟩
          have hself := raiseStored_self w v (w.node v).term ((w.node v).log.length + 1)
          have hle := h.stored_le hold v
          simp only [World.append, hself, List.length_append, List.length_singleton]
          omega
        · exact Or.inl (raiseStored_of_ne w c _ _ hpair)
  | accept v offered commit =>
      obtain ⟨-, -, ⟨c, l, hl, hoffered⟩, -, -, rfl⟩ := hstep
      refine h.of_grows hgrows ?_ (fun _ _ _ hx => Or.inl hx) (fun _ _ _ hl => Or.inl hl) ?_
      · intro u
        by_cases hu : u = v
        · subst hu
          have hlog : ((w.accept u offered commit).node u).log =
              takeOver (w.node u).log offered := by simp [World.accept]
          rw [hlog, term_accept]
          rcases takeOver_cases (w.node u).log offered with ⟨heq, -⟩ | ⟨heq, -⟩
          · exact Or.inl heq
          · rw [heq]
            refine Or.inr ⟨((h.leader _ _ _ hl).shorten hoffered).mono hgrows, ?_⟩
            intro e he
            exact h.leader_bound helections hl e (hoffered.subset he)
        · exact Or.inl (by simp [World.accept, hu])
      · intro u T
        by_cases hpair : u = v ∧ T = (w.node v).term
        · obtain ⟨rfl, rfl⟩ := hpair
          refine Or.inr ⟨(term_accept w u u offered commit).ge, c, l, hl, ?_⟩
          have hself := raiseStored_self w u (w.node u).term offered.length
          have hle := h.stored_le hl u
          simp only [World.accept, hself]
          exact max_le hle hoffered.length_le
        · exact Or.inl (raiseStored_of_ne w v _ _ hpair)
  | advance c commit =>
      obtain ⟨-, -, -, rfl⟩ := hstep
      exact h.setNode le_rfl (Or.inl rfl)
  | sync v c =>
      obtain ⟨-, -, -, -, rfl⟩ := hstep
      exact h.setNode le_rfl (Or.inl rfl)
  | crash v =>
      rw [Step] at hstep
      subst hstep
      exact h.setNode le_rfl (Or.inr rfl)
  | restart v =>
      obtain ⟨-, rfl⟩ := hstep
      exact h.setNode le_rfl (Or.inl rfl)

end Logs

end CppWorkspace.Lib.Raft
