import CppWorkspace.Lib.Transition

/-!
Replicated logs by leader election, over any finite set of nodes and any type
of entries that carry a term. A leader offers prefixes of its log; a node that
lacks a prefix takes it over. Terms and votes survive a crash, the log does
not: a restarted node must hold the whole log of the leader of its term once
before it takes part in an election again.
-/

namespace CppWorkspace.Lib.Raft

inductive Role where
  | down
  | follower
  | candidate
  | leader
deriving Repr, DecidableEq

structure Node (ι ε : Type*) where
  term : Nat
  vote : Option ι
  log : List ε
  role : Role
  synced : Bool
  commit : Nat

/-- The nodes and the history: the log of the leader of each term, the logs
candidates stood with, the votes cast, and how much of each term's leader log
a node has ever stored during that term. -/
structure World (ι ε : Type*) where
  node : ι → Node ι ε
  leaderLog : Nat → Option (ι × List ε)
  candLog : Nat → ι → Option (List ε)
  votes : ι → Nat → ι → Prop
  stored : ι → Nat → Nat

inductive Event (ι ε : Type*) where
  | updateTerm (v : ι) (term : Nat)
  | stand (v : ι)
  | grant (v c : ι)
  | elect (c : ι)
  | append (c : ι) (e : ε)
  | accept (v : ι) (offered : List ε) (commit : Nat)
  | advance (c : ι) (commit : Nat)
  | sync (v c : ι)
  | crash (v : ι)
  | restart (v : ι)

def Majority {ι : Type*} [Fintype ι] (Q : Finset ι) : Prop := Fintype.card ι < 2 * Q.card

/-- Two majorities share a node. -/
theorem Majority.meet {ι : Type*} [Fintype ι] {Q Q' : Finset ι}
    (hQ : Majority Q) (hQ' : Majority Q') : ∃ v, v ∈ Q ∧ v ∈ Q' := by
  classical
  have hsum := Finset.card_union_add_card_inter Q Q'
  have hle := Finset.card_le_univ (Q ∪ Q')
  unfold Majority at hQ hQ'
  have hpos : 0 < (Q ∩ Q').card := by omega
  obtain ⟨v, hv⟩ := Finset.card_pos.mp hpos
  exact ⟨v, Finset.mem_inter.mp hv⟩

open Classical in
/-- What a node's log becomes when a prefix is offered. -/
noncomputable def takeOver {ε : Type*} (log offered : List ε) : List ε :=
  if offered <+: log then log else offered

namespace World

variable {ι ε : Type*} [DecidableEq ι]

def setNode (w : World ι ε) (v : ι) (n : Node ι ε) : World ι ε :=
  { w with node := Function.update w.node v n }

@[simp] theorem setNode_leaderLog (w : World ι ε) (v : ι) (n : Node ι ε) :
    (w.setNode v n).leaderLog = w.leaderLog := rfl

@[simp] theorem setNode_candLog (w : World ι ε) (v : ι) (n : Node ι ε) :
    (w.setNode v n).candLog = w.candLog := rfl

@[simp] theorem setNode_votes (w : World ι ε) (v : ι) (n : Node ι ε) :
    (w.setNode v n).votes = w.votes := rfl

@[simp] theorem setNode_stored (w : World ι ε) (v : ι) (n : Node ι ε) :
    (w.setNode v n).stored = w.stored := rfl

@[simp] theorem setNode_node (w : World ι ε) (v : ι) (n : Node ι ε) :
    (w.setNode v n).node = Function.update w.node v n := rfl

/-- Raise what `v` stored during `T`. -/
def raiseStored (w : World ι ε) (v : ι) (T n : Nat) : ι → Nat → Nat :=
  Function.update w.stored v (Function.update (w.stored v) T (max (w.stored v T) n))

/-- `v` stands in the next term and votes for itself. -/
def stand (w : World ι ε) (v : ι) : World ι ε :=
  let n := w.node v
  { w.setNode v { n with term := n.term + 1, vote := some v, role := .candidate } with
    candLog := Function.update w.candLog (n.term + 1)
      (Function.update (w.candLog (n.term + 1)) v (some n.log))
    votes := fun voter U c => w.votes voter U c ∨ voter = v ∧ U = n.term + 1 ∧ c = v }

def grant (w : World ι ε) (v c : ι) : World ι ε :=
  { w.setNode v { w.node v with vote := some c } with
    votes := fun voter U c' => w.votes voter U c' ∨ voter = v ∧ U = (w.node v).term ∧ c' = c }

def elect (w : World ι ε) (c : ι) : World ι ε :=
  let n := w.node c
  { w.setNode c { n with role := .leader } with
    leaderLog := Function.update w.leaderLog n.term (some (c, n.log))
    stored := w.raiseStored c n.term n.log.length }

def append (w : World ι ε) (c : ι) (e : ε) : World ι ε :=
  let n := w.node c
  { w.setNode c { n with log := n.log ++ [e] } with
    leaderLog := Function.update w.leaderLog n.term (some (c, n.log ++ [e]))
    stored := w.raiseStored c n.term (n.log.length + 1) }

noncomputable def accept (w : World ι ε) (v : ι) (offered : List ε) (commit : Nat) :
    World ι ε :=
  let n := w.node v
  { w.setNode v { n with
      log := takeOver n.log offered
      role := .follower
      commit := max n.commit commit } with
    stored := w.raiseStored v n.term offered.length }

theorem raiseStored_le (w : World ι ε) (v : ι) (T n : Nat) (u : ι) (T' : Nat) :
    w.stored u T' ≤ w.raiseStored v T n u T' := by
  unfold raiseStored
  by_cases hu : u = v
  · subst hu
    by_cases hT : T' = T
    · subst hT
      simp
    · simp [hT]
  · simp [hu]

/-- Only the pair that is raised changes. -/
theorem raiseStored_of_ne (w : World ι ε) (v : ι) (T n : Nat) {u : ι} {T' : Nat}
    (h : ¬ (u = v ∧ T' = T)) : w.raiseStored v T n u T' = w.stored u T' := by
  unfold raiseStored
  by_cases hu : u = v
  · subst hu
    simp [show T' ≠ T from fun hT => h ⟨rfl, hT⟩]
  · simp [hu]

theorem raiseStored_self (w : World ι ε) (v : ι) (T n : Nat) :
    w.raiseStored v T n v T = max (w.stored v T) n := by
  simp [raiseStored]

/-- Standing changes one recorded log. -/
theorem stand_candLog_of_ne (w : World ι ε) (v : ι) {U : Nat} {c : ι}
    (h : ¬ (U = (w.node v).term + 1 ∧ c = v)) : (w.stand v).candLog U c = w.candLog U c := by
  by_cases hU : U = (w.node v).term + 1
  · subst hU
    simp [stand, show c ≠ v from fun hc => h ⟨rfl, hc⟩]
  · simp [stand, hU]

@[simp] theorem stand_candLog_self (w : World ι ε) (v : ι) :
    (w.stand v).candLog ((w.node v).term + 1) v = some (w.node v).log := by
  simp [stand]

end World

section Protocol

variable {ι ε : Type*} [Fintype ι] [DecidableEq ι] (termOf : ε → Nat)

def lastTerm (log : List ε) : Nat :=
  match log.getLast? with
  | none => 0
  | some e => termOf e

/-- The log `x` is at least as up to date as `y`. -/
def UpToDate (x y : List ε) : Prop :=
  lastTerm termOf y < lastTerm termOf x ∨
    lastTerm termOf y = lastTerm termOf x ∧ y.length ≤ x.length

/-- A prefix of the leader log of term `T` that ends with an entry of `T`. -/
def Slot (w : World ι ε) (T : Nat) (p : List ε) : Prop :=
  ∃ c l, w.leaderLog T = some (c, l) ∧ p <+: l ∧ ∃ e, p.getLast? = some e ∧ termOf e = T

/-- Such a prefix stored by a majority during its term. -/
def Commit (w : World ι ε) (T : Nat) (p : List ε) : Prop :=
  Slot termOf w T p ∧ ∃ Q : Finset ι, Majority Q ∧ ∀ v ∈ Q, p.length ≤ w.stored v T

/-- `p` was committed in a term up to `U`. -/
def CommittedBy (w : World ι ε) (U : Nat) (p : List ε) : Prop :=
  p = [] ∨ ∃ T q, T ≤ U ∧ Commit termOf w T q ∧ p <+: q

open World

/-- One step of the protocol. -/
def Step (w : World ι ε) (event : Event ι ε) (w' : World ι ε) : Prop :=
  match event with
  | .updateTerm v term =>
      (w.node v).role ≠ .down ∧ (w.node v).term < term ∧
        w' = w.setNode v { w.node v with term := term, vote := none, role := .follower }
  | .stand v => (w.node v).role ≠ .down ∧ (w.node v).synced = true ∧ w' = w.stand v
  | .grant v c =>
      (w.node v).role ≠ .down ∧ (w.node v).synced = true ∧
        ((w.node v).vote = none ∨ (w.node v).vote = some c) ∧
        (∃ x, w.candLog (w.node v).term c = some x ∧ UpToDate termOf x (w.node v).log) ∧
        w' = w.grant v c
  | .elect c =>
      (w.node c).role = .candidate ∧
        (∃ Q : Finset ι, Majority Q ∧ ∀ v ∈ Q, w.votes v (w.node c).term c) ∧ w' = w.elect c
  | .append c e =>
      (w.node c).role = .leader ∧ termOf e = (w.node c).term ∧ w' = w.append c e
  | .accept v offered commit =>
      (w.node v).role ≠ .down ∧ (w.node v).role ≠ .leader ∧
        (∃ c l, w.leaderLog (w.node v).term = some (c, l) ∧ offered <+: l) ∧
        commit ≤ offered.length ∧
        CommittedBy termOf w (w.node v).term (offered.take commit) ∧
        w' = w.accept v offered commit
  | .advance c commit =>
      (w.node c).role = .leader ∧ commit ≤ (w.node c).log.length ∧
        Commit termOf w (w.node c).term ((w.node c).log.take commit) ∧
        w' = w.setNode c { w.node c with commit := max (w.node c).commit commit }
  | .sync v c =>
      (w.node v).role ≠ .down ∧ (w.node c).role = .leader ∧
        (w.node c).term = (w.node v).term ∧ (w.node v).log = (w.node c).log ∧
        w' = w.setNode v { w.node v with synced := true }
  | .crash v =>
      w' = w.setNode v { w.node v with role := .down, log := [], synced := false, commit := 0 }
  | .restart v =>
      (w.node v).role = .down ∧ w' = w.setNode v { w.node v with role := .follower }

/-- A new cluster: no terms, no logs, and every node may take part. -/
def initialWorld : World ι ε where
  node _ := ⟨0, none, [], .follower, true, 0⟩
  leaderLog _ := none
  candLog _ _ := none
  votes _ _ _ := False
  stored _ _ := 0

def system : System (World ι ε) (Event ι ε) where
  init w := w = initialWorld
  step := Step termOf

end Protocol

end CppWorkspace.Lib.Raft
