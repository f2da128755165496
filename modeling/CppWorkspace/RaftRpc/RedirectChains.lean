import CppWorkspace.RaftRpc.CounterClient

/-!
Which reply one request ends with when every endpoint behaves in one way for
the whole call. A redirect ends the pass over the endpoints, so only the chain
of redirects from the first endpoint that replies is ever followed.
-/

namespace CppWorkspace.RaftRpc.CounterClient

/-- How an endpoint treats the line for the duration of one call. -/
inductive Behaviour where
  | fails
  | redirects (leader : Endpoint)
  | answers (text : List Char)
deriving Repr, DecidableEq

/-- What the client makes of a reply. -/
def behaviourOf (reply : List Char) : Behaviour :=
  if reply = [] then .fails
  else if "REDIRECT ".toList.isPrefixOf reply then .redirects (reply.drop 9)
  else .answers reply

def Behaviour.replies : Behaviour → Bool
  | .fails => false
  | .redirects _ | .answers _ => true

/-- The direct reply at the end of a chain of at most `redirects` redirects. -/
def follow (behaviour : Endpoint → Behaviour) : Nat → Endpoint → Option (List Char)
  | 0, endpoint =>
      match behaviour endpoint with
      | .answers text => some text
      | .redirects _ | .fails => none
  | redirects + 1, endpoint =>
      match behaviour endpoint with
      | .answers text => some text
      | .redirects leader => follow behaviour redirects leader
      | .fails => none

/-- The first endpoint of the list that replies leads to a direct reply within
the rounds of one request. -/
def LeadsToAnswer (behaviour : Endpoint → Behaviour) (endpoints : List Endpoint) : Prop :=
  ∃ first text, endpoints.find? (fun endpoint => (behaviour endpoint).replies) = some first ∧
    follow behaviour (kMaxRounds - 1) first = some text ∧ text ≠ noReachableNode

/-- The request ends with the direct reply of some endpoint. -/
def ReturnsAnswer (behaviour : Endpoint → Behaviour) (reply : List Char) : Prop :=
  (∃ endpoint, behaviour endpoint = .answers reply) ∧ reply ≠ noReachableNode

theorem tryEndpoints_cons (once : Nat → Endpoint → List Char) (n : Nat) (endpoint : Endpoint)
    (rest : List Endpoint) :
    tryEndpoints once n (endpoint :: rest) =
      match behaviourOf (once n endpoint) with
      | .fails => tryEndpoints once (n + 1) rest
      | .redirects leader => (.redirect leader, n + 1)
      | .answers text => (.reply text, n + 1) := by
  simp only [tryEndpoints, behaviourOf]
  split
  · rfl
  · split <;> rfl

section Fixed

variable {once : Nat → Endpoint → List Char} {behaviour : Endpoint → Behaviour}

/-- A pass ends at the first endpoint that replies. -/
theorem tryEndpoints_find? (hfixed : ∀ n endpoint, behaviourOf (once n endpoint) = behaviour endpoint)
    (n : Nat) {endpoints : List Endpoint} {first : Endpoint}
    (hfirst : endpoints.find? (fun endpoint => (behaviour endpoint).replies) = some first) :
    (tryEndpoints once n endpoints).1 =
      match behaviour first with
      | .fails => .exhausted
      | .redirects leader => .redirect leader
      | .answers text => .reply text := by
  induction endpoints generalizing n with
  | nil => cases hfirst
  | cons endpoint rest ih =>
      rw [tryEndpoints_cons, hfixed]
      cases hb : behaviour endpoint with
      | fails =>
          rw [List.find?_cons, hb] at hfirst
          exact ih (n + 1) hfirst
      | redirects leader =>
          rw [List.find?_cons, hb] at hfirst
          cases hfirst
          rw [hb]
      | answers text =>
          rw [List.find?_cons, hb] at hfirst
          cases hfirst
          rw [hb]

theorem find?_reorder_of_replies {leader : Endpoint} (endpoints : List Endpoint)
    (hleader : (behaviour leader).replies = true) :
    (reorder leader endpoints).find? (fun endpoint => (behaviour endpoint).replies) =
      some leader := by
  rw [reorder, List.find?_cons, hleader]

/-- A hinted leader that fails is stepped over: the pass ends where the one
before it did. -/
theorem find?_reorder_of_fails {leader : Endpoint} (endpoints : List Endpoint)
    (hleader : behaviour leader = .fails) :
    (reorder leader endpoints).find? (fun endpoint => (behaviour endpoint).replies) =
      endpoints.find? (fun endpoint => (behaviour endpoint).replies) := by
  have hfails : (behaviour leader).replies = false := by rw [hleader]; rfl
  rw [reorder, List.find?_cons, hfails]
  induction endpoints with
  | nil => rfl
  | cons endpoint rest ih =>
      by_cases heq : endpoint = leader
      · simpa [heq, hfails] using ih
      · simp only [List.filter_cons, decide_eq_true heq, if_true, List.find?_cons, ih]

theorem requestRounds_succ (hfixed : ∀ n endpoint, behaviourOf (once n endpoint) = behaviour endpoint)
    (rounds n : Nat) {endpoints : List Endpoint} {first : Endpoint}
    (hfirst : endpoints.find? (fun endpoint => (behaviour endpoint).replies) = some first) :
    ∃ made, (requestRounds once (rounds + 1) n endpoints).1 =
      match behaviour first with
      | .fails => (requestRounds once rounds made endpoints).1
      | .redirects leader => (requestRounds once rounds made (reorder leader endpoints)).1
      | .answers text => text := by
  have hpass := tryEndpoints_find? hfixed n hfirst
  cases htry : tryEndpoints once n endpoints with
  | mk pass made =>
      rw [htry] at hpass
      exists made
      rw [requestRounds, htry]
      cases hb : behaviour first <;> rw [hb] at hpass <;> cases hpass <;> rfl

/-- Redirected to an endpoint that fails, every later round is redirected there
again. -/
theorem requestRounds_dead_leader
    (hfixed : ∀ n endpoint, behaviourOf (once n endpoint) = behaviour endpoint) (rounds n : Nat)
    {endpoints : List Endpoint} {first leader : Endpoint}
    (hfirst : endpoints.find? (fun endpoint => (behaviour endpoint).replies) = some first)
    (hredirect : behaviour first = .redirects leader) (hleader : behaviour leader = .fails) :
    (requestRounds once rounds n endpoints).1 = noReachableNode := by
  induction rounds generalizing n endpoints with
  | zero => rfl
  | succ rounds ih =>
      obtain ⟨made, hround⟩ := requestRounds_succ hfixed rounds n hfirst
      rw [hround, hredirect]
      apply ih
      rw [find?_reorder_of_fails endpoints hleader]
      exact hfirst

/-- The rounds that are left follow the chain of redirects from the first
endpoint that replies. -/
theorem requestRounds_follow
    (hfixed : ∀ n endpoint, behaviourOf (once n endpoint) = behaviour endpoint) (rounds n : Nat)
    {endpoints : List Endpoint} {first : Endpoint}
    (hfirst : endpoints.find? (fun endpoint => (behaviour endpoint).replies) = some first) :
    (requestRounds once (rounds + 1) n endpoints).1 =
      (follow behaviour rounds first).getD noReachableNode := by
  have hreplies : (behaviour first).replies = true := by
    simpa using List.find?_some hfirst
  induction rounds generalizing n endpoints first with
  | zero =>
      obtain ⟨made, hround⟩ := requestRounds_succ hfixed 0 n hfirst
      rw [hround, follow]
      cases hb : behaviour first with
      | fails => simp [hb, Behaviour.replies] at hreplies
      | redirects leader => rfl
      | answers text => rfl
  | succ rounds ih =>
      obtain ⟨made, hround⟩ := requestRounds_succ hfixed (rounds + 1) n hfirst
      rw [hround, follow]
      cases hb : behaviour first with
      | fails => simp [hb, Behaviour.replies] at hreplies
      | answers text => rfl
      | redirects leader =>
          cases hleader : behaviour leader with
          | fails =>
              have hdead := find?_reorder_of_fails endpoints hleader
              rw [hfirst] at hdead
              have hend : follow behaviour rounds leader = none := by
                cases rounds <;> rw [follow, hleader]
              simp only [hend, Option.getD_none]
              exact requestRounds_dead_leader hfixed (rounds + 1) made hdead hb hleader
          | redirects next =>
              have hlive : (behaviour leader).replies = true := by rw [hleader]; rfl
              exact ih made (find?_reorder_of_replies endpoints hlive) hlive
          | answers text =>
              have hlive : (behaviour leader).replies = true := by rw [hleader]; rfl
              exact ih made (find?_reorder_of_replies endpoints hlive) hlive

theorem follow_answers {redirects : Nat} {endpoint : Endpoint} {text : List Char}
    (h : follow behaviour redirects endpoint = some text) :
    ∃ node, behaviour node = .answers text := by
  induction redirects generalizing endpoint with
  | zero =>
      rw [follow] at h
      split at h
      · next hb => exact ⟨endpoint, by rw [hb, Option.some.inj h]⟩
      · cases h
      · cases h
  | succ redirects ih =>
      rw [follow] at h
      split at h
      · next hb => exact ⟨endpoint, by rw [hb, Option.some.inj h]⟩
      · exact ih h
      · cases h

end Fixed

/-- With a healthy endpoint in the list, the request returns a direct reply
exactly when the first endpoint that replies leads to one. -/
theorem request_returns_answer_iff {exchange : Nat → Endpoint → Exchange}
    {behaviour : Endpoint → Behaviour} {endpoints : List Endpoint}
    (hfixed : ∀ n endpoint, behaviourOf (requestOnce (exchange n endpoint)) = behaviour endpoint)
    (hhealthy : ∃ endpoint ∈ endpoints, ∃ text, behaviour endpoint = .answers text) :
    ReturnsAnswer behaviour (request (fun n endpoint => requestOnce (exchange n endpoint)) endpoints).1 ↔
      LeadsToAnswer behaviour endpoints := by
  obtain ⟨healthy, hmem, direct, hdirect⟩ := hhealthy
  obtain ⟨first, hfirst⟩ : ∃ first,
      endpoints.find? (fun endpoint => (behaviour endpoint).replies) = some first := by
    rw [← Option.isSome_iff_exists, List.find?_isSome]
    exact ⟨healthy, hmem, by rw [hdirect]; rfl⟩
  have hreply : (request (fun n endpoint => requestOnce (exchange n endpoint)) endpoints).1 =
      (follow behaviour (kMaxRounds - 1) first).getD noReachableNode :=
    requestRounds_follow hfixed (kMaxRounds - 1) 0 hfirst
  rw [hreply]
  constructor
  · rintro ⟨-, hne⟩
    cases hend : follow behaviour (kMaxRounds - 1) first with
    | none =>
        rw [hend] at hne
        exact absurd rfl hne
    | some text =>
        rw [hend] at hne
        exact ⟨first, text, hfirst, hend, hne⟩
  · rintro ⟨first', text, hfirst', hend, hne⟩
    obtain rfl : first = first' := Option.some.inj (hfirst.symm.trans hfirst')
    rw [hend]
    exact ⟨follow_answers hend, hne⟩

/-- Two nodes: the first still names a leader that is down. -/
def staleHint (endpoint : Endpoint) : Exchange :=
  if endpoint = "a:1".toList then .receives ["REDIRECT c:1\n".toList]
  else if endpoint = "b:1".toList then .receives ["OK 1\n".toList]
  else .connectFails

/-- Asked in the other order, the healthy node answers at once. -/
theorem request_returns_answer_healthy_first :
    ReturnsAnswer (fun endpoint => behaviourOf (requestOnce (staleHint endpoint)))
      (request (fun _ endpoint => requestOnce (staleHint endpoint)) ["b:1".toList, "a:1".toList]).1 := by
  apply (@request_returns_answer_iff (fun _ => staleHint) _ _ (fun _ _ => rfl)
    ⟨"b:1".toList, by simp, "OK 1".toList, by decide⟩).mpr
  exact ⟨"b:1".toList, "OK 1".toList, by decide, by decide, by decide⟩

/-- The healthy node is never asked: every round ends with the stale hint. -/
theorem stale_hint_hides_healthy_node :
    ¬ ∀ (exchange : Nat → Endpoint → Exchange) (behaviour : Endpoint → Behaviour)
      (endpoints : List Endpoint),
      (∀ n endpoint, behaviourOf (requestOnce (exchange n endpoint)) = behaviour endpoint) →
      (∃ endpoint ∈ endpoints, ∃ text, behaviour endpoint = .answers text) →
      ReturnsAnswer behaviour
        (request (fun n endpoint => requestOnce (exchange n endpoint)) endpoints).1 := by
  intro h
  have hreturns := h (fun _ => staleHint)
    (fun endpoint => behaviourOf (requestOnce (staleHint endpoint)))
    ["a:1".toList, "b:1".toList] (fun _ _ => rfl) ⟨"b:1".toList, by simp, "OK 1".toList, by decide⟩
  have hreply : (request (fun _ endpoint => requestOnce (staleHint endpoint))
      ["a:1".toList, "b:1".toList]).1 = noReachableNode := by decide
  exact hreturns.2 hreply

end CppWorkspace.RaftRpc.CounterClient
