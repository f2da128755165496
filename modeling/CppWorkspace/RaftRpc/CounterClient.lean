import Mathlib

/-!
`counter_client.cpp`: one request tries the endpoints in turn, follows
redirects and gives up after `kMaxRounds` rounds. What the network does with
the `n`-th exchange of the call is a parameter; the back-off between rounds
only takes time.
-/

namespace CppWorkspace.RaftRpc.CounterClient

abbrev Endpoint := List Char

/-- One connection: it is not made, the line is not sent, or these chunks
arrive before it ends or times out. -/
inductive Exchange where
  | connectFails
  | sendFails
  | receives (chunks : List (List Char))
deriving Repr, DecidableEq

def firstLine (text : List Char) : List Char := text.takeWhile (· ≠ '\n')

/-- The receive loop of `request_once`: read until a newline has arrived. -/
def recvLoop (reply : List Char) : List (List Char) → List Char
  | [] => if '\n' ∈ reply then firstLine reply else []
  | chunk :: rest =>
      if '\n' ∈ reply then firstLine reply else recvLoop (reply ++ chunk) rest

/-- `request_once`; an empty reply means a transport failure. -/
def requestOnce : Exchange → List Char
  | .connectFails | .sendFails => []
  | .receives chunks => recvLoop [] chunks

def kMaxRounds : Nat := 8

/-- How one pass over the endpoints ends. -/
inductive Pass where
  | exhausted
  | redirect (leader : Endpoint)
  | reply (text : List Char)
deriving Repr, DecidableEq

/-- One pass: the first non-empty reply decides. `n` counts the exchanges of
the call. -/
def tryEndpoints (once : Nat → Endpoint → List Char) (n : Nat) : List Endpoint → Pass × Nat
  | [] => (.exhausted, n)
  | endpoint :: rest =>
      let reply := once n endpoint
      if reply = [] then tryEndpoints once (n + 1) rest
      else if "REDIRECT ".toList.isPrefixOf reply then (.redirect (reply.drop 9), n + 1)
      else (.reply reply, n + 1)

/-- Put the hinted leader first. -/
def reorder (leader : Endpoint) (endpoints : List Endpoint) : List Endpoint :=
  leader :: endpoints.filter (· ≠ leader)

def noReachableNode : List Char := "ERR no reachable node after 8 rounds".toList

/-- The rounds that are left. -/
def requestRounds (once : Nat → Endpoint → List Char) :
    Nat → Nat → List Endpoint → List Char × Nat
  | 0, n, _ => (noReachableNode, n)
  | rounds + 1, n, endpoints =>
      match tryEndpoints once n endpoints with
      | (.reply text, n) => (text, n)
      | (.redirect leader, n) => requestRounds once rounds n (reorder leader endpoints)
      | (.exhausted, n) => requestRounds once rounds n endpoints

/-- `request`: the reply and the number of exchanges made. -/
def request (once : Nat → Endpoint → List Char) (endpoints : List Endpoint) : List Char × Nat :=
  requestRounds once kMaxRounds 0 endpoints

theorem firstLine_append {text : List Char} (rest : List Char) (h : '\n' ∈ text) :
    firstLine (text ++ rest) = firstLine text := by
  induction text with
  | nil => simp at h
  | cons c text ih =>
      by_cases hc : c = '\n'
      · simp [firstLine, hc]
      · have hrest : '\n' ∈ text := by simpa [Ne.symm hc] using h
        simpa [firstLine, hc] using ih hrest

/-- The reply does not depend on how the stream was cut into chunks. -/
theorem recvLoop_eq (reply : List Char) (chunks : List (List Char)) :
    recvLoop reply chunks =
      if '\n' ∈ reply ++ chunks.flatten then firstLine (reply ++ chunks.flatten) else [] := by
  induction chunks generalizing reply with
  | nil => simp [recvLoop]
  | cons chunk rest ih =>
      rw [recvLoop]
      split
      · next h =>
        rw [if_pos (List.mem_append_left _ h), firstLine_append _ h]
      · rw [ih, List.flatten_cons, List.append_assoc]

/-- A pass that ends with a reply took it from its last exchange. -/
theorem tryEndpoints_reply {once : Nat → Endpoint → List Char} {n made : Nat}
    {endpoints : List Endpoint} {text : List Char}
    (h : tryEndpoints once n endpoints = (.reply text, made)) :
    ∃ endpoint, text = once (made - 1) endpoint ∧ n < made := by
  induction endpoints generalizing n with
  | nil => cases h
  | cons endpoint rest ih =>
      simp only [tryEndpoints] at h
      split at h
      · obtain ⟨last, htext, hlt⟩ := ih h
        exact ⟨last, htext, by omega⟩
      · split at h
        · cases h
        · cases h
          exact ⟨endpoint, rfl, by omega⟩

/-- A request ends with the reply of its last exchange, unless every round
was spent. -/
theorem requestRounds_reply {once : Nat → Endpoint → List Char} {rounds n made : Nat}
    {endpoints : List Endpoint} {text : List Char}
    (h : requestRounds once rounds n endpoints = (text, made)) :
    text = noReachableNode ∨ ∃ endpoint, text = once (made - 1) endpoint ∧ 0 < made := by
  induction rounds generalizing n endpoints with
  | zero =>
      cases h
      exact Or.inl rfl
  | succ rounds ih =>
      rw [requestRounds] at h
      split at h
      · next hpass =>
        cases h
        obtain ⟨endpoint, htext, hlt⟩ := tryEndpoints_reply hpass
        exact Or.inr ⟨endpoint, htext, by omega⟩
      · exact ih h
      · exact ih h

end CppWorkspace.RaftRpc.CounterClient
