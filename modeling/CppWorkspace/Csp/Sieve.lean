import CppWorkspace.Lib.Channel
import CppWorkspace.Lib.Transition

/-!
`csp_sieve.cpp`: `generate` sends the numbers from two to the limit, each
filter drops the multiples of its prime, and `sieve` reads a prime from the end
of the chain and spawns the filter for it there. Channel `i` is the output of
stage `i`, which is `generate` for zero and filter `i - 1` else. The channels
have no room: a value passes when its sender and its receiver meet. Only the
stage itself closes its output, after its last send.
-/

namespace CppWorkspace.Csp.CspSieve

open Lib

inductive GeneratePc where
  /-- At the head of the loop with the next value. -/
  | sending (value : ℕ)
  | returned
deriving DecidableEq, Repr

inductive FilterPc where
  | receiving
  | sending (value : ℕ)
  | returned
deriving DecidableEq, Repr

structure Filter where
  prime : ℕ
  pc : FilterPc
deriving DecidableEq, Repr

inductive SievePc where
  | receiving
  | returned
deriving DecidableEq, Repr

structure State where
  generate : GeneratePc := .sending 2
  /-- The filters in the order they were spawned; filter `i` reads channel `i`. -/
  filters : List Filter := []
  sieve : SievePc := .receiving
  channel : ℕ → Channel ℕ := fun _ => .make 0
  /-- The primes that `sieve` has received and printed. -/
  received : List ℕ := []

inductive Act where
  | pass (stage value : ℕ)
  | passToSieve (value : ℕ)
  | generateCloses
  | filterCloses (i : ℕ)
  | sieveEnds
deriving DecidableEq, Repr

/-- The stage is at `async_send` with this value. -/
def State.Sends (limit : ℤ) (s : State) (value : ℕ) : ℕ → Prop
  | 0 => s.generate = .sending value ∧ (value : ℤ) ≤ limit
  | i + 1 => ∃ prime, s.filters[i]? = some ⟨prime, .sending value⟩

/-- The stage goes on after its send. -/
def State.sent (s : State) (value : ℕ) : ℕ → State
  | 0 => { s with generate := .sending (value + 1) }
  | i + 1 => { s with filters := s.filters.modify i (fun f => { f with pc := .receiving }) }

/-- The filter with a value it has received. -/
def Filter.receive (f : Filter) (value : ℕ) : Filter :=
  { f with pc := if value % f.prime ≠ 0 then .sending value else .receiving }

def Step (limit : ℤ) (s : State) : Act → State → Prop
  | .pass stage value, s' => s.Sends limit value stage ∧ (s.channel stage).Meets ∧
      (∃ prime, s.filters[stage]? = some ⟨prime, .receiving⟩) ∧
      s' = { s.sent value stage with
        filters := (s.sent value stage).filters.modify stage (fun f => f.receive value) }
  | .passToSieve value, s' => s.Sends limit value s.filters.length ∧
      (s.channel s.filters.length).Meets ∧ s.sieve = .receiving ∧
      s' = { s.sent value s.filters.length with
        filters := (s.sent value s.filters.length).filters ++ [⟨value, .receiving⟩]
        channel := Function.update s.channel (s.filters.length + 1) (.make 0)
        received := s.received ++ [value] }
  | .generateCloses, s' => ∃ value, s.generate = .sending value ∧ limit < (value : ℤ) ∧
      s' = { s with
        generate := .returned
        channel := Function.update s.channel 0 (s.channel 0).close }
  | .filterCloses i, s' => ∃ prime, s.filters[i]? = some ⟨prime, .receiving⟩ ∧
      (s.channel i).Exhausted ∧
      s' = { s with
        filters := s.filters.modify i (fun f => { f with pc := .returned })
        channel := Function.update s.channel (i + 1) (s.channel (i + 1)).close }
  | .sieveEnds, s' => s.sieve = .receiving ∧ (s.channel s.filters.length).Exhausted ∧
      s' = { s with sieve := .returned }

def sieveSystem (limit : ℤ) : System State Act where
  init s := s = {}
  step := Step limit

/-- Every coroutine has returned. -/
def State.Finished (s : State) : Prop :=
  s.sieve = .returned ∧ s.generate = .returned ∧ ∀ f ∈ s.filters, f.pc = .returned

end CppWorkspace.Csp.CspSieve
