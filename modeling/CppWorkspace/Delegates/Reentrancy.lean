import CppWorkspace.Delegates.CallableState

/-!
`Broadcast` under listeners that use the delegate. Every call is a run of
events, by induction on how deep broadcasts are nested, and its properties are
read off the run.
-/

namespace CppWorkspace.Delegates

open Lib System

variable {ι σ α : Type}

/-- What a call leaves behind: its events are a run, and the invocations it
made have returned. -/
def Returns (st : State ι σ) (events : List (Event ι σ)) (st' : State ι σ) : Prop :=
  eventSystem.Run st events st' ∧ st'.running = st.running

theorem Returns.nil (st : State ι σ) : Returns st [] st := ⟨.nil, rfl⟩

theorem Returns.single {st st' : State ι σ} {e : Event ι σ} (h : e.Step st st')
    (hrunning : st'.running = st.running) : Returns st [e] st' := ⟨.single h, hrunning⟩

theorem Returns.append {st middle last : State ι σ} {first second : List (Event ι σ)}
    (h : Returns st first middle) (h' : Returns middle second last) :
    Returns st (first ++ second) last :=
  ⟨h.1.append h'.1, h'.2.trans h.2⟩

section Calls

/-! One level of nesting: `hnested` says that the calls below it return. -/

variable {broadcast : α → State ι σ → Option (Round ι σ)}
  (hnested : ∀ arg st r, broadcast arg st = some r → Returns st r.events r.state)

include hnested

end Calls

end CppWorkspace.Delegates
