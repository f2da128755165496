import CppWorkspace.Lib.Channel
import CppWorkspace.Lib.Commuting

/-!
Networks of sequential processes that communicate over bounded channels. Each
process is a state and a function that gives its next action; a channel without
room is a rendezvous. When every channel has one process that writes it and one
that reads it, the steps of different processes can be taken in either order, so
that the outcome does not depend on the schedule.
-/

namespace CppWorkspace.Lib

universe u

namespace Channel

variable {α : Type*} {c first second : Channel α} {v w : α}

theorem eq_of_fields (hcapacity : first.capacity = second.capacity)
    (hbuffer : first.buffer = second.buffer) (hclosed : first.closed = second.closed) :
    first = second := by
  cases first
  cases second
  congr

theorem make_meets (capacity : ℕ) : (make capacity : Channel α).Meets := ⟨rfl, rfl⟩

theorem take_eq_none : c.take = none ↔ c.buffer = [] := by
  unfold take
  split
  · next hnil => exact iff_of_true rfl hnil
  · next hcons => simp [hcons]

/-- The oldest value can be taken whether or not another has been put. -/
theorem put_take (hput : c.put v = some first) (htake : c.take = some (w, second)) :
    ∃ both, second.put v = some both ∧ first.take = some (w, both) := by
  obtain ⟨hopen, hroom, hfirst, hstill, hsame⟩ := put_spec hput
  obtain ⟨hbuffer, hclosed, hcapacity⟩ := take_spec htake
  have hspace : second.buffer.length < second.capacity := by
    rw [hbuffer, List.length_cons] at hroom
    omega
  obtain ⟨both, hboth⟩ := put_of_room (hclosed.trans hopen) hspace v
  obtain ⟨-, -, hvalues, hopen', hcapacity'⟩ := put_spec hboth
  obtain ⟨x, after, hafter⟩ := take_of_ne_nil (c := first) (by simp [hfirst])
  obtain ⟨hfront, hclosed', hcapacity''⟩ := take_spec hafter
  rw [hfirst, hbuffer, List.cons_append] at hfront
  obtain ⟨hx, hrest⟩ := List.cons.inj hfront
  refine ⟨both, hboth, ?_⟩
  rw [hafter, ← hx]
  have hsame' : after = both := by
    apply eq_of_fields
    · rw [hcapacity'', hsame, hcapacity', hcapacity]
    · rw [← hrest, hvalues]
    · rw [hclosed', hstill, hopen']
  rw [hsame']

/-- A value can be taken whether or not the channel has been closed. -/
theorem take_close (htake : c.take = some (w, second)) :
    c.close.take = some (w, second.close) := by
  obtain ⟨hbuffer, hclosed, hcapacity⟩ := take_spec htake
  obtain ⟨x, after, hafter⟩ := take_of_ne_nil (c := c.close) (by simp [hbuffer])
  obtain ⟨hfront, hclosed', hcapacity'⟩ := take_spec hafter
  rw [close_buffer, hbuffer] at hfront
  obtain ⟨hx, hrest⟩ := List.cons.inj hfront
  rw [hafter, ← hx]
  have hsame : after = second.close := by
    apply eq_of_fields
    · rw [hcapacity', close_capacity, close_capacity, hcapacity]
    · rw [close_buffer, hrest]
    · rw [hclosed', close_closed, close_closed]
  rw [hsame]

/-- What has been put into an empty channel comes out at once. -/
theorem put_take_of_empty (hempty : c.buffer = []) (hput : c.put v = some first) :
    first.take = some (v, c) := by
  obtain ⟨hopen, -, hbuffer, hstill, hcapacity⟩ := put_spec hput
  obtain ⟨x, after, hafter⟩ := take_of_ne_nil (c := first) (by simp [hbuffer])
  obtain ⟨hfront, hclosed', hcapacity'⟩ := take_spec hafter
  rw [hbuffer, hempty, List.nil_append] at hfront
  obtain ⟨hx, hrest⟩ := List.cons.inj hfront
  rw [hafter, ← hx]
  have hsame : after = c := by
    apply eq_of_fields
    · rw [hcapacity', hcapacity]
    · rw [← hrest, hempty]
    · rw [hclosed', hstill, hopen]
  rw [hsame]

end Channel

/-- What a process does with a channel of `α` and where it goes on: a send may find
the channel closed, a receive may find it closed and empty. -/
inductive Use (α σ : Type u) where
  | send (value : α) (sent refused : σ)
  | receive (got : α → σ) (ended : σ)
  | close (next : σ)

namespace Use

variable {α σ : Type u}

/-- The operation, `none` where the process has to wait. -/
def run : Use α σ → Channel α → Option (σ × Channel α)
  | .send value sent refused, c =>
      if c.closed then some (refused, c) else (c.put value).map fun c => (sent, c)
  | .receive got ended, c =>
      match c.take with
      | some (value, c) => some (got value, c)
      | none => if c.closed then some (ended, c) else none
  | .close next, c => some (next, c.close)

/-- The process is at the end of the channel at which values enter. -/
def Writes : Use α σ → Prop
  | .send _ _ _ | .close _ => True
  | .receive _ _ => False

section Cases

variable {c c' : Channel α} {value : α} {sent refused ended next : σ} {got : α → σ}

theorem run_send (h : (send value sent refused).run c = some (next, c')) :
    (c.closed = true ∧ next = refused ∧ c' = c) ∨
      (c.closed = false ∧ next = sent ∧ c.put value = some c') := by
  cases hclosed : c.closed with
  | true =>
      rw [run, if_pos hclosed] at h
      cases h
      exact Or.inl ⟨rfl, rfl, rfl⟩
  | false =>
      rw [run, if_neg (by simp [hclosed])] at h
      obtain ⟨after, hput, heq⟩ := Option.map_eq_some_iff.mp h
      cases heq
      exact Or.inr ⟨rfl, rfl, hput⟩

theorem run_receive (h : (receive got ended).run c = some (next, c')) :
    (∃ value, c.take = some (value, c') ∧ next = got value) ∨
      (c.take = none ∧ c.closed = true ∧ next = ended ∧ c' = c) := by
  cases htake : c.take with
  | some taken =>
      obtain ⟨value, after⟩ := taken
      simp only [run, htake] at h
      cases h
      exact Or.inl ⟨value, rfl, rfl⟩
  | none =>
      simp only [run, htake] at h
      obtain ⟨hclosed, heq⟩ := Option.ite_none_right_eq_some.mp h
      cases heq
      exact Or.inr ⟨rfl, hclosed, rfl, rfl⟩

theorem run_send_closed (hclosed : c.closed = true) :
    (send value sent refused).run c = some (refused, c) := if_pos hclosed

theorem run_send_put (hput : c.put value = some c') :
    (send value sent refused).run c = some (sent, c') := by
  rw [run, if_neg (by simp [(Channel.put_spec hput).1]), hput]
  rfl

theorem run_receive_take (htake : c.take = some (value, c')) :
    (receive got ended).run c = some (got value, c') := by
  simp only [run, htake]

theorem run_receive_ended (hclosed : c.closed = true) (htake : c.take = none) :
    (receive got ended).run c = some (ended, c) := by
  simp only [run, htake, hclosed, if_true]

/-- A receiver of an open channel without a value waits. -/
theorem run_receive_waits (hmeets : c.Meets) : (receive got ended).run c = none := by
  have htake := Channel.take_eq_none.mpr hmeets.2
  have hopen := hmeets.1
  simp only [run, htake, hopen, Bool.false_eq_true, if_false]

end Cases

/-- What happens at one end of a channel does not keep the other end from what it can
do. -/
theorem run_comm {τ : Type u} {c first second : Channel α} {write : Use α σ} {read : Use α τ}
    {next : σ} {next' : τ} (hwrites : write.Writes) (hreads : ¬ read.Writes)
    (hwrite : write.run c = some (next, first)) (hread : read.run c = some (next', second)) :
    ∃ both, write.run second = some (next, both) ∧ read.run first = some (next', both) := by
  cases read with
  | send _ _ _ => exact absurd trivial hreads
  | close _ => exact absurd trivial hreads
  | receive got ended =>
      cases write with
      | receive _ _ => exact absurd hwrites id
      | send value sent refused =>
          rcases run_send hwrite with ⟨hclosed, rfl, rfl⟩ | ⟨hopen, rfl, hput⟩
          · have hclosed' : second.closed = true := by
              rcases run_receive hread with ⟨w, htake, -⟩ | ⟨-, -, -, rfl⟩
              · rw [(Channel.take_spec htake).2.1, hclosed]
              · exact hclosed
            exact ⟨second, run_send_closed hclosed', hread⟩
          · rcases run_receive hread with ⟨w, htake, rfl⟩ | ⟨-, hclosed, -⟩
            · obtain ⟨both, hput', htake'⟩ := Channel.put_take hput htake
              exact ⟨both, run_send_put hput', run_receive_take htake'⟩
            · cases hopen.symm.trans hclosed
      | close last =>
          cases hwrite
          rcases run_receive hread with ⟨w, htake, rfl⟩ | ⟨htake, -, rfl, rfl⟩
          · exact ⟨second.close, rfl, run_receive_take (Channel.take_close htake)⟩
          · refine ⟨second.close, rfl, run_receive_ended rfl ?_⟩
            rw [Channel.take_eq_none] at htake ⊢
            exact htake

end Use

/-- The next action of a process. -/
inductive Action {χ : Type*} (ν : χ → Type u) (σ : Type u) where
  | use (c : χ) (what : Use (ν c) σ)
  /-- A computation, a line that is printed, a timer that expires. -/
  | go (next : σ)
  | stop

inductive Label (π : Type*) where
  | act (p : π)
  /-- `sender` and `receiver` meet at a channel without room. -/
  | hand (sender receiver : π)
deriving DecidableEq, Repr

/-- Channels and processes of a network. -/
structure NetState {π χ : Type*} (ν : χ → Type u) (σ : π → Type u) where
  channel : (c : χ) → Channel (ν c)
  process : (p : π) → σ p

namespace NetState

variable {π χ : Type*} {ν : χ → Type u} {σ : π → Type u}

section Process

variable [DecidableEq π] (s : NetState ν σ)

def setProcess (p : π) (next : σ p) : NetState ν σ :=
  { s with process := Function.update s.process p next }

@[simp] theorem setProcess_channel (p : π) (next : σ p) :
    (s.setProcess p next).channel = s.channel := rfl

@[simp] theorem setProcess_self (p : π) (next : σ p) :
    (s.setProcess p next).process p = next := Function.update_self ..

theorem setProcess_of_ne {p q : π} (hne : q ≠ p) (next : σ p) :
    (s.setProcess p next).process q = s.process q := Function.update_of_ne hne ..

theorem setProcess_comm {p q : π} (hne : p ≠ q) (next : σ p) (next' : σ q) :
    (s.setProcess p next).setProcess q next' = (s.setProcess q next').setProcess p next := by
  simp only [setProcess, Function.update_comm hne]

@[simp] theorem setProcess_idem (p : π) (next next' : σ p) :
    (s.setProcess p next).setProcess p next' = s.setProcess p next' := by
  simp only [setProcess, Function.update_idem]

end Process

section Channel

variable [DecidableEq χ] (s : NetState ν σ)

def setChannel (c : χ) (next : Channel (ν c)) : NetState ν σ :=
  { s with channel := Function.update s.channel c next }

@[simp] theorem setChannel_process (c : χ) (next : Channel (ν c)) :
    (s.setChannel c next).process = s.process := rfl

@[simp] theorem setChannel_self (c : χ) (next : Channel (ν c)) :
    (s.setChannel c next).channel c = next := Function.update_self ..

theorem setChannel_of_ne {c c' : χ} (hne : c' ≠ c) (next : Channel (ν c)) :
    (s.setChannel c next).channel c' = s.channel c' := Function.update_of_ne hne ..

theorem setChannel_comm {c c' : χ} (hne : c ≠ c') (next : Channel (ν c))
    (next' : Channel (ν c')) :
    (s.setChannel c next).setChannel c' next' = (s.setChannel c' next').setChannel c next := by
  simp only [setChannel, Function.update_comm hne]

@[simp] theorem setChannel_idem (c : χ) (next next' : Channel (ν c)) :
    (s.setChannel c next).setChannel c next' = s.setChannel c next' := by
  simp only [setChannel, Function.update_idem]

@[simp] theorem setChannel_eq_self (c : χ) : s.setChannel c (s.channel c) = s := by
  simp only [setChannel, Function.update_eq_self]

end Channel

theorem setProcess_setChannel [DecidableEq π] [DecidableEq χ] (s : NetState ν σ) (p : π)
    (next : σ p) (c : χ) (after : Channel (ν c)) :
    (s.setProcess p next).setChannel c after = (s.setChannel c after).setProcess p next := rfl

section Step

variable [DecidableEq π] [DecidableEq χ] (program : (p : π) → σ p → Action ν (σ p))

/-- One step: a process does its next action, or two meet. -/
def step (s : NetState ν σ) : Label π → Option (NetState ν σ)
  | .act p =>
      match program p (s.process p) with
      | .use c what =>
          (what.run (s.channel c)).map fun (next, c') => (s.setChannel c c').setProcess p next
      | .go next => some (s.setProcess p next)
      | .stop => none
  | .hand p q =>
      match program p (s.process p), program q (s.process q) with
      | .use c (.send value sent _), .use c' (.receive got _) =>
          if h : c = c' then
            if (s.channel c).capacity = 0 ∧ (s.channel c).closed = false then
              some ((s.setProcess p sent).setProcess q (got (h ▸ value)))
            else none
          else none
      | _, _ => none

/-- The steps, one constructor for each kind. -/
inductive Moves (s : NetState ν σ) : Label π → NetState ν σ → Prop
  | uses {p : π} {c : χ} {what : Use (ν c) (σ p)} {next : σ p} {after : Channel (ν c)} :
      program p (s.process p) = .use c what → what.run (s.channel c) = some (next, after) →
      Moves s (.act p) ((s.setChannel c after).setProcess p next)
  | goes {p : π} {next : σ p} : program p (s.process p) = .go next →
      Moves s (.act p) (s.setProcess p next)
  | hands {p q : π} {c : χ} {value : ν c} {sent refused : σ p} {got : ν c → σ q} {ended : σ q} :
      program p (s.process p) = .use c (.send value sent refused) →
      program q (s.process q) = .use c (.receive got ended) →
      (s.channel c).capacity = 0 → (s.channel c).closed = false →
      Moves s (.hand p q) ((s.setProcess p sent).setProcess q (got value))

variable {program}

theorem moves_of_step {s s' : NetState ν σ} {label : Label π}
    (h : s.step program label = some s') : s.Moves program label s' := by
  cases label with
  | act p =>
      unfold step at h
      dsimp only at h
      split at h
      · next c what hprogram =>
        obtain ⟨⟨next, after⟩, hrun, rfl⟩ := Option.map_eq_some_iff.mp h
        exact .uses hprogram hrun
      · next next hprogram =>
        cases h
        exact .goes hprogram
      · cases h
  | hand p q =>
      unfold step at h
      dsimp only at h
      split at h
      · next c value sent refused c' got ended hsend hreceive =>
        obtain ⟨rfl, hrest⟩ := Option.dite_none_right_eq_some.mp h
        obtain ⟨⟨hcapacity, hopen⟩, heq⟩ := Option.ite_none_right_eq_some.mp hrest
        cases heq
        exact .hands hsend hreceive hcapacity hopen
      · cases h

theorem step_of_moves {s s' : NetState ν σ} {label : Label π} (h : s.Moves program label s') :
    s.step program label = some s' := by
  cases h with
  | uses hprogram hrun => simp only [step, hprogram, hrun, Option.map_some]
  | goes hprogram => simp only [step, hprogram]
  | hands hsend hreceive hcapacity hopen =>
      simp only [step, hsend, hreceive, hcapacity, hopen, and_self, if_true, dif_pos]

end Step

end NetState

section Network

variable {π χ : Type*} [DecidableEq π] [DecidableEq χ] {ν : χ → Type u} {σ : π → Type u}
  (program : (p : π) → σ p → Action ν (σ p))

/-- The network of these processes. -/
def network (start : NetState ν σ) : System (NetState ν σ) (Label π) where
  init s := s = start
  step s label s' := s.step program label = some s'

/-- Every channel has one process that may write it and one that may read it. -/
structure Wired (writer reader : χ → π) : Prop where
  writes : ∀ {p : π} {locals : σ p} {c : χ} {what : Use (ν c) (σ p)},
    program p locals = .use c what → what.Writes → p = writer c
  reads : ∀ {p : π} {locals : σ p} {c : χ} {what : Use (ν c) (σ p)},
    program p locals = .use c what → ¬ what.Writes → p = reader c

variable {program} {writer reader : χ → π} {s first second : NetState ν σ}

open NetState

omit [DecidableEq π] [DecidableEq χ] in
/-- Two processes at one channel are at its two ends. -/
theorem Wired.ends (hwired : Wired program writer reader) {p q : π} (hne : p ≠ q) {locals : σ p}
    {locals' : σ q} {c : χ} {what : Use (ν c) (σ p)} {what' : Use (ν c) (σ q)}
    (h : program p locals = .use c what) (h' : program q locals' = .use c what') :
    what.Writes ↔ ¬ what'.Writes := by
  constructor
  · intro hwrites hwrites'
    exact hne ((hwired.writes h hwrites).trans (hwired.writes h' hwrites').symm)
  · intro hreads
    by_contra hreads'
    exact hne ((hwired.reads h hreads').trans (hwired.reads h' hreads).symm)

/-- Two processes use channels. -/
theorem Wired.uses_uses (hwired : Wired program writer reader) {p q : π} (hne : p ≠ q) {c c' : χ}
    {what : Use (ν c) (σ p)} {what' : Use (ν c') (σ q)} {next : σ p} {next' : σ q}
    {after : Channel (ν c)} {after' : Channel (ν c')}
    (hp : program p (s.process p) = .use c what)
    (hrun : what.run (s.channel c) = some (next, after))
    (hq : program q (s.process q) = .use c' what')
    (hrun' : what'.run (s.channel c') = some (next', after')) :
    ∃ last, Moves program ((s.setChannel c after).setProcess p next) (.act q) last ∧
      Moves program ((s.setChannel c' after').setProcess q next') (.act p) last := by
  have hq' : program q (((s.setChannel c after).setProcess p next).process q) = .use c' what' := by
    rw [setProcess_of_ne _ hne.symm]
    exact hq
  have hp' : program p (((s.setChannel c' after').setProcess q next').process p) =
      .use c what := by
    rw [setProcess_of_ne _ hne]
    exact hp
  by_cases hc : c = c'
  · subst hc
    have hboth : ∃ both, what.run after' = some (next, both) ∧
        what'.run after = some (next', both) := by
      by_cases hwrites : what.Writes
      · exact Use.run_comm hwrites ((hwired.ends hne hp hq).mp hwrites) hrun hrun'
      · have hwrites' := (hwired.ends hne.symm hq hp).mpr hwrites
        obtain ⟨both, hfirst, hsecond⟩ := Use.run_comm hwrites' hwrites hrun' hrun
        exact ⟨both, hsecond, hfirst⟩
    obtain ⟨both, hfirst, hsecond⟩ := hboth
    refine ⟨((s.setChannel c both).setProcess p next).setProcess q next', ?_, ?_⟩
    · have hrun₂ : what'.run (((s.setChannel c after).setProcess p next).channel c) =
          some (next', both) := by simpa using hsecond
      have hmove := Moves.uses hq' hrun₂
      rwa [setProcess_setChannel, setChannel_idem] at hmove
    · have hrun₂ : what.run (((s.setChannel c after').setProcess q next').channel c) =
          some (next, both) := by simpa using hfirst
      have hmove := Moves.uses hp' hrun₂
      rwa [setProcess_setChannel, setChannel_idem, setProcess_comm _ hne.symm] at hmove
  · have hrunq : what'.run (((s.setChannel c after).setProcess p next).channel c') =
        some (next', after') := by
      rw [setProcess_channel, setChannel_of_ne _ (Ne.symm hc)]
      exact hrun'
    have hrunp : what.run (((s.setChannel c' after').setProcess q next').channel c) =
        some (next, after) := by
      rw [setProcess_channel, setChannel_of_ne _ hc]
      exact hrun
    refine ⟨_, Moves.uses hq' hrunq, ?_⟩
    have hmove := Moves.uses hp' hrunp
    rw [setProcess_setChannel, setChannel_comm _ (Ne.symm hc), setProcess_comm _ hne.symm] at hmove
    exact hmove

/-- A process that does not communicate and another one. -/
theorem goes_acts {p q : π} (hne : p ≠ q) {next : σ p}
    (hp : program p (s.process p) = .go next) (hq : s.Moves program (.act q) second) :
    ∃ last, Moves program (s.setProcess p next) (.act q) last ∧
      Moves program second (.act p) last := by
  cases hq with
  | @uses _ c what next' after hprogram hrun =>
      have hq' : program q ((s.setProcess p next).process q) = .use c what := by
        rw [setProcess_of_ne _ hne.symm]
        exact hprogram
      have hp' : program p (((s.setChannel c after).setProcess q next').process p) =
          .go next := by
        rw [setProcess_of_ne _ hne]
        exact hp
      refine ⟨_, Moves.uses hq' hrun, ?_⟩
      have hmove := Moves.goes hp'
      rw [setProcess_comm _ hne.symm] at hmove
      exact hmove
  | @goes _ next' hprogram =>
      have hq' : program q ((s.setProcess p next).process q) = .go next' := by
        rw [setProcess_of_ne _ hne.symm]
        exact hprogram
      have hp' : program p ((s.setProcess q next').process p) = .go next := by
        rw [setProcess_of_ne _ hne]
        exact hp
      refine ⟨_, Moves.goes hq', ?_⟩
      have hmove := Moves.goes hp'
      rwa [setProcess_comm _ hne.symm] at hmove

/-- A process that waits at a channel without room, which is open, has no step of its
own. -/
theorem not_act_of_meets {p : π} {c : χ} {what : Use (ν c) (σ p)}
    (hp : program p (s.process p) = .use c what) (hcapacity : (s.channel c).capacity = 0)
    (hopen : (s.channel c).closed = false) (hclose : ∀ next, what ≠ .close next) :
    ¬ s.Moves program (.act p) first := by
  have hempty : (s.channel c).buffer = [] := by
    have hfits := (s.channel c).fits
    rw [hcapacity] at hfits
    exact List.eq_nil_of_length_eq_zero (Nat.le_zero.mp hfits)
  intro hmove
  cases hmove with
  | goes hprogram => cases hp.symm.trans hprogram
  | uses hprogram hrun =>
      cases hp.symm.trans hprogram
      cases what with
      | close next => exact hclose next rfl
      | send value sent refused =>
          rcases Use.run_send hrun with ⟨hclosed, -⟩ | ⟨-, -, hput⟩
          · cases hopen.symm.trans hclosed
          · have hroom := (Channel.put_spec hput).2.1
            omega
      | receive got ended =>
          rcases Use.run_receive hrun with ⟨value, htake, -⟩ | ⟨-, hclosed, -⟩
          · cases hempty.symm.trans (Channel.take_spec htake).1
          · cases hopen.symm.trans hclosed

/-- Two processes that meet and a third one. -/
theorem Wired.acts_hands (hwired : Wired program writer reader) {r p q : π}
    (hr : s.Moves program (.act r) first) (hhand : s.Moves program (.hand p q) second) :
    ∃ last, Moves program first (.hand p q) last ∧ Moves program second (.act r) last := by
  cases hhand with
  | @hands _ _ c value sent refused got ended hsend hreceive hcapacity hopen =>
      have hrp : r ≠ p := by
        rintro rfl
        exact not_act_of_meets hsend hcapacity hopen (by simp) hr
      have hrq : r ≠ q := by
        rintro rfl
        exact not_act_of_meets hreceive hcapacity hopen (by simp) hr
      cases hr with
      | @uses _ c' what next after hprogram hrun =>
          have hc : c ≠ c' := by
            rintro rfl
            by_cases hwrites : what.Writes
            · exact (hwired.ends hrp hprogram hsend).mp hwrites trivial
            · exact hwrites ((hwired.ends hrq hprogram hreceive).mpr id)
          have hp' : program p (((s.setChannel c' after).setProcess r next).process p) =
              .use c (.send value sent refused) := by
            rw [setProcess_of_ne _ hrp.symm]
            exact hsend
          have hq' : program q (((s.setChannel c' after).setProcess r next).process q) =
              .use c (.receive got ended) := by
            rw [setProcess_of_ne _ hrq.symm]
            exact hreceive
          have hsame : ((s.setChannel c' after).setProcess r next).channel c = s.channel c := by
            rw [setProcess_channel, setChannel_of_ne _ hc]
          have hr' : program r (((s.setProcess p sent).setProcess q (got value)).process r) =
              .use c' what := by
            rw [setProcess_of_ne _ hrq, setProcess_of_ne _ hrp]
            exact hprogram
          refine ⟨_, Moves.hands hp' hq' (by rwa [hsame]) (by rwa [hsame]), ?_⟩
          have hmove := Moves.uses hr' hrun
          rw [setProcess_setChannel, setProcess_setChannel, setProcess_comm _ hrq.symm,
            setProcess_comm _ hrp.symm] at hmove
          exact hmove
      | @goes _ next hprogram =>
          have hp' : program p ((s.setProcess r next).process p) =
              .use c (.send value sent refused) := by
            rw [setProcess_of_ne _ hrp.symm]
            exact hsend
          have hq' : program q ((s.setProcess r next).process q) = .use c (.receive got ended) := by
            rw [setProcess_of_ne _ hrq.symm]
            exact hreceive
          have hr' : program r (((s.setProcess p sent).setProcess q (got value)).process r) =
              .go next := by
            rw [setProcess_of_ne _ hrq, setProcess_of_ne _ hrp]
            exact hprogram
          refine ⟨_, Moves.hands hp' hq' hcapacity hopen, ?_⟩
          have hmove := Moves.goes hr'
          rwa [setProcess_comm _ hrq.symm, setProcess_comm _ hrp.symm] at hmove

/-- Two pairs of processes that meet. -/
theorem Wired.hands_hands (hwired : Wired program writer reader) {p q p' q' : π}
    (hne : Label.hand p q ≠ .hand p' q') (hhand : s.Moves program (.hand p q) first)
    (hhand' : s.Moves program (.hand p' q') second) :
    ∃ last, Moves program first (.hand p' q') last ∧ Moves program second (.hand p q) last := by
  cases hhand with
  | @hands _ _ c value sent refused got ended hsend hreceive hcapacity hopen =>
  cases hhand' with
  | @hands _ _ c' value' sent' refused' got' ended' hsend' hreceive' hcapacity' hopen' =>
  have hc : c ≠ c' := by
    rintro rfl
    have hp := (hwired.writes hsend trivial).trans (hwired.writes hsend' trivial).symm
    have hq := (hwired.reads hreceive id).trans (hwired.reads hreceive' id).symm
    exact hne (by rw [hp, hq])
  -- a process is at one operation, so that the four are different
  have hpp : p ≠ p' := by
    rintro rfl
    cases hsend.symm.trans hsend'
    exact hc rfl
  have hqq : q ≠ q' := by
    rintro rfl
    cases hreceive.symm.trans hreceive'
    exact hc rfl
  have hpq : p ≠ q' := by
    rintro rfl
    cases hsend.symm.trans hreceive'
  have hqp : q ≠ p' := by
    rintro rfl
    cases hreceive.symm.trans hsend'
  have hp' : program p' (((s.setProcess p sent).setProcess q (got value)).process p') =
      .use c' (.send value' sent' refused') := by
    rw [setProcess_of_ne _ hqp.symm, setProcess_of_ne _ hpp.symm]
    exact hsend'
  have hq' : program q' (((s.setProcess p sent).setProcess q (got value)).process q') =
      .use c' (.receive got' ended') := by
    rw [setProcess_of_ne _ hqq.symm, setProcess_of_ne _ hpq.symm]
    exact hreceive'
  have hp : program p (((s.setProcess p' sent').setProcess q' (got' value')).process p) =
      .use c (.send value sent refused) := by
    rw [setProcess_of_ne _ hpq, setProcess_of_ne _ hpp]
    exact hsend
  have hq : program q (((s.setProcess p' sent').setProcess q' (got' value')).process q) =
      .use c (.receive got ended) := by
    rw [setProcess_of_ne _ hqq, setProcess_of_ne _ hqp]
    exact hreceive
  refine ⟨_, Moves.hands hp' hq' hcapacity' hopen', ?_⟩
  have hmove := Moves.hands hp hq hcapacity hopen
  rwa [setProcess_comm _ hpq.symm, setProcess_comm _ hpp.symm, setProcess_comm _ hqq.symm,
    setProcess_comm _ hqp.symm] at hmove

/-- The steps of a network whose channels have two ends can be taken in either order. -/
theorem Wired.commutes (hwired : Wired program writer reader) (start : NetState ν σ) :
    (network program start).Commutes where
  outcome s label s' s'' h h' := Option.some.inj (h.symm.trans h')
  diamond s label label' s' s'' hne h h' := by
    have hmove := moves_of_step h
    have hmove' := moves_of_step h'
    have hjoin : ∃ last, Moves program s' label' last ∧ Moves program s'' label last := by
      cases label with
      | hand p q =>
          cases label' with
          | hand p' q' => exact hwired.hands_hands hne hmove hmove'
          | act r =>
              obtain ⟨last, hfirst, hsecond⟩ := hwired.acts_hands hmove' hmove
              exact ⟨last, hsecond, hfirst⟩
      | act p =>
          cases label' with
          | hand p' q' => exact hwired.acts_hands hmove hmove'
          | act q =>
              have hpq : p ≠ q := fun heq => hne (congrArg Label.act heq)
              cases hmove with
              | goes hprogram => exact goes_acts hpq hprogram hmove'
              | uses hprogram hrun =>
                  cases hmove' with
                  | uses hprogram' hrun' =>
                      exact hwired.uses_uses hpq hprogram hrun hprogram' hrun'
                  | goes hprogram' =>
                      obtain ⟨last, hfirst, hsecond⟩ :=
                        goes_acts hpq.symm hprogram' (.uses hprogram hrun)
                      exact ⟨last, hsecond, hfirst⟩
    obtain ⟨last, hfirst, hsecond⟩ := hjoin
    exact ⟨last, step_of_moves hfirst, step_of_moves hsecond⟩

/-- Where all processes have stopped nothing can be done. -/
theorem stuck_of_stopped {start : NetState ν σ} (h : ∀ p, program p (s.process p) = .stop) :
    (network program start).Stuck s := by
  intro label s' hstep
  cases moves_of_step hstep with
  | uses hprogram _ => cases (h _).symm.trans hprogram
  | goes hprogram => cases (h _).symm.trans hprogram
  | hands hsend _ _ _ => cases (h _).symm.trans hsend

/-- A process that has stopped stays where it is. -/
theorem stopped_stays {start : NetState ν σ} {labels : List (Label π)} {p : π}
    (hrun : (network program start).Run s labels first) (hstop : program p (s.process p) = .stop) :
    first.process p = s.process p := by
  refine hrun.preserves (I := fun s' => s'.process p = s.process p) ?_ rfl
  intro before label after hsame hstep
  have hne : ∀ q, program q (before.process q) ≠ .stop → p ≠ q := by
    rintro q hacts rfl
    exact hacts (hsame ▸ hstop)
  cases moves_of_step hstep with
  | uses hprogram _ =>
      rw [setProcess_of_ne _ (hne _ (by simp [hprogram])), setChannel_process, hsame]
  | goes hprogram => rw [setProcess_of_ne _ (hne _ (by simp [hprogram])), hsame]
  | hands hsend hreceive _ _ =>
      rw [setProcess_of_ne _ (hne _ (by simp [hreceive])),
        setProcess_of_ne _ (hne _ (by simp [hsend])), hsame]

/-- Where a process stops on the way, it is at the end. -/
theorem stopped_of_leadsTo {start last : NetState ν σ} {labels : List (Label π)} {p : π}
    (hleads : (network program start).LeadsTo start last)
    (hrun : (network program start).Run start labels s)
    (hstop : program p (s.process p) = .stop) : s.process p = last.process p := by
  obtain ⟨n, hcontinues⟩ := hleads.continues
  obtain ⟨rest, hrest, -⟩ := hcontinues labels s hrun
  exact (stopped_stays hrest hstop).symm

section Reaches

variable {start : NetState ν σ} {p q : π} {c : χ}

theorem reaches_go {next : σ p} (h : program p (s.process p) = .go next) :
    (network program start).Reaches s (s.setProcess p next) :=
  .single (step_of_moves (Moves.goes h))

theorem reaches_close {next : σ p} (h : program p (s.process p) = .use c (.close next)) :
    (network program start).Reaches s ((s.setChannel c (s.channel c).close).setProcess p next) :=
  .single (step_of_moves (Moves.uses h rfl))

/-- A receiver finds the end of a channel. -/
theorem reaches_ended {got : ν c → σ p} {ended : σ p}
    (h : program p (s.process p) = .use c (.receive got ended))
    (hends : (s.channel c).Exhausted) :
    (network program start).Reaches s (s.setProcess p ended) := by
  have hmove := Moves.uses h
    (Use.run_receive_ended hends.1 (Channel.take_eq_none.mpr hends.2))
  rw [setChannel_eq_self] at hmove
  exact .single (step_of_moves hmove)

/-- A value passes through an empty channel, whatever its capacity. -/
theorem reaches_transfer {value : ν c} {sent refused : σ p} {got : ν c → σ q} {ended : σ q}
    (hp : program p (s.process p) = .use c (.send value sent refused))
    (hq : program q (s.process q) = .use c (.receive got ended))
    (hmeets : (s.channel c).Meets) :
    (network program start).Reaches s ((s.setProcess p sent).setProcess q (got value)) := by
  have hpq : q ≠ p := by
    rintro rfl
    cases hp.symm.trans hq
  rcases Nat.eq_zero_or_pos (s.channel c).capacity with hnone | hroom
  · exact .single (step_of_moves (Moves.hands hp hq hnone hmeets.1))
  · obtain ⟨after, hput⟩ :=
      Channel.put_of_room hmeets.1 (by rw [hmeets.2]; exact hroom) value
    have hsend := Moves.uses hp (Use.run_send_put hput)
    have htake := Channel.put_take_of_empty hmeets.2 hput
    have hq' : program q (((s.setChannel c after).setProcess p sent).process q) =
        .use c (.receive got ended) := by
      rw [setProcess_of_ne _ hpq]
      exact hq
    have hreceive := Moves.uses hq'
      (Use.run_receive_take (by rw [setProcess_channel, setChannel_self]; exact htake))
    rw [setProcess_setChannel, setChannel_idem, setChannel_eq_self] at hreceive
    exact (System.Reaches.single (step_of_moves hsend)).trans (.single (step_of_moves hreceive))

end Reaches

end Network

end CppWorkspace.Lib
