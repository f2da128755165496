import CppWorkspace.Asio.EchoTcp

/-!
The runs of the echo connection. The client reads nothing before it has written all,
and the session reads nothing before it has written all it has read, so that what the
connection has no room for stays with the client for ever.
-/

namespace CppWorkspace.Asio.EchoTcp

open Lib System

def ClientPc.rest : ClientPc → Bytes
  | .writing rest => rest
  | .reading _ | .returned _ => []

def ClientPc.got : ClientPc → Bytes
  | .writing _ => []
  | .reading got | .returned got => got

def SessionPc.rest : SessionPc → Bytes
  | .writing rest => rest
  | .reading | .returned | .threw => []

/-- What the steps do, one constructor for each. -/
inductive Moves (message : Bytes) (size : ℕ) (s : State) : Event → State → Prop
  | clientWrites {count : ℕ} {rest : Bytes} {up : ByteStream UInt8} : s.client = .writing rest →
      0 < count → count ≤ rest.length → s.up.send (rest.take count) = some up →
      Moves message size s (.clientWrites count)
        { s with
          client := afterWrite message (rest.drop count)
          up := closeWith (afterWrite message (rest.drop count)) up }
  | sessionReads {count : ℕ} {bytes : Bytes} {up : ByteStream UInt8} : s.session = .reading →
      0 < count → count ≤ size → s.up.receive count = some (bytes, up) →
      Moves message size s (.sessionReads count) { s with session := .writing bytes, up }
  | sessionEnds : s.session = .reading → s.up.ended = true → s.up.buffer = [] →
      Moves message size s .sessionEnds { s with session := .returned }
  | sessionWrites {count : ℕ} {rest : Bytes} {down : ByteStream UInt8} :
      s.session = .writing rest → 0 < count → count ≤ rest.length →
      s.down.send (rest.take count) = some down →
      Moves message size s (.sessionWrites count)
        { s with session := sessionAfterWrite (rest.drop count), down }
  | sessionFails {rest reply : Bytes} : s.session = .writing rest → s.client = .returned reply →
      Moves message size s .sessionFails { s with session := .threw }
  | clientReads {count : ℕ} {got bytes : Bytes} {down : ByteStream UInt8} :
      s.client = .reading got → 0 < count → got.length + count ≤ message.length →
      s.down.receive count = some (bytes, down) →
      Moves message size s (.clientReads count)
        { s with
          client := afterRead message (got ++ bytes)
          up := closeWith (afterRead message (got ++ bytes)) s.up
          down }

section Steps

variable {message : Bytes} {size : ℕ} {s s' : State} {event : Event}

theorem moves_of_step (h : s.step message size event = some s') :
    Moves message size s event s' := by
  cases event with
  | clientWrites count =>
      cases hclient : s.client with
      | writing rest =>
          simp only [State.step, hclient] at h
          split at h
          · cases h
          next hcount =>
          obtain ⟨hpos, hle⟩ := not_not.mp hcount
          obtain ⟨up, hsend, heq⟩ := Option.bind_eq_some_iff.mp h
          cases heq
          exact .clientWrites hclient hpos hle hsend
      | reading _ | returned _ =>
          simp only [State.step, hclient] at h
          cases h
  | sessionReads count =>
      cases hsession : s.session with
      | reading =>
          simp only [State.step, hsession] at h
          split at h
          · cases h
          next hcount =>
          obtain ⟨hpos, hle⟩ := not_not.mp hcount
          obtain ⟨⟨bytes, up⟩, hreceive, heq⟩ := Option.bind_eq_some_iff.mp h
          cases heq
          exact .sessionReads hsession hpos hle hreceive
      | writing _ | returned | threw =>
          simp only [State.step, hsession] at h
          cases h
  | sessionEnds =>
      cases hsession : s.session with
      | reading =>
          simp only [State.step, hsession] at h
          obtain ⟨⟨hended, hnil⟩, heq⟩ := Option.ite_none_right_eq_some.mp h
          cases heq
          exact .sessionEnds hsession hended hnil
      | writing _ | returned | threw =>
          simp only [State.step, hsession] at h
          cases h
  | sessionWrites count =>
      cases hsession : s.session with
      | writing rest =>
          simp only [State.step, hsession] at h
          split at h
          · cases h
          next hcount =>
          obtain ⟨hpos, hle⟩ := not_not.mp hcount
          obtain ⟨down, hsend, heq⟩ := Option.bind_eq_some_iff.mp h
          cases heq
          exact .sessionWrites hsession hpos hle hsend
      | reading | returned | threw =>
          simp only [State.step, hsession] at h
          cases h
  | sessionFails =>
      simp only [State.step] at h
      split at h
      · next hsession hclient =>
        cases h
        exact .sessionFails hsession hclient
      · cases h
  | clientReads count =>
      cases hclient : s.client with
      | reading got =>
          simp only [State.step, hclient] at h
          split at h
          · cases h
          next hcount =>
          obtain ⟨hpos, hle⟩ := not_not.mp hcount
          obtain ⟨⟨bytes, down⟩, hreceive, heq⟩ := Option.bind_eq_some_iff.mp h
          cases heq
          exact .clientReads hclient hpos hle hreceive
      | writing _ | returned _ =>
          simp only [State.step, hclient] at h
          cases h

theorem step_of_moves (h : Moves message size s event s') :
    s.step message size event = some s' := by
  cases h with
  | clientWrites hclient hpos hle hsend => simp [State.step, hclient, hpos, hle, hsend]
  | sessionReads hsession hpos hle hreceive => simp [State.step, hsession, hpos, hle, hreceive]
  | sessionEnds hsession hended hnil => simp [State.step, hsession, hended, hnil]
  | sessionWrites hsession hpos hle hsend => simp [State.step, hsession, hpos, hle, hsend]
  | sessionFails hsession hclient => simp [State.step, hsession, hclient]
  | clientReads hclient hpos hle hreceive => simp [State.step, hclient, hpos, hle, hreceive]

/-- The client is where its bytes let it be. -/
structure ClientOk (message : Bytes) (client : ClientPc) : Prop where
  writing : ∀ rest, client = .writing rest → rest ≠ []
  reading : ∀ got, client = .reading got → got.length < message.length
  returned : ∀ reply, client = .returned reply → reply = message

/-- Where the bytes of the message are, and what the ends know of each other. -/
structure Inv (message : Bytes) (size upCapacity downCapacity : ℕ) (s : State) : Prop where
  bytes : s.client.got ++ s.down.buffer ++ s.session.rest ++ s.up.buffer ++ s.client.rest = message
  up_capacity : s.up.capacity = upCapacity
  down_capacity : s.down.capacity = downCapacity
  down_open : s.down.ended = false
  up_ended : s.up.ended = true ↔ ∃ reply, s.client = .returned reply
  client : ClientOk message s.client
  session_writing : ∀ rest, s.session = .writing rest → rest ≠ [] ∧ rest.length ≤ size
  session_returned : s.session = .returned → ∃ reply, s.client = .returned reply
  session_safe : s.session ≠ .threw

@[simp] theorem closeWith_buffer (client : ClientPc) (up : ByteStream UInt8) :
    (closeWith client up).buffer = up.buffer := by
  cases client <;> rfl

@[simp] theorem closeWith_capacity (client : ClientPc) (up : ByteStream UInt8) :
    (closeWith client up).capacity = up.capacity := by
  cases client <;> rfl

theorem closeWith_ended {client : ClientPc} {up : ByteStream UInt8} (hopen : up.ended = false) :
    (closeWith client up).ended = true ↔ ∃ reply, client = .returned reply := by
  cases client <;> simp [closeWith, hopen]

theorem afterRead_cases (message got : Bytes) :
    (message.length ≤ got.length ∧ afterRead message got = .returned got) ∨
      (got.length < message.length ∧ afterRead message got = .reading got) := by
  unfold afterRead
  split
  · next hle => exact .inl ⟨hle, rfl⟩
  · next hlt => exact .inr ⟨not_le.mp hlt, rfl⟩

theorem afterWrite_cases (message rest : Bytes) :
    (rest ≠ [] ∧ afterWrite message rest = .writing rest) ∨
      (rest = [] ∧ afterWrite message rest = afterRead message []) := by
  unfold afterWrite
  split
  · next hnil => exact .inr ⟨hnil, rfl⟩
  · next hsome => exact .inl ⟨hsome, rfl⟩

@[simp] theorem afterRead_got (message got : Bytes) : (afterRead message got).got = got := by
  rcases afterRead_cases message got with ⟨-, heq⟩ | ⟨-, heq⟩ <;> rw [heq] <;> rfl

@[simp] theorem afterRead_rest (message got : Bytes) : (afterRead message got).rest = [] := by
  rcases afterRead_cases message got with ⟨-, heq⟩ | ⟨-, heq⟩ <;> rw [heq] <;> rfl

@[simp] theorem afterWrite_got (message rest : Bytes) : (afterWrite message rest).got = [] := by
  rcases afterWrite_cases message rest with ⟨-, heq⟩ | ⟨-, heq⟩ <;> rw [heq]
  · rfl
  · exact afterRead_got message []

@[simp] theorem afterWrite_rest (message rest : Bytes) : (afterWrite message rest).rest = rest := by
  rcases afterWrite_cases message rest with ⟨-, heq⟩ | ⟨hnil, heq⟩ <;> rw [heq]
  · rfl
  · rw [hnil, afterRead_rest]

@[simp] theorem sessionAfterWrite_rest (rest : Bytes) : (sessionAfterWrite rest).rest = rest := by
  unfold sessionAfterWrite
  split
  · next hnil => rw [hnil, SessionPc.rest]
  · rfl

theorem afterRead_ok {got : Bytes} (hpre : got <+: message) :
    ClientOk message (afterRead message got) := by
  rcases afterRead_cases message got with ⟨hle, heq⟩ | ⟨hlt, heq⟩ <;> rw [heq]
  · refine ⟨by simp, by simp, ?_⟩
    rintro reply ⟨⟩
    exact hpre.eq_of_length (le_antisymm hpre.length_le hle)
  · refine ⟨by simp, ?_, by simp⟩
    rintro got' ⟨⟩
    exact hlt

theorem afterWrite_ok (rest : Bytes) : ClientOk message (afterWrite message rest) := by
  rcases afterWrite_cases message rest with ⟨hsome, heq⟩ | ⟨-, heq⟩ <;> rw [heq]
  · refine ⟨?_, by simp, by simp⟩
    rintro rest' ⟨⟩
    exact hsome
  · exact afterRead_ok List.nil_prefix

theorem sessionAfterWrite_cases (rest : Bytes) :
    (rest ≠ [] ∧ sessionAfterWrite rest = .writing rest) ∨
      (rest = [] ∧ sessionAfterWrite rest = .reading) := by
  unfold sessionAfterWrite
  split
  · next hnil => exact .inr ⟨hnil, rfl⟩
  · next hsome => exact .inl ⟨hsome, rfl⟩

theorem inv_connected (message : Bytes) (size upCapacity downCapacity : ℕ) :
    Inv message size upCapacity downCapacity (connected message upCapacity downCapacity) where
  bytes := by simp [connected, SessionPc.rest]
  up_capacity := by simp [connected]
  down_capacity := rfl
  down_open := rfl
  up_ended := closeWith_ended rfl
  client := afterWrite_ok message
  session_writing := by simp [connected]
  session_returned := by simp [connected]
  session_safe := by simp [connected]

section Inv

variable {upCapacity downCapacity : ℕ} (h : Inv message size upCapacity downCapacity s)

include h in
theorem Inv.up_open {client : ClientPc} (hclient : s.client = client)
    (hpc : ∀ reply, client ≠ .returned reply) : s.up.ended = false := by
  rw [← Bool.not_eq_true, h.up_ended]
  rintro ⟨reply, heq⟩
  exact hpc reply (hclient.symm.trans heq)

include h in
theorem Inv.length : s.client.got.length + s.down.buffer.length + s.session.rest.length +
    s.up.buffer.length + s.client.rest.length = message.length := by
  rw [← h.bytes]
  simp only [List.length_append]

include h in
theorem Inv.step (hstep : s.step message size event = some s') :
    Inv message size upCapacity downCapacity s' := by
  have hbytes := h.bytes
  cases moves_of_step hstep with
  | @clientWrites count rest up hclient hpos hle hsend =>
      obtain ⟨hbuffer, hended, hcapacity⟩ := ByteStream.send_spec hsend
      have hopen := hended.trans (h.up_open hclient (by simp))
      rw [hclient, ClientPc.got, ClientPc.rest] at hbytes
      exact
        { bytes := by simpa [hbuffer] using hbytes
          up_capacity := by rw [closeWith_capacity, hcapacity, h.up_capacity]
          down_capacity := h.down_capacity
          down_open := h.down_open
          up_ended := closeWith_ended hopen
          client := afterWrite_ok _
          session_writing := h.session_writing
          session_returned := fun hsession => by
            obtain ⟨reply, heq⟩ := h.session_returned hsession
            cases hclient.symm.trans heq
          session_safe := h.session_safe }
  | @sessionReads count bytes up hsession hpos hle hreceive =>
      obtain ⟨hbuffer, hlength, hended, hcapacity⟩ := ByteStream.receive_spec hreceive
      rw [hsession, SessionPc.rest, hbuffer] at hbytes
      exact
        { bytes := by simpa [SessionPc.rest] using hbytes
          up_capacity := hcapacity.trans h.up_capacity
          down_capacity := h.down_capacity
          down_open := h.down_open
          up_ended := by rw [hended, h.up_ended]
          client := h.client
          session_writing := by
            rintro rest ⟨⟩
            exact ⟨List.ne_nil_of_length_pos (hlength.symm ▸ hpos), hlength.le.trans hle⟩
          session_returned := by simp
          session_safe := by simp }
  | sessionEnds hsession hended hnil =>
      rw [hsession, SessionPc.rest] at hbytes
      exact
        { bytes := by simpa [SessionPc.rest] using hbytes
          up_capacity := h.up_capacity
          down_capacity := h.down_capacity
          down_open := h.down_open
          up_ended := h.up_ended
          client := h.client
          session_writing := by simp
          session_returned := fun _ => h.up_ended.mp hended
          session_safe := by simp }
  | @sessionWrites count rest down hsession hpos hle hsend =>
      obtain ⟨hbuffer, hended, hcapacity⟩ := ByteStream.send_spec hsend
      have hsize := (h.session_writing rest hsession).2
      rw [hsession, SessionPc.rest] at hbytes
      exact
        { bytes := by
            rw [sessionAfterWrite_rest, hbuffer, ← hbytes]
            simp only [List.append_assoc]
            rw [← List.append_assoc (rest.take count), List.take_append_drop]
          up_capacity := h.up_capacity
          down_capacity := hcapacity.trans h.down_capacity
          down_open := hended.trans h.down_open
          up_ended := h.up_ended
          client := h.client
          session_writing := by
            intro rest' heq
            rcases sessionAfterWrite_cases (rest.drop count) with ⟨hsome, hnow⟩ | ⟨-, hnow⟩
            · cases hnow.symm.trans heq
              rw [List.length_drop]
              exact ⟨hsome, (Nat.sub_le _ _).trans hsize⟩
            · cases hnow.symm.trans heq
          session_returned := by
            intro heq
            rcases sessionAfterWrite_cases (rest.drop count) with ⟨-, hnow⟩ | ⟨-, hnow⟩ <;>
              cases hnow.symm.trans heq
          session_safe := by
            intro heq
            rcases sessionAfterWrite_cases (rest.drop count) with ⟨-, hnow⟩ | ⟨-, hnow⟩ <;>
              cases hnow.symm.trans heq }
  | @sessionFails rest reply hsession hclient =>
      have hlength := h.length
      have hsome := List.length_pos_of_ne_nil (h.session_writing rest hsession).1
      rw [hsession, hclient, SessionPc.rest, ClientPc.got, h.client.returned reply hclient]
        at hlength
      omega
  | @clientReads count got bytes down hclient hpos hle hreceive =>
      obtain ⟨hbuffer, hlength, hended, hcapacity⟩ := ByteStream.receive_spec hreceive
      have hopen := h.up_open hclient (by simp)
      rw [hclient, ClientPc.got, ClientPc.rest, hbuffer] at hbytes
      have hpre : got ++ bytes <+: message := ⟨_, by simpa using hbytes⟩
      exact
        { bytes := by simpa using hbytes
          up_capacity := by rw [closeWith_capacity, h.up_capacity]
          down_capacity := hcapacity.trans h.down_capacity
          down_open := hended.trans h.down_open
          up_ended := closeWith_ended hopen
          client := afterRead_ok hpre
          session_writing := h.session_writing
          session_returned := fun hsession => by
            obtain ⟨reply, heq⟩ := h.session_returned hsession
            cases hclient.symm.trans heq
          session_safe := h.session_safe }

/-- The steps that are left: every byte goes through four of them at most. -/
def State.work (s : State) : ℕ :=
  4 * s.client.rest.length + 3 * s.up.buffer.length + 2 * s.session.rest.length +
    s.down.buffer.length + if s.session = .returned ∨ s.session = .threw then 0 else 1

theorem step_work_lt (hstep : s.step message size event = some s') : s'.work < s.work := by
  cases moves_of_step hstep with
  | @clientWrites count rest up hclient hpos hle hsend =>
      have hbuffer := (ByteStream.send_spec hsend).1
      have hrest : s.client.rest = rest := by rw [hclient, ClientPc.rest]
      simp only [State.work, hrest, afterWrite_rest, closeWith_buffer, hbuffer, List.length_append,
        List.length_take, List.length_drop]
      omega
  | @sessionReads count bytes up hsession hpos hle hreceive =>
      obtain ⟨hbuffer, hlength, -, -⟩ := ByteStream.receive_spec hreceive
      simp [State.work, hsession, SessionPc.rest, hbuffer]
      omega
  | sessionEnds hsession hended hnil => simp [State.work, hsession, SessionPc.rest]
  | @sessionWrites count rest down hsession hpos hle hsend =>
      have hbuffer := (ByteStream.send_spec hsend).1
      have hnow : ¬ (sessionAfterWrite (rest.drop count) = .returned ∨
          sessionAfterWrite (rest.drop count) = .threw) := by
        rcases sessionAfterWrite_cases (rest.drop count) with ⟨-, heq⟩ | ⟨-, heq⟩ <;> simp [heq]
      have hbefore : ¬ (s.session = .returned ∨ s.session = .threw) := by simp [hsession]
      have hrest : s.session.rest = rest := by rw [hsession, SessionPc.rest]
      simp only [State.work, if_neg hnow, if_neg hbefore, sessionAfterWrite_rest, hrest, hbuffer,
        List.length_append, List.length_take, List.length_drop]
      omega
  | sessionFails hsession hclient => simp [State.work, hsession, SessionPc.rest]
  | @clientReads count got bytes down hclient hpos hle hreceive =>
      obtain ⟨hbuffer, hlength, -, -⟩ := ByteStream.receive_spec hreceive
      have hrest : s.client.rest = [] := by rw [hclient, ClientPc.rest]
      simp only [State.work, hrest, afterRead_rest, closeWith_buffer, hbuffer, List.length_append]
      omega

theorem work_connected (message : Bytes) (upCapacity downCapacity : ℕ) :
    (connected message upCapacity downCapacity).work = 4 * message.length + 1 := by
  simp [State.work, connected, SessionPc.rest]

/-- Nothing can be done. -/
def State.Waits (message : Bytes) (size : ℕ) (s : State) : Prop :=
  ∀ event s', ¬ Moves message size s event s'

section Waits

variable (hwaits : s.Waits message size) (hsize : 0 < size)

include hwaits in
/-- A client that cannot write has no room to write to. -/
theorem State.Waits.up_full {rest : Bytes} (hclient : s.client = .writing rest) (hrest : rest ≠ [])
    (hopen : s.up.ended = false) : s.up.buffer.length = s.up.capacity := by
  refine le_antisymm s.up.fits (not_lt.mp ?_)
  intro hroom
  have hpos := List.length_pos_of_ne_nil hrest
  have hone : s.up.buffer.length + (rest.take 1).length ≤ s.up.capacity := by
    rw [List.length_take]
    omega
  obtain ⟨up, hsend⟩ := ByteStream.send_of_room hopen hone
  exact hwaits _ _ (.clientWrites hclient Nat.one_pos hpos hsend)

include hwaits hsize in
/-- A session that cannot read has nothing to read. -/
theorem State.Waits.up_empty (hsession : s.session = .reading) : s.up.buffer = [] := by
  by_contra hsome
  obtain ⟨bytes, up, hreceive⟩ := ByteStream.receive_of_le (List.length_pos_of_ne_nil hsome)
  exact hwaits _ _ (.sessionReads hsession Nat.one_pos hsize hreceive)

include hwaits in
theorem State.Waits.down_full {rest : Bytes} (hsession : s.session = .writing rest)
    (hrest : rest ≠ []) (hopen : s.down.ended = false) :
    s.down.buffer.length = s.down.capacity := by
  refine le_antisymm s.down.fits (not_lt.mp ?_)
  intro hroom
  have hpos := List.length_pos_of_ne_nil hrest
  have hone : s.down.buffer.length + (rest.take 1).length ≤ s.down.capacity := by
    rw [List.length_take]
    omega
  obtain ⟨down, hsend⟩ := ByteStream.send_of_room hopen hone
  exact hwaits _ _ (.sessionWrites hsession Nat.one_pos hpos hsend)

include hwaits in
theorem State.Waits.down_empty {got : Bytes} (hclient : s.client = .reading got)
    (hlt : got.length < message.length) : s.down.buffer = [] := by
  by_contra hsome
  obtain ⟨bytes, down, hreceive⟩ := ByteStream.receive_of_le (List.length_pos_of_ne_nil hsome)
  exact hwaits _ _ (.clientReads hclient Nat.one_pos hlt hreceive)

end Waits

/-- Where nothing can be done, the exchange is over, or the connection is full in both
directions and both ends hold bytes. -/
theorem Inv.cases_of_waits (h : Inv message size upCapacity downCapacity s)
    (hwaits : s.Waits message size) (hsize : 0 < size) (hup : 0 < upCapacity)
    (hdown : 0 < downCapacity) :
    s.Finished message ∨ upCapacity + downCapacity + 1 < message.length := by
  have hlength := h.length
  cases hclient : s.client with
  | writing rest =>
      refine .inr ?_
      have hrest := h.client.writing rest hclient
      have hopen := h.up_open hclient (by simp)
      have hfull := (hwaits.up_full hclient hrest hopen).trans h.up_capacity
      have hpos := List.length_pos_of_ne_nil hrest
      cases hsession : s.session with
      | reading =>
          rw [hwaits.up_empty hsize hsession, List.length_nil] at hfull
          omega
      | writing held =>
          obtain ⟨hheld, -⟩ := h.session_writing held hsession
          have hfull' := (hwaits.down_full hsession hheld h.down_open).trans h.down_capacity
          have hpos' := List.length_pos_of_ne_nil hheld
          rw [hclient, hsession, ClientPc.got, ClientPc.rest, SessionPc.rest, List.length_nil]
            at hlength
          omega
      | returned =>
          obtain ⟨reply, heq⟩ := h.session_returned hsession
          cases hclient.symm.trans heq
      | threw => exact absurd hsession h.session_safe
  | reading got =>
      exfalso
      have hlt := h.client.reading got hclient
      have hempty := hwaits.down_empty hclient hlt
      rw [hclient, ClientPc.got, ClientPc.rest, hempty, List.length_nil] at hlength
      cases hsession : s.session with
      | reading =>
          rw [hsession, SessionPc.rest, hwaits.up_empty hsize hsession, List.length_nil] at hlength
          omega
      | writing held =>
          obtain ⟨hheld, -⟩ := h.session_writing held hsession
          have hfull := (hwaits.down_full hsession hheld h.down_open).trans h.down_capacity
          rw [hempty, List.length_nil] at hfull
          omega
      | returned =>
          obtain ⟨reply, heq⟩ := h.session_returned hsession
          cases hclient.symm.trans heq
      | threw => exact absurd hsession h.session_safe
  | returned reply =>
      refine .inl ?_
      have hreply := h.client.returned reply hclient
      rw [hclient, ClientPc.got, hreply] at hlength
      cases hsession : s.session with
      | reading =>
          have hempty := hwaits.up_empty hsize hsession
          exact absurd (.sessionEnds hsession (h.up_ended.mpr ⟨reply, hclient⟩) hempty)
            (hwaits _ _)
      | writing held =>
          have hpos := List.length_pos_of_ne_nil (h.session_writing held hsession).1
          rw [hsession, SessionPc.rest] at hlength
          omega
      | returned => exact ⟨hclient.trans (congrArg ClientPc.returned hreply), hsession⟩
      | threw => exact absurd hsession h.session_safe

/-- A client with more bytes than the connection and the session have room for goes on
writing. -/
theorem Inv.stays_writing (h : Inv message size upCapacity downCapacity s)
    (hlong : upCapacity + downCapacity + size < message.length)
    (hstep : s.step message size event = some s') (hclient : ∃ rest, s.client = .writing rest) :
    ∃ rest, s'.client = .writing rest := by
  have h' := h.step hstep
  have hlength := h'.length
  have hup := h'.up_capacity ▸ s'.up.fits
  have hdown := h'.down_capacity ▸ s'.down.fits
  have hsession : s'.session.rest.length ≤ size := by
    cases hnow : s'.session with
    | writing rest => exact (h'.session_writing rest hnow).2
    | reading | returned | threw => exact Nat.zero_le size
  have hgot : s'.client.got = [] := by
    obtain ⟨rest, hclient⟩ := hclient
    cases moves_of_step hstep with
    | clientWrites _ _ _ _ => exact afterWrite_got _ _
    | sessionReads _ _ _ _ | sessionEnds _ _ _ | sessionWrites _ _ _ _ | sessionFails _ _ =>
        simp only [hclient, ClientPc.got]
    | clientReads hclient' _ _ _ => cases hclient.symm.trans hclient'
  rw [hgot, List.length_nil] at hlength
  cases hnow : s'.client with
  | writing rest => exact ⟨rest, rfl⟩
  | reading _ | returned _ =>
      rw [hnow, ClientPc.rest, List.length_nil] at hlength
      omega

end Inv

end Steps

section Runs

variable {message : Bytes} {size upCapacity downCapacity : ℕ} {s : State}

theorem inv_of_run {labels : List Event}
    (hrun : (echo message size upCapacity downCapacity).Run
      (connected message upCapacity downCapacity) labels s) :
    Inv message size upCapacity downCapacity s :=
  hrun.preserves (fun _ _ _ h hstep => h.step hstep) (inv_connected _ _ _ _)

theorem waits_of_stuck (hstuck : (echo message size upCapacity downCapacity).Stuck s) :
    s.Waits message size := fun event s' hmove => hstuck event s' (step_of_moves hmove)

theorem run_length_le {labels : List Event}
    (hrun : (echo message size upCapacity downCapacity).Run
      (connected message upCapacity downCapacity) labels s) :
    labels.length ≤ 4 * message.length + 1 := by
  have hwork := hrun.length_le (I := fun _ => True)
    (fun _ _ _ _ hstep => ⟨trivial, step_work_lt hstep⟩) trivial
  rw [work_connected] at hwork
  omega

theorem writing_of_run (hlong : upCapacity + downCapacity + size < message.length)
    {labels : List Event}
    (hrun : (echo message size upCapacity downCapacity).Run
      (connected message upCapacity downCapacity) labels s) :
    ∃ rest, s.client = .writing rest := by
  have hstart : ∃ rest, (connected message upCapacity downCapacity).client = .writing rest := by
    rcases afterWrite_cases message message with ⟨-, heq⟩ | ⟨hnil, -⟩
    · exact ⟨message, heq⟩
    · rw [hnil, List.length_nil] at hlong
      omega
  have hboth := hrun.preserves (I := fun s => Inv message size upCapacity downCapacity s ∧
      ∃ rest, s.client = .writing rest)
    (fun _ _ _ h hstep => ⟨h.1.step hstep, h.1.stays_writing hlong hstep h.2⟩)
    ⟨inv_connected _ _ _ _, hstart⟩
  exact hboth.2

/-- A session with a larger buffer can do what one with a smaller buffer does. -/
theorem run_mono {size' : ℕ} (hle : size ≤ size') {start : State} {labels : List Event}
    (hrun : (echo message size upCapacity downCapacity).Run start labels s) :
    (echo message size' upCapacity downCapacity).Run start labels s := by
  induction hrun with
  | nil => exact .nil
  | snoc event _ hstep ih =>
      refine ih.snoc event (step_of_moves ?_)
      cases moves_of_step hstep with
      | clientWrites hclient hpos hcount hsend => exact .clientWrites hclient hpos hcount hsend
      | sessionReads hsession hpos hcount hreceive =>
          exact .sessionReads hsession hpos (hcount.trans hle) hreceive
      | sessionEnds hsession hended hnil => exact .sessionEnds hsession hended hnil
      | sessionWrites hsession hpos hcount hsend => exact .sessionWrites hsession hpos hcount hsend
      | sessionFails hsession hclient => exact .sessionFails hsession hclient
      | clientReads hclient hpos hcount hreceive => exact .clientReads hclient hpos hcount hreceive

/-- A session that reads byte by byte fills the connection and gets stuck. -/
theorem exists_unfinished (hsize : 0 < size)
    (hlong : upCapacity + downCapacity + 1 < message.length) :
    ∃ labels s, (echo message size upCapacity downCapacity).Run
      (connected message upCapacity downCapacity) labels s ∧
      (echo message size upCapacity downCapacity).Stuck s ∧ ¬ s.Finished message := by
  have hbound : ∀ labels s, (echo message 1 upCapacity downCapacity).Run
      (connected message upCapacity downCapacity) labels s →
        labels.length ≤ 4 * message.length + 1 := fun _ _ => run_length_le
  obtain ⟨labels, s, hrun, hstuck⟩ := exists_stuck hbound
  have hwaits := waits_of_stuck hstuck
  obtain ⟨rest, hclient⟩ := writing_of_run hlong hrun
  refine ⟨labels, s, run_mono hsize hrun, ?_, ?_⟩
  · intro event s' hstep
    cases moves_of_step hstep with
    | clientWrites hclient hpos hcount hsend =>
        exact hwaits _ _ (.clientWrites hclient hpos hcount hsend)
    | @sessionReads count bytes up hsession hpos hcount hreceive =>
        have hempty := hwaits.up_empty Nat.one_pos hsession
        obtain ⟨hbuffer, hlength, -, -⟩ := ByteStream.receive_spec hreceive
        rw [hempty] at hbuffer
        rw [(List.append_eq_nil_iff.mp hbuffer.symm).1, List.length_nil] at hlength
        omega
    | sessionEnds hsession hended hnil => exact hwaits _ _ (.sessionEnds hsession hended hnil)
    | sessionWrites hsession hpos hcount hsend =>
        exact hwaits _ _ (.sessionWrites hsession hpos hcount hsend)
    | sessionFails hsession hclient => exact hwaits _ _ (.sessionFails hsession hclient)
    | clientReads hclient hpos hcount hreceive =>
        exact hwaits _ _ (.clientReads hclient hpos hcount hreceive)
  · intro hfinished
    cases hclient.symm.trans hfinished.1

/-- What the client has is always a beginning of its message. The exchange is over at
the end of every run if the connection and one byte of the session's buffer have room
for the message, and only then; with more bytes than all that has room for it is never
over. -/
theorem echo_finishes_iff (hsize : 0 < size) (hup : 0 < upCapacity) (hdown : 0 < downCapacity) :
    (∀ labels s, (echo message size upCapacity downCapacity).Run
        (connected message upCapacity downCapacity) labels s →
      labels.length ≤ 4 * message.length + 1 ∧ s.client.got <+: message ∧ s.session ≠ .threw) ∧
    ((∀ labels s, (echo message size upCapacity downCapacity).Run
        (connected message upCapacity downCapacity) labels s →
      (echo message size upCapacity downCapacity).Stuck s → s.Finished message) ↔
        message.length ≤ upCapacity + downCapacity + 1) ∧
    (upCapacity + downCapacity + size < message.length →
      ∀ labels s, (echo message size upCapacity downCapacity).Run
        (connected message upCapacity downCapacity) labels s → ¬ s.Finished message) := by
  refine ⟨?_, ⟨?_, ?_⟩, ?_⟩
  · intro labels s hrun
    have h := inv_of_run hrun
    have hpre : s.client.got <+: message := by
      rw [← h.bytes]
      simp only [List.append_assoc]
      exact List.prefix_append _ _
    exact ⟨run_length_le hrun, hpre, h.session_safe⟩
  · intro hall
    by_contra hlong
    obtain ⟨labels, s, hrun, hstuck, hunfinished⟩ :=
      exists_unfinished hsize (not_le.mp hlong)
    exact hunfinished (hall labels s hrun hstuck)
  · intro hroom labels s hrun hstuck
    rcases (inv_of_run hrun).cases_of_waits (waits_of_stuck hstuck) hsize hup hdown with
      hfinished | hlong
    · exact hfinished
    · omega
  · intro hlong labels s hrun hfinished
    obtain ⟨rest, hclient⟩ := writing_of_run hlong hrun
    cases hclient.symm.trans hfinished.1

/-- A message that is longer than both directions can hold. -/
theorem echo_finishes_iff_four :
    ¬ ∀ labels s, (echo [1, 2, 3, 4] dataSize 1 1).Run (connected [1, 2, 3, 4] 1 1) labels s →
      (echo [1, 2, 3, 4] dataSize 1 1).Stuck s → s.Finished [1, 2, 3, 4] := by
  intro hall
  have hroom := (echo_finishes_iff (by decide) (by decide) (by decide)).2.1.mp hall
  exact absurd hroom (by decide)

end Runs

end CppWorkspace.Asio.EchoTcp
