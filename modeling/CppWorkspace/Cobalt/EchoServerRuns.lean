import CppWorkspace.Cobalt.EchoServer
import CppWorkspace.Lib.Commuting

/-!
What the clients get. On each connection the lines that were taken from the stream, the
part of their replies that has not come yet and the buffers account for all that was
sent; the connections share nothing but the order in which they were accepted.
-/

namespace CppWorkspace.Cobalt.EchoServer

open Lib Lib.TextStream System

/-- The lines of a text that are ended by a newline. -/
def completeLines (text : List Char) : List (List Char) := (text.splitOn '\n').dropLast

/-- The reply to a line. -/
def replyTo (line stamp : List Char) : List Char := replyText (stripEol line) stamp

/-- The replies to the complete lines of a text, as far as there are time stamps. -/
def replies (text : List Char) (stamps : List (List Char)) : List Char :=
  (List.zipWith replyTo (completeLines text) stamps).flatten

/-- What a session prints about its lines. -/
def linesPrinted (connId : ℕ) (lines : List (List Char)) : List (List Char) :=
  lines.mapIdx fun index line => lineText connId ((index + 1) % 2 ^ 32) (stripEol line)

def ConnectionEvent.sent : ConnectionEvent → List Char
  | .clientSends text => text
  | _ => []

def ConnectionEvent.stamp : ConnectionEvent → Option (List Char)
  | .lineComplete stamp => some stamp
  | _ => none

/-- What the client has sent. -/
def sentText (events : List ConnectionEvent) : List Char := events.flatMap ConnectionEvent.sent

/-- The times at which lines were complete. -/
def stampsOf (events : List ConnectionEvent) : List (List Char) :=
  events.filterMap ConnectionEvent.stamp

@[simp] theorem sentText_snoc (events : List ConnectionEvent) (event : ConnectionEvent) :
    sentText (events ++ [event]) = sentText events ++ event.sent := by
  simp [sentText]

@[simp] theorem stampsOf_snoc (events : List ConnectionEvent) (event : ConnectionEvent) :
    stampsOf (events ++ [event]) = stampsOf events ++ event.stamp.toList := by
  cases hstamp : event.stamp <;> simp [stampsOf, hstamp]

section Text

theorem nextUnsigned_mod (n : ℕ) : nextUnsigned (n % 2 ^ 32) = (n + 1) % 2 ^ 32 := by
  unfold nextUnsigned
  omega

theorem stripEol_newline (line : List Char) : stripEol (line ++ ['\n']) = stripEol line := by
  unfold stripEol
  exact List.rdropWhile_concat_pos _ _ _ (by decide)

theorem stripEol_length_le (line : List Char) : (stripEol line).length ≤ line.length :=
  (List.rdropWhile_prefix _ _).length_le

theorem completeLines_of_not_mem {text : List Char} (h : '\n' ∉ text) :
    completeLines text = [] := by
  simp [completeLines, List.splitOn_eq_singleton h]

theorem completeLines_cons {line : List Char} (hline : '\n' ∉ line) (rest : List Char) :
    completeLines (line ++ '\n' :: rest) = line :: completeLines rest := by
  have hne := List.splitOn_ne_nil '\n' rest
  rw [completeLines, List.splitOn_append_cons_self_of_not_mem hline,
    List.dropLast_cons_of_ne_nil hne, completeLines]

/-- Lines that stand at the front of a text are its first complete lines. -/
theorem completeLines_flatten {lines : List (List Char)} (hlines : ∀ line ∈ lines, '\n' ∉ line)
    (rest : List Char) :
    completeLines ((lines.map fun line => line ++ ['\n']).flatten ++ rest) =
      lines ++ completeLines rest := by
  induction lines with
  | nil => rfl
  | cons line lines ih =>
      have hline := hlines line List.mem_cons_self
      have hrest : ∀ line ∈ lines, '\n' ∉ line :=
        fun line hmem => hlines line (List.mem_cons_of_mem _ hmem)
      rw [List.map_cons, List.flatten_cons, List.append_assoc, List.append_assoc,
        List.singleton_append, completeLines_cons hline, ih hrest, List.cons_append]

theorem linesPrinted_snoc (connId : ℕ) (lines : List (List Char)) (line : List Char) :
    linesPrinted connId (lines ++ [line]) =
      linesPrinted connId lines ++
        [lineText connId ((lines.length + 1) % 2 ^ 32) (stripEol line)] := by
  simp [linesPrinted, List.mapIdx_concat]

theorem replies_snoc {lines : List (List Char)} {stamps : List (List Char)}
    (hlength : lines.length = stamps.length) (line stamp : List Char) :
    (List.zipWith replyTo (lines ++ [line]) (stamps ++ [stamp])).flatten =
      (List.zipWith replyTo lines stamps).flatten ++ replyTo line stamp := by
  rw [List.zipWith_append hlength]
  simp

end Text

section Connections

def SessionPc.rest : SessionPc → List Char
  | .writing _ rest => rest
  | .reading | .returned => []

/-- Where a session is when it has taken these lines and is done with so many of them. -/
def Place (lines : List (List Char)) (done : ℕ) (c : Connection) : Prop :=
  match c.session with
  | .reading => done = lines.length ∧ c.down.ended = false
  | .writing line rest => rest ≠ [] ∧ c.down.ended = false ∧
      ∃ before last, lines = before ++ [last] ∧ done = before.length ∧ line = stripEol last
  | .returned => c.lost = false →
      done = lines.length ∧ c.up.ended = true ∧ c.up.buffer = [] ∧ '\n' ∉ c.buf

/-- What the session says at its end. -/
def closing (c : Connection) : List (List Char) :=
  match c.session with
  | .reading | .writing _ _ => []
  | .returned => [closedText c.connId c.served]

/-- The account of a connection: the lines that were taken from it, and how many of them
the session is done with. -/
structure Account (room connId : ℕ) (peer : List Char) (events : List ConnectionEvent)
    (c : Connection) (lines : List (List Char)) (done : ℕ) : Prop where
  connId_eq : c.connId = connId
  room_eq : c.down.capacity = room
  ended_of_lost : c.lost = true → c.up.ended = true
  single : ∀ line ∈ lines, '\n' ∉ line
  stamped : lines.length = (stampsOf events).length
  sent : sentText events =
    (lines.map fun line => line ++ ['\n']).flatten ++ (c.buf ++ c.up.buffer)
  replied : ∃ missing, c.received ++ c.down.buffer ++ c.session.rest ++ missing =
    (List.zipWith replyTo lines (stampsOf events)).flatten ∧
    (missing ≠ [] → c.lost = true ∧ c.session = .returned)
  done_le : done ≤ lines.length
  served : c.served = done % 2 ^ 32
  printed : c.printed =
    acceptedText connId peer :: linesPrinted connId (lines.take done) ++ closing c
  place : Place lines done c

variable {room connId : ℕ} {peer : List Char} {events : List ConnectionEvent}
  {event : ConnectionEvent} {c c' : Connection} {lines : List (List Char)} {done : ℕ}

theorem account_accepted (room connId : ℕ) (peer : List Char) :
    Account room connId peer [] (.accepted room connId peer) [] 0 where
  connId_eq := rfl
  room_eq := rfl
  ended_of_lost := by simp [Connection.accepted]
  single := by simp
  stamped := rfl
  sent := rfl
  replied := ⟨[], rfl, by simp⟩
  done_le := le_rfl
  served := rfl
  printed := rfl
  place := ⟨rfl, rfl⟩

section Account

variable (h : Account room connId peer events c lines done)

include h in
theorem Account.clientSends {text : List Char} (hstep : c.step (.clientSends text) = some c') :
    Account room connId peer (events ++ [.clientSends text]) c' lines done := by
  simp only [Connection.step] at hstep
  split at hstep
  · cases hstep
  obtain ⟨up, hsend, heq⟩ := Option.bind_eq_some_iff.mp hstep
  cases heq
  obtain ⟨hbuffer, hended, -⟩ := ByteStream.send_spec hsend
  have hopen := ByteStream.open_of_send hsend
  exact
    { connId_eq := h.connId_eq
      room_eq := h.room_eq
      ended_of_lost := fun hlost => hended.trans (h.ended_of_lost hlost)
      single := h.single
      stamped := by simpa [ConnectionEvent.stamp] using h.stamped
      sent := by
        rw [sentText_snoc, h.sent, hbuffer]
        simp [ConnectionEvent.sent]
      replied := by simpa [ConnectionEvent.stamp] using h.replied
      done_le := h.done_le
      served := h.served
      printed := h.printed
      place := by
        have hplace := h.place
        unfold Place at hplace ⊢
        cases hsession : c.session with
        | reading => simpa [hsession] using hplace
        | writing line rest => simpa [hsession] using hplace
        | returned =>
            simp only [hsession] at hplace ⊢
            intro hlost
            have hclosed := (hplace hlost).2.1
            rw [hopen] at hclosed
            cases hclosed }

include h in
theorem Account.clientCloses (hstep : c.step .clientCloses = some c') :
    Account room connId peer (events ++ [.clientCloses]) c' lines done := by
  obtain ⟨-, heq⟩ := Option.ite_none_left_eq_some.mp hstep
  cases heq
  exact
    { connId_eq := h.connId_eq
      room_eq := h.room_eq
      ended_of_lost := fun _ => rfl
      single := h.single
      stamped := by simpa [ConnectionEvent.stamp] using h.stamped
      sent := by simpa [ConnectionEvent.sent] using h.sent
      replied := by simpa [ConnectionEvent.stamp] using h.replied
      done_le := h.done_le
      served := h.served
      printed := h.printed
      place := by
        have hplace := h.place
        unfold Place at hplace ⊢
        cases hsession : c.session with
        | reading => simpa [hsession] using hplace
        | writing line rest => simpa [hsession] using hplace
        | returned =>
            simp only [hsession] at hplace ⊢
            intro hlost
            obtain ⟨hdone, -, hrest⟩ := hplace hlost
            exact ⟨hdone, rfl, hrest⟩ }

include h in
theorem Account.clientLost (hstep : c.step .clientLost = some c') :
    Account room connId peer (events ++ [.clientLost]) c' lines done := by
  obtain ⟨-, heq⟩ := Option.ite_none_left_eq_some.mp hstep
  cases heq
  obtain ⟨missing, hreplied, hmissing⟩ := h.replied
  exact
    { connId_eq := h.connId_eq
      room_eq := h.room_eq
      ended_of_lost := fun _ => rfl
      single := h.single
      stamped := by simpa [ConnectionEvent.stamp] using h.stamped
      sent := by simpa [ConnectionEvent.sent] using h.sent
      replied := ⟨missing, by simpa [ConnectionEvent.stamp] using hreplied,
        fun hne => ⟨rfl, (hmissing hne).2⟩⟩
      done_le := h.done_le
      served := h.served
      printed := h.printed
      place := by
        have hplace := h.place
        unfold Place at hplace ⊢
        cases hsession : c.session with
        | reading => simpa [hsession] using hplace
        | writing line rest => simpa [hsession] using hplace
        | returned => simp }

include h in
theorem Account.sessionReads {count : ℕ} (hstep : c.step (.sessionReads count) = some c') :
    Account room connId peer (events ++ [.sessionReads count]) c' lines done := by
  cases hsession : c.session with
  | writing line rest => simp [Connection.step, hsession] at hstep
  | returned => simp [Connection.step, hsession] at hstep
  | reading =>
      simp only [Connection.step, hsession] at hstep
      split at hstep
      · cases hstep
      obtain ⟨⟨text, up⟩, hreceive, heq⟩ := Option.bind_eq_some_iff.mp hstep
      cases heq
      obtain ⟨hbuffer, -, hended, -⟩ := ByteStream.receive_spec hreceive
      have hplace := h.place
      have hprinted := h.printed
      unfold Place at hplace
      unfold closing at hprinted
      simp only [hsession] at hplace hprinted
      exact
        { connId_eq := h.connId_eq
          room_eq := h.room_eq
          ended_of_lost := fun hlost => hended.trans (h.ended_of_lost hlost)
          single := h.single
          stamped := by simpa [ConnectionEvent.stamp] using h.stamped
          sent := by
            rw [sentText_snoc, h.sent, hbuffer]
            simp [ConnectionEvent.sent]
          replied := by simpa [ConnectionEvent.stamp, hsession] using h.replied
          done_le := h.done_le
          served := h.served
          printed := by simpa [closing, hsession] using hprinted
          place := by simpa [Place, hsession] using hplace }

include h in
/-- A line is taken out of the buffer, and its reply is to be written. -/
theorem Account.lineComplete {stamp : List Char} (hstep : c.step (.lineComplete stamp) = some c') :
    ∃ line,
      Account room connId peer (events ++ [.lineComplete stamp]) c' (lines ++ [line]) done := by
  cases hsession : c.session with
  | writing line rest => simp [Connection.step, hsession] at hstep
  | returned => simp [Connection.step, hsession] at hstep
  | reading =>
      simp only [Connection.step, hsession] at hstep
      split at hstep
      · cases hstep
      obtain ⟨⟨line, rest⟩, htake, heq⟩ := Option.bind_eq_some_iff.mp hstep
      cases heq
      obtain ⟨hbuf, hline⟩ := takeLine_spec htake
      have hplace := h.place
      have hprinted := h.printed
      unfold Place at hplace
      unfold closing at hprinted
      simp only [hsession] at hplace hprinted
      obtain ⟨hdone, hopen⟩ := hplace
      obtain ⟨missing, hreplied, hmissing⟩ := h.replied
      obtain rfl : missing = [] := by
        by_contra hne
        cases hsession.symm.trans (hmissing hne).2
      rw [hsession, SessionPc.rest, List.append_nil, List.append_nil] at hreplied
      refine ⟨line, ?_⟩
      exact
        { connId_eq := h.connId_eq
          room_eq := h.room_eq
          ended_of_lost := h.ended_of_lost
          single := by
            intro other hother
            rcases List.mem_append.mp hother with hold | hnew
            · exact h.single other hold
            · rwa [List.mem_singleton.mp hnew]
          stamped := by simp [ConnectionEvent.stamp, h.stamped]
          sent := by
            rw [sentText_snoc, h.sent, hbuf]
            simp [ConnectionEvent.sent]
          replied := by
            refine ⟨[], ?_, fun hne => absurd rfl hne⟩
            rw [stampsOf_snoc, ConnectionEvent.stamp, Option.toList_some,
              replies_snoc h.stamped, ← hreplied, List.append_nil, SessionPc.rest, replyTo,
              stripEol_newline]
          done_le := by
            rw [List.length_append]
            omega
          served := h.served
          printed := by
            rw [List.take_append_of_le_length hdone.le]
            simpa [closing] using hprinted
          place := by
            refine ⟨by simp [replyText], hopen, lines, line, rfl, hdone, ?_⟩
            exact stripEol_newline line }

include h in
/-- The reply is written, and the line is done with when all of it is. -/
theorem Account.sessionWrites {count : ℕ} (hstep : c.step (.sessionWrites count) = some c') :
    ∃ done', Account room connId peer (events ++ [.sessionWrites count]) c' lines done' := by
  cases hsession : c.session with
  | reading => simp [Connection.step, hsession] at hstep
  | returned => simp [Connection.step, hsession] at hstep
  | writing line rest =>
      simp only [Connection.step, hsession] at hstep
      split at hstep
      · cases hstep
      obtain ⟨down, hsend, heq⟩ := Option.bind_eq_some_iff.mp hstep
      obtain ⟨hbuffer, hended, hcapacity⟩ := ByteStream.send_spec hsend
      have hplace := h.place
      have hprinted := h.printed
      unfold Place at hplace
      unfold closing at hprinted
      simp only [hsession, List.append_nil] at hplace hprinted
      obtain ⟨-, hopen, before, last, hlines, hdone, hline⟩ := hplace
      obtain ⟨missing, hreplied, hmissing⟩ := h.replied
      obtain rfl : missing = [] := by
        by_contra hne
        cases hsession.symm.trans (hmissing hne).2
      have hmoved : c.received ++ down.buffer ++ rest.drop count =
          (List.zipWith replyTo lines (stampsOf events)).flatten := by
        rw [← hreplied, hsession, SessionPc.rest, hbuffer, List.append_nil, List.append_assoc,
          List.append_assoc, List.take_append_drop, List.append_assoc]
      rcases eq_or_ne (rest.drop count) [] with hnil | hsome
      · rw [Connection.afterWrite, if_pos hnil] at heq
        cases heq
        refine ⟨done + 1, ?_⟩
        exact
          { connId_eq := h.connId_eq
            room_eq := hcapacity.trans h.room_eq
            ended_of_lost := h.ended_of_lost
            single := h.single
            stamped := by simpa [ConnectionEvent.stamp] using h.stamped
            sent := by simpa [ConnectionEvent.sent] using h.sent
            replied := by
              refine ⟨[], ?_, fun hne => absurd rfl hne⟩
              simpa [ConnectionEvent.stamp, SessionPc.rest, hnil] using hmoved
            done_le := by
              rw [hlines, List.length_append, List.length_singleton, hdone]
            served := by
              change nextUnsigned c.served = _
              rw [h.served, nextUnsigned_mod]
            printed := by
              have hall : lines.take (done + 1) = before ++ [last] := by
                rw [hlines, hdone, List.take_of_length_le (by simp)]
              have hbefore : lines.take done = before := by
                rw [hlines, hdone, List.take_left]
              rw [hbefore] at hprinted
              simp only [closing, List.append_nil]
              rw [hall, linesPrinted_snoc, ← hdone, ← nextUnsigned_mod, ← h.served, ← hline,
                hprinted, h.connId_eq, List.cons_append]
            place := by
              refine ⟨?_, hended.trans hopen⟩
              rw [hlines, List.length_append, List.length_singleton, hdone] }
      · rw [Connection.afterWrite, if_neg hsome] at heq
        cases heq
        refine ⟨done, ?_⟩
        exact
          { connId_eq := h.connId_eq
            room_eq := hcapacity.trans h.room_eq
            ended_of_lost := h.ended_of_lost
            single := h.single
            stamped := by simpa [ConnectionEvent.stamp] using h.stamped
            sent := by simpa [ConnectionEvent.sent] using h.sent
            replied := by
              refine ⟨[], ?_, fun hne => absurd rfl hne⟩
              simpa [ConnectionEvent.stamp, SessionPc.rest] using hmoved
            done_le := h.done_le
            served := h.served
            printed := by simpa [closing] using hprinted
            place := ⟨hsome, hended.trans hopen, before, last, hlines, hdone, hline⟩ }

include h in
theorem Account.closes (hmissing : c.session.rest ≠ [] → c.lost = true)
    (hopen : c.session ≠ .returned)
    (hend : c.lost = false →
      done = lines.length ∧ c.up.ended = true ∧ c.up.buffer = [] ∧ '\n' ∉ c.buf) :
    Account room connId peer (events ++ [.sessionFails]) c.close lines done where
  connId_eq := h.connId_eq
  room_eq := h.room_eq
  ended_of_lost := h.ended_of_lost
  single := h.single
  stamped := by simpa [ConnectionEvent.stamp] using h.stamped
  sent := by simpa [ConnectionEvent.sent, Connection.close] using h.sent
  replied := by
    obtain ⟨missing, hreplied, hnone⟩ := h.replied
    obtain rfl : missing = [] := by
      by_contra hne
      exact hopen (hnone hne).2
    refine ⟨c.session.rest, ?_, fun hne => ⟨hmissing hne, rfl⟩⟩
    simpa [ConnectionEvent.stamp, Connection.close, SessionPc.rest] using hreplied
  done_le := h.done_le
  served := h.served
  printed := by
    have hprinted := h.printed
    have hclosing : closing c = [] := by
      unfold closing
      cases hsession : c.session with
      | reading => rfl
      | writing line rest => rfl
      | returned => exact absurd hsession hopen
    rw [hclosing, List.append_nil] at hprinted
    change c.printed ++ [closedText c.connId c.served] = _
    rw [hprinted]
    rfl
  place := hend

include h in
theorem Account.sessionFails (hstep : c.step .sessionFails = some c') :
    Account room connId peer (events ++ [.sessionFails]) c' lines done := by
  have hplace := h.place
  unfold Place at hplace
  cases hsession : c.session with
  | reading =>
      simp only [Connection.step, hsession] at hstep
      obtain ⟨⟨hline, hcause⟩, heq⟩ := Option.ite_none_right_eq_some.mp hstep
      cases heq
      simp only [hsession] at hplace
      refine h.closes (by simp [hsession, SessionPc.rest]) (by simp [hsession]) ?_
      intro hlost
      rcases hcause with ⟨hended, hnil⟩ | hgone
      · exact ⟨hplace.1, hended, hnil, hline⟩
      · rw [hlost] at hgone
        cases hgone
  | writing line rest =>
      simp only [Connection.step, hsession] at hstep
      obtain ⟨hgone, heq⟩ := Option.ite_none_right_eq_some.mp hstep
      cases heq
      refine h.closes (fun _ => hgone) (by simp [hsession]) ?_
      intro hlost
      rw [hlost] at hgone
      cases hgone
  | returned => simp [Connection.step, hsession] at hstep

include h in
theorem Account.clientReceives {count : ℕ} (hstep : c.step (.clientReceives count) = some c') :
    Account room connId peer (events ++ [.clientReceives count]) c' lines done := by
  simp only [Connection.step] at hstep
  split at hstep
  · cases hstep
  obtain ⟨⟨text, down⟩, hreceive, heq⟩ := Option.bind_eq_some_iff.mp hstep
  cases heq
  obtain ⟨hbuffer, -, hended, hcapacity⟩ := ByteStream.receive_spec hreceive
  exact
    { connId_eq := h.connId_eq
      room_eq := hcapacity.trans h.room_eq
      ended_of_lost := h.ended_of_lost
      single := h.single
      stamped := by simpa [ConnectionEvent.stamp] using h.stamped
      sent := by simpa [ConnectionEvent.sent] using h.sent
      replied := by simpa [ConnectionEvent.stamp, hbuffer] using h.replied
      done_le := h.done_le
      served := h.served
      printed := h.printed
      place := by simpa [Place, hended] using h.place }

include h in
theorem Account.step (hstep : c.step event = some c') :
    ∃ lines' done', Account room connId peer (events ++ [event]) c' lines' done' := by
  cases event with
  | clientSends text => exact ⟨lines, done, h.clientSends hstep⟩
  | clientCloses => exact ⟨lines, done, h.clientCloses hstep⟩
  | clientLost => exact ⟨lines, done, h.clientLost hstep⟩
  | sessionReads count => exact ⟨lines, done, h.sessionReads hstep⟩
  | lineComplete stamp =>
      obtain ⟨line, hline⟩ := h.lineComplete hstep
      exact ⟨lines ++ [line], done, hline⟩
  | sessionWrites count =>
      obtain ⟨done', hdone⟩ := h.sessionWrites hstep
      exact ⟨lines, done', hdone⟩
  | sessionFails => exact ⟨lines, done, h.sessionFails hstep⟩
  | clientReceives count => exact ⟨lines, done, h.clientReceives hstep⟩

include h in
/-- The lines that were taken are the first complete lines of what was sent. -/
theorem Account.completeLines_sent :
    completeLines (sentText events) = lines ++ completeLines (c.buf ++ c.up.buffer) := by
  rw [h.sent, completeLines_flatten h.single]

include h in
theorem Account.replies_sent :
    replies (sentText events) (stampsOf events) =
      (List.zipWith replyTo lines (stampsOf events)).flatten := by
  have hzip : List.zipWith replyTo (lines ++ completeLines (c.buf ++ c.up.buffer))
      (stampsOf events ++ []) = _ := List.zipWith_append h.stamped
  rw [List.append_nil, List.zipWith_nil_right, List.append_nil] at hzip
  rw [replies, h.completeLines_sent, hzip]

end Account

theorem returned_of_step (hreturned : c.session = .returned) (hstep : c.step event = some c') :
    c'.session = .returned := by
  cases event with
  | clientSends text =>
      simp only [Connection.step] at hstep
      split at hstep
      · cases hstep
      obtain ⟨up, -, heq⟩ := Option.bind_eq_some_iff.mp hstep
      cases heq
      exact hreturned
  | clientCloses =>
      obtain ⟨-, heq⟩ := Option.ite_none_left_eq_some.mp hstep
      cases heq
      exact hreturned
  | clientLost =>
      obtain ⟨-, heq⟩ := Option.ite_none_left_eq_some.mp hstep
      cases heq
      exact hreturned
  | clientReceives count =>
      simp only [Connection.step] at hstep
      split at hstep
      · cases hstep
      obtain ⟨⟨text, down⟩, -, heq⟩ := Option.bind_eq_some_iff.mp hstep
      cases heq
      exact hreturned
  | sessionReads _ | lineComplete _ | sessionWrites _ | sessionFails =>
      simp [Connection.step, hreturned] at hstep

/-- The steps that are left on a connection: a line of a stream is worth its reply. -/
def Connection.work (c : Connection) : ℕ :=
  105 * c.up.buffer.length + 104 * c.buf.length + 2 * c.session.rest.length +
    c.down.buffer.length + if c.session = .returned then 0 else 1

theorem close_work_lt (hopen : c.session ≠ .returned) : c.close.work < c.work := by
  simp only [Connection.work, Connection.close, SessionPc.rest, if_neg hopen, List.length_nil,
    ByteStream.shutdown_buffer]
  simp

theorem work_lt (hpending : event.Pending) (hstep : c.step event = some c') :
    c'.work < c.work := by
  cases event with
  | clientSends text => exact hpending.elim
  | clientCloses => exact hpending.elim
  | clientLost => exact hpending.elim
  | sessionReads count =>
      cases hsession : c.session with
      | writing line rest => simp [Connection.step, hsession] at hstep
      | returned => simp [Connection.step, hsession] at hstep
      | reading =>
          simp only [Connection.step, hsession] at hstep
          split at hstep
          · cases hstep
          next hcount =>
          obtain ⟨⟨text, up⟩, hreceive, heq⟩ := Option.bind_eq_some_iff.mp hstep
          cases heq
          obtain ⟨hbuffer, hlength, -, -⟩ := ByteStream.receive_spec hreceive
          have hpos : 0 < count := Nat.pos_of_ne_zero fun hzero => hcount (.inl hzero)
          simp only [Connection.work, hsession, hbuffer, List.length_append]
          omega
  | lineComplete stamp =>
      cases hsession : c.session with
      | writing line rest => simp [Connection.step, hsession] at hstep
      | returned => simp [Connection.step, hsession] at hstep
      | reading =>
          simp only [Connection.step, hsession] at hstep
          split at hstep
          · cases hstep
          next hstamp =>
          obtain ⟨⟨line, rest⟩, htake, heq⟩ := Option.bind_eq_some_iff.mp hstep
          cases heq
          have hbuf := congrArg List.length (takeLine_spec htake).1
          have hstrip := stripEol_length_le line
          have hsize : stamp.length < 48 := not_not.mp hstamp
          have hreply : (replyText (stripEol (line ++ ['\n'])) stamp).length =
              (stripEol line).length + stamp.length + 4 := by
            simp [replyText, stripEol_newline]
            omega
          simp only [List.length_append, List.length_cons] at hbuf
          simp only [Connection.work, hsession, SessionPc.rest, hreply]
          simp
          omega
  | sessionWrites count =>
      cases hsession : c.session with
      | reading => simp [Connection.step, hsession] at hstep
      | returned => simp [Connection.step, hsession] at hstep
      | writing line rest =>
          simp only [Connection.step, hsession] at hstep
          split at hstep
          · cases hstep
          next hcount =>
          obtain ⟨hpos, hle⟩ := not_not.mp hcount
          obtain ⟨down, hsend, heq⟩ := Option.bind_eq_some_iff.mp hstep
          have hbuffer := (ByteStream.send_spec hsend).1
          have hlength : (rest.take count).length + (rest.drop count).length = rest.length := by
            rw [← List.length_append, List.take_append_drop]
          have htake := List.length_take_of_le hle
          rcases eq_or_ne (rest.drop count) [] with hnil | hsome
          · rw [Connection.afterWrite, if_pos hnil] at heq
            cases heq
            simp only [Connection.work, hsession, SessionPc.rest, hbuffer, List.length_append]
            simp
            omega
          · rw [Connection.afterWrite, if_neg hsome] at heq
            cases heq
            simp only [Connection.work, hsession, SessionPc.rest, hbuffer, List.length_append]
            simp
            omega
  | sessionFails =>
      cases hsession : c.session with
      | reading =>
          simp only [Connection.step, hsession] at hstep
          obtain ⟨-, heq⟩ := Option.ite_none_right_eq_some.mp hstep
          cases heq
          exact close_work_lt (by simp [hsession])
      | writing line rest =>
          simp only [Connection.step, hsession] at hstep
          obtain ⟨-, heq⟩ := Option.ite_none_right_eq_some.mp hstep
          cases heq
          exact close_work_lt (by simp [hsession])
      | returned => simp [Connection.step, hsession] at hstep
  | clientReceives count =>
      simp only [Connection.step] at hstep
      split at hstep
      · cases hstep
      next hcount =>
      obtain ⟨⟨text, down⟩, hreceive, heq⟩ := Option.bind_eq_some_iff.mp hstep
      cases heq
      obtain ⟨hbuffer, hlength, -, -⟩ := ByteStream.receive_spec hreceive
      have hpos : 0 < count := Nat.pos_of_ne_zero fun hzero => hcount (.inr hzero)
      simp only [Connection.work, hbuffer, List.length_append]
      omega

/-- Nothing is left to be done on the connection unless the client does something. -/
def Connection.Idle (c : Connection) : Prop :=
  ∀ event c', event.Pending → c.step event ≠ some c'

section Idle

variable (h : Account room connId peer events c lines done) (hidle : c.Idle)
  (hlost : c.lost = false)

include hidle hlost in
theorem Connection.Idle.received_all : c.down.buffer = [] := by
  by_contra hsome
  have hpos := List.length_pos_of_ne_nil hsome
  obtain ⟨text, down, hreceive⟩ := ByteStream.receive_of_le hpos
  refine hidle (.clientReceives 1) { c with down, received := c.received ++ text } trivial ?_
  simp [Connection.step, hlost, hreceive]

include h hidle hlost in
theorem Account.not_writing (hroom : 0 < room) {line rest : List Char} :
    c.session ≠ .writing line rest := by
  intro hsession
  have hplace := h.place
  unfold Place at hplace
  simp only [hsession] at hplace
  obtain ⟨hsome, hopen, -⟩ := hplace
  have hpos := List.length_pos_of_ne_nil hsome
  have hspace : c.down.buffer.length + (rest.take 1).length ≤ c.down.capacity := by
    rw [hidle.received_all hlost, h.room_eq, List.length_take, List.length_nil]
    omega
  obtain ⟨down, hsend⟩ := ByteStream.send_of_room hopen hspace
  refine hidle (.sessionWrites 1) ({ c with down }.afterWrite line (rest.drop 1)) trivial ?_
  simp [Connection.step, hsession, hsend, Nat.succ_le_of_lt hpos]

include hidle in
theorem Connection.Idle.reading (hsession : c.session = .reading) :
    '\n' ∉ c.buf ∧ c.up.buffer = [] ∧ c.up.ended = false := by
  have hline : '\n' ∉ c.buf := by
    intro hmem
    obtain ⟨⟨line, rest⟩, htake⟩ := Option.ne_none_iff_exists'.mp
      (mt takeLine_eq_none.mp (not_not.mpr hmem))
    have htext := stripEol_newline line
    refine hidle (.lineComplete [])
      { c with session := .writing (stripEol line) (replyTo line []), buf := rest } trivial ?_
    simp [Connection.step, hsession, htake, stampSize, htext, replyTo]
  have hnil : c.up.buffer = [] := by
    by_contra hsome
    have hpos := List.length_pos_of_ne_nil hsome
    obtain ⟨text, up, hreceive⟩ := ByteStream.receive_of_le hpos
    refine hidle (.sessionReads 1) { c with up, buf := c.buf ++ text } trivial ?_
    simp [Connection.step, hsession, hline, hreceive]
  refine ⟨hline, hnil, ?_⟩
  by_contra hended
  rw [Bool.not_eq_false] at hended
  refine hidle .sessionFails c.close trivial ?_
  simp [Connection.step, hsession, hline, hnil, hended]

/-- All lines are answered: the client has the replies, the session has printed all, and
it has returned if and only if the client has closed its end. -/
structure Answered (connId : ℕ) (peer : List Char) (events : List ConnectionEvent)
    (c : Connection) : Prop where
  stamps : (stampsOf events).length = (completeLines (sentText events)).length
  received : c.received = replies (sentText events) (stampsOf events)
  printed : c.printed = acceptedText connId peer ::
    linesPrinted connId (completeLines (sentText events)) ++ closing c
  returned : c.session = .returned ↔ c.up.ended = true

include h hidle hlost in
theorem Account.answered (hroom : 0 < room) : Answered connId peer events c := by
  have hplace := h.place
  have hprinted := h.printed
  have hdown := hidle.received_all hlost
  obtain ⟨missing, hreplied, hmissing⟩ := h.replied
  obtain rfl : missing = [] := by
    by_contra hne
    rw [hlost] at hmissing
    cases (hmissing hne).1
  unfold Place at hplace
  have hrest : done = lines.length ∧ c.session.rest = [] ∧ c.up.buffer = [] ∧ '\n' ∉ c.buf ∧
      (c.session = .returned ↔ c.up.ended = true) := by
    cases hsession : c.session with
    | reading =>
        simp only [hsession] at hplace
        obtain ⟨hline, hnil, hopen⟩ := hidle.reading hsession
        exact ⟨hplace.1, rfl, hnil, hline, by simp [hopen]⟩
    | writing line rest => exact absurd hsession (h.not_writing hidle hlost hroom)
    | returned =>
        simp only [hsession] at hplace
        obtain ⟨hdone, hended, hnil, hline⟩ := hplace hlost
        exact ⟨hdone, rfl, hnil, hline, by simp [hended]⟩
  obtain ⟨hdone, hwritten, hnil, hline, hreturned⟩ := hrest
  have hlines : completeLines (sentText events) = lines := by
    rw [h.completeLines_sent, hnil, List.append_nil, completeLines_of_not_mem hline,
      List.append_nil]
  exact
    { stamps := by rw [hlines, h.stamped]
      received := by
        rw [hdown, hwritten] at hreplied
        rw [h.replies_sent, ← hreplied]
        simp
      printed := by rw [hprinted, hlines, hdone, List.take_length]
      returned := hreturned }

end Idle

end Connections

section Server

def Event.onConnection (index : ℕ) : Event → Option ConnectionEvent
  | .on index' event => if index' = index then some event else none
  | .accepts _ => none

def Event.peer : Event → Option (List Char)
  | .accepts peer => some peer
  | .on _ _ => none

/-- What has happened on a connection. -/
def eventsOn (index : ℕ) (events : List Event) : List ConnectionEvent :=
  events.filterMap (Event.onConnection index)

/-- The clients, in the order in which they were accepted. -/
def peersOf (events : List Event) : List (List Char) := events.filterMap Event.peer

@[simp] theorem eventsOn_accepts (index : ℕ) (events : List Event) (peer : List Char) :
    eventsOn index (events ++ [.accepts peer]) = eventsOn index events := by
  simp [eventsOn, Event.onConnection]

@[simp] theorem eventsOn_on (index : ℕ) (events : List Event) (event : ConnectionEvent) :
    eventsOn index (events ++ [.on index event]) = eventsOn index events ++ [event] := by
  simp [eventsOn, Event.onConnection]

theorem eventsOn_other {index index' : ℕ} (hne : index' ≠ index) (events : List Event)
    (event : ConnectionEvent) :
    eventsOn index (events ++ [.on index' event]) = eventsOn index events := by
  simp [eventsOn, Event.onConnection, hne]

@[simp] theorem peersOf_accepts (events : List Event) (peer : List Char) :
    peersOf (events ++ [.accepts peer]) = peersOf events ++ [peer] := by
  simp [peersOf, Event.peer]

@[simp] theorem peersOf_on (events : List Event) (index : ℕ) (event : ConnectionEvent) :
    peersOf (events ++ [.on index event]) = peersOf events := by
  simp [peersOf, Event.peer]

/-- The server has an account of each connection, and its sessions are waited for. -/
structure Serving (room : ℕ) (events : List Event) (s : Server) : Prop where
  peers : (peersOf events).length = s.connections.length
  connId_eq : s.connId = (s.connections.length + 1) % 2 ^ 32
  accounts : ∀ index c, s.connections[index]? = some c → ∃ peer lines done,
    (peersOf events)[index]? = some peer ∧
      Account room ((index + 1) % 2 ^ 32) peer (eventsOn index events) c lines done
  silent : ∀ index, s.connections.length ≤ index → eventsOn index events = []
  sessions_nodup : s.sessions.Nodup
  sessions_lt : ∀ index ∈ s.sessions, index < s.connections.length
  running : ∀ index < s.connections.length, s.returned index = false → index ∈ s.sessions

variable {room : ℕ} {events : List Event} {event : Event} {s s' : Server}

theorem serving_initial (room : ℕ) : Serving room [] {} where
  peers := rfl
  connId_eq := rfl
  accounts := by simp
  silent _ _ := rfl
  sessions_nodup := List.nodup_nil
  sessions_lt := by simp
  running := by simp

theorem returned_append {index : ℕ} (hindex : index < s.connections.length) (c : Connection)
    (connId : ℕ) (sessions : List ℕ) :
    Server.returned ⟨s.connections ++ [c], connId, sessions⟩ index = s.returned index := by
  simp [Server.returned, List.getElem?_append_left hindex]

theorem Serving.accepts (h : Serving room events s) {peer : List Char}
    (hstep : s.step room (.accepts peer) = some s') :
    Serving room (events ++ [.accepts peer]) s' := by
  cases hstep
  exact
    { peers := by simp [h.peers]
      connId_eq := by
        rw [List.length_append, List.length_singleton]
        change nextUnsigned s.connId = _
        rw [h.connId_eq, nextUnsigned_mod]
      accounts := by
        intro index c hc
        rcases Nat.lt_trichotomy index s.connections.length with hold | hnew | hbeyond
        · rw [List.getElem?_append_left hold] at hc
          obtain ⟨peer', lines, done, hpeer, haccount⟩ := h.accounts index c hc
          refine ⟨peer', lines, done, ?_, ?_⟩
          · rw [peersOf_accepts, List.getElem?_append_left (by rwa [h.peers]), hpeer]
          · rwa [eventsOn_accepts]
        · rw [hnew, List.getElem?_concat_length] at hc
          cases hc
          refine ⟨peer, [], 0, ?_, ?_⟩
          · rw [peersOf_accepts, hnew, ← h.peers, List.getElem?_concat_length]
          · rw [eventsOn_accepts, h.silent index hnew.ge, h.connId_eq, hnew]
            exact account_accepted room _ peer
        · rw [List.getElem?_eq_none (by simp; omega)] at hc
          cases hc
      silent := by
        intro index hindex
        rw [List.length_append, List.length_singleton] at hindex
        rw [eventsOn_accepts]
        exact h.silent index (by omega)
      sessions_nodup := by
        refine (h.sessions_nodup.filter _).append (List.nodup_singleton _) ?_
        refine List.disjoint_singleton.mpr ?_
        intro hmem
        have hlt := h.sessions_lt _ (List.mem_of_mem_filter hmem)
        omega
      sessions_lt := by
        intro index hmem
        rw [List.length_append, List.length_singleton]
        rcases List.mem_append.mp hmem with hold | hnew
        · have hlt := h.sessions_lt index (List.mem_of_mem_filter hold)
          omega
        · rw [List.mem_singleton.mp hnew]
          omega
      running := by
        intro index hindex hrunning
        rw [List.length_append, List.length_singleton] at hindex
        rcases Nat.lt_succ_iff_lt_or_eq.mp hindex with hold | hnew
        · rw [returned_append hold] at hrunning
          exact List.mem_append_left _
            (List.mem_filter.mpr ⟨h.running index hold hrunning, by simp [hrunning]⟩)
        · rw [hnew]
          exact List.mem_append_right _ (List.mem_singleton_self _) }

theorem step_on {index : ℕ} {event : ConnectionEvent}
    (hstep : s.step room (.on index event) = some s') :
    ∃ c c', s.connections[index]? = some c ∧ c.step event = some c' ∧
      s' = { s with connections := s.connections.set index c' } := by
  obtain ⟨c, hc, hrest⟩ := Option.bind_eq_some_iff.mp hstep
  obtain ⟨c', hc', heq⟩ := Option.bind_eq_some_iff.mp hrest
  cases heq
  exact ⟨c, c', hc, hc', rfl⟩

theorem Serving.on (h : Serving room events s) {index : ℕ} {event : ConnectionEvent}
    (hstep : s.step room (.on index event) = some s') :
    Serving room (events ++ [.on index event]) s' := by
  obtain ⟨c, c', hc, hconnection, rfl⟩ := step_on hstep
  have hindex := (List.getElem?_eq_some_iff.mp hc).1
  exact
    { peers := by simp [h.peers]
      connId_eq := by simpa using h.connId_eq
      accounts := by
        intro other d hd
        rcases eq_or_ne index other with rfl | hne
        · rw [List.getElem?_set_self hindex] at hd
          cases hd
          obtain ⟨peer, lines, done, hpeer, haccount⟩ := h.accounts index c hc
          obtain ⟨lines', done', haccount'⟩ := haccount.step hconnection
          refine ⟨peer, lines', done', ?_, ?_⟩
          · rwa [peersOf_on]
          · rwa [eventsOn_on]
        · rw [List.getElem?_set_ne hne] at hd
          rw [peersOf_on, eventsOn_other hne]
          exact h.accounts other d hd
      silent := by
        intro other hother
        rw [List.length_set] at hother
        have hne : index ≠ other := by omega
        rw [eventsOn_other hne]
        exact h.silent other hother
      sessions_nodup := h.sessions_nodup
      sessions_lt := by simpa using h.sessions_lt
      running := by
        intro other hother hrunning
        rw [List.length_set] at hother
        refine h.running other hother ?_
        rcases eq_or_ne index other with rfl | hne
        · by_contra hreturned
          simp only [Server.returned, hc, Bool.not_eq_false, Option.map_some,
            decide_eq_true_eq, Option.some.injEq] at hreturned
          have hstays := returned_of_step hreturned hconnection
          simp [Server.returned, List.getElem?_set_self hindex, hstays] at hrunning
        · simpa [Server.returned, List.getElem?_set_ne hne] using hrunning }

theorem serving_of_run (hrun : (server room).Run {} events s) : Serving room events s := by
  refine hrun.preserves_history (I := Serving room) ?_ (serving_initial room)
  intro events s event s' h hstep
  cases event with
  | accepts peer => exact h.accepts hstep
  | on index event => exact h.on hstep

/-- The steps that are left when the clients do nothing. -/
def Server.work (s : Server) : ℕ := (s.connections.map Connection.work).sum

theorem Server.work_lt (hpending : event.Pending) (hstep : s.step room event = some s') :
    s'.work < s.work := by
  cases event with
  | accepts peer => exact hpending.elim
  | on index event =>
      obtain ⟨c, c', hc, hconnection, rfl⟩ := step_on hstep
      obtain ⟨hindex, hget⟩ := List.getElem?_eq_some_iff.mp hc
      have hless := EchoServer.work_lt hpending hconnection
      have hbefore : s.connections =
          s.connections.take index ++ c :: s.connections.drop (index + 1) := by
        rw [← hget, List.getElem_cons_drop, List.take_append_drop]
      have hsplit := congrArg (fun all => (all.map Connection.work).sum) hbefore
      simp only [List.map_append, List.map_cons, List.sum_append, List.sum_cons] at hsplit
      simp only [Server.work, List.set_eq_take_append_cons_drop, if_pos hindex, List.map_append,
        List.map_cons, List.sum_append, List.sum_cons]
      omega

/-- What holds of a connection at any time: the client has a part of the replies to its
complete lines, in their order, and the session returns only when it has answered all of
them and the client has closed its end, or when the client is lost. -/
structure Served (connId : ℕ) (peer : List Char) (events : List ConnectionEvent)
    (c : Connection) : Prop where
  stamps : (stampsOf events).length ≤ (completeLines (sentText events)).length
  received : c.received <+: replies (sentText events) (stampsOf events)
  printed : ∃ done ≤ (stampsOf events).length, c.printed = acceptedText connId peer ::
    linesPrinted connId ((completeLines (sentText events)).take done) ++
      if c.session = .returned then [closedText connId (done % 2 ^ 32)] else []
  returned : c.session = .returned → c.lost = false → c.up.ended = true ∧
    c.received ++ c.down.buffer = replies (sentText events) (stampsOf events) ∧
    (stampsOf events).length = (completeLines (sentText events)).length

theorem Account.served_connection {connId : ℕ} {peer : List Char} {events : List ConnectionEvent}
    {c : Connection} {lines : List (List Char)} {done : ℕ}
    (h : Account room connId peer events c lines done) : Served connId peer events c where
  stamps := by
    rw [h.completeLines_sent, List.length_append, h.stamped]
    omega
  received := by
    obtain ⟨missing, hreplied, -⟩ := h.replied
    rw [h.replies_sent, ← hreplied, List.append_assoc, List.append_assoc]
    exact List.prefix_append _ _
  printed := by
    refine ⟨done, h.stamped ▸ h.done_le, ?_⟩
    rw [h.printed, h.completeLines_sent, List.take_append_of_le_length h.done_le]
    unfold closing
    cases hsession : c.session with
    | reading => simp
    | writing line rest => simp
    | returned => simp [h.connId_eq, h.served]
  returned := by
    intro hsession hlost
    have hplace := h.place
    unfold Place at hplace
    simp only [hsession] at hplace
    obtain ⟨-, hended, hnil, hline⟩ := hplace hlost
    obtain ⟨missing, hreplied, hmissing⟩ := h.replied
    obtain rfl : missing = [] := by
      by_contra hne
      rw [hlost] at hmissing
      cases (hmissing hne).1
    have hlines : completeLines (sentText events) = lines := by
      rw [h.completeLines_sent, hnil, List.append_nil, completeLines_of_not_mem hline,
        List.append_nil]
    refine ⟨hended, ?_, by rw [hlines, h.stamped]⟩
    rw [h.replies_sent, ← hreplied, hsession, SessionPc.rest, List.append_nil, List.append_nil]

theorem idle_of_stuck (hstuck : (unattended room).Stuck s) {index : ℕ} {c : Connection}
    (hc : s.connections[index]? = some c) : c.Idle := by
  intro event c' hpending hstep
  refine hstuck (.on index event) { s with connections := s.connections.set index c' }
    ⟨hpending, ?_⟩
  simp [server, Server.step, hc, hstep]

/-- Whatever happens on the other connections, each client gets the replies to its own
lines in their order; when the clients do nothing new, all are answered after finitely
many steps. -/
theorem echo_server_answers (hroom : 0 < room) (hrun : (server room).Run {} events s) :
    (∀ index c, s.connections[index]? = some c → ∃ peer, (peersOf events)[index]? = some peer ∧
      Served ((index + 1) % 2 ^ 32) peer (eventsOn index events) c ∧
      ((unattended room).Stuck s → c.lost = false →
        Answered ((index + 1) % 2 ^ 32) peer (eventsOn index events) c)) ∧
    (∀ more s', (unattended room).Run s more s' → more.length ≤ s.work) ∧
    s.sessions.Nodup ∧
    ∀ index < s.connections.length, s.returned index = false → index ∈ s.sessions := by
  have h := serving_of_run hrun
  refine ⟨?_, ?_, h.sessions_nodup, h.running⟩
  · intro index c hc
    obtain ⟨peer, lines, done, hpeer, haccount⟩ := h.accounts index c hc
    refine ⟨peer, hpeer, haccount.served_connection, ?_⟩
    intro hstuck hlost
    exact haccount.answered (idle_of_stuck hstuck hc) hlost hroom
  · intro more s' hmore
    have hless : ∀ s event s', True → (unattended room).step s event s' →
        True ∧ s'.work < s.work := by
      rintro s event s' - ⟨hpending, hstep⟩
      exact ⟨trivial, Server.work_lt hpending hstep⟩
    have hlength := hmore.length_le hless trivial
    omega

/-- Two clients, a line end in two parts and a line that is not complete. -/
theorem echo_server_answers_two : ∃ events s, (server 8).Run {} events s ∧
    (s.connections.map Connection.received) = ["".toList, "ab [now]\n".toList] ∧
    ∀ index c, s.connections[index]? = some c → ∃ peer, (peersOf events)[index]? = some peer ∧
      Served ((index + 1) % 2 ^ 32) peer (eventsOn index events) c := by
  let events : List Event :=
    [.accepts "here".toList, .accepts "there".toList, .on 1 (.clientSends "ab\r".toList),
      .on 1 (.sessionReads 3), .on 0 (.clientSends "c".toList), .on 1 (.clientSends "\nd".toList),
      .on 1 (.sessionReads 2), .on 0 .clientLost, .on 1 (.lineComplete "now".toList),
      .on 1 (.sessionWrites 4), .on 0 .sessionFails, .on 1 (.clientReceives 4),
      .on 1 (.sessionWrites 5), .on 1 (.clientReceives 5), .on 1 .clientCloses,
      .on 1 .sessionFails]
  have hsome : (events.foldlM (Server.step 8) {}).isSome = true := by decide
  obtain ⟨s, hs⟩ := Option.isSome_iff_exists.mp hsome
  have hreceived : (events.foldlM (Server.step 8) {}).map
      (fun s => s.connections.map Connection.received) =
        some ["".toList, "ab [now]\n".toList] := by decide
  rw [hs] at hreceived
  have hrun : (server 8).Run {} events s := Run.of_foldlM (fun _ _ _ hstep => hstep) hs
  obtain ⟨hserved, -⟩ := echo_server_answers (by decide) hrun
  refine ⟨events, s, hrun, Option.some.inj hreceived, ?_⟩
  intro index c hc
  obtain ⟨peer, hpeer, hone, -⟩ := hserved index c hc
  exact ⟨peer, hpeer, hone⟩

end Server

end CppWorkspace.Cobalt.EchoServer
