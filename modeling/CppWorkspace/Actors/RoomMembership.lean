import CppWorkspace.Actors.GameRoom

/-!
Who is a member of the game room. Members are kept by name, players by handle:
as long as no join meets a name in use, the two agree and the members are the
joined players whose callback has not run.
-/

namespace CppWorkspace.Actors.GameRoom

open Lib System

variable {P : Type*}

/-- The room has handled the join of `player`. -/
def Joined (labels : List (Act P)) (player : P) : Prop :=
  ∃ name, Act.handle (.join name player) ∈ labels

def RoomMsg.joiner : RoomMsg P → Option P
  | .join _ player => some player
  | .chat _ _ | .start _ | .tick => none

def Effect.registered : Effect P → Option (P × Name)
  | .monitor player name => some (player, name)
  | .send _ _ _ | .delayTick => none

/-- Nothing waits for the room: no message and no callback that is due. -/
def World.Settled (s : World P) : Prop :=
  s.mailbox = [] ∧ ∀ m ∈ s.monitors, s.phase m.1 ≠ .terminated

theorem broadcast_registered (room : RoomState P) (sender : Name) (text : List Char) :
    (room.broadcast sender text).filterMap Effect.registered = [] := by
  simp [RoomState.broadcast, List.filterMap_eq_nil_iff, Effect.registered]

/-- What handling a message does to the members and registers with the
runtime. -/
theorem receive_members (room : RoomState P) (message : RoomMsg P) :
    (∃ name player, message = .join name player ∧
      (room.receive message).1.members = room.members.emplace name player ∧
      (room.receive message).2.filterMap Effect.registered = [(player, name)]) ∨
    (message.joiner = none ∧ (room.receive message).1.members = room.members ∧
      (room.receive message).2.filterMap Effect.registered = []) := by
  cases message with
  | join name player =>
      refine Or.inl ⟨name, player, rfl, rfl, ?_⟩
      simp only [RoomState.receive, RoomState.onJoin, List.filterMap_cons, broadcast_registered]
      rfl
  | chat sender text => exact Or.inr ⟨rfl, rfl, broadcast_registered room sender text⟩
  | start rounds => exact Or.inr ⟨rfl, rfl, rfl⟩
  | tick =>
      refine Or.inr ⟨rfl, rfl, ?_⟩
      simp only [RoomState.receive, RoomState.onTick, List.filterMap_append, broadcast_registered]
      split <;> rfl

/-- The link between the members, the callbacks that have not run and the joins
on their way. -/
structure Tracked (name : P → Name) (labels : List (Act P)) (s : World P) : Prop where
  entry_name : ∀ e ∈ s.room.members.entries, e.1 = name e.2
  monitor_name : ∀ m ∈ s.monitors, m.2 = name m.1
  member_iff : ∀ player, (name player, player) ∈ s.room.members.entries ↔
    (player, name player) ∈ s.monitors
  monitors_nodup : s.monitors.Nodup
  monitored : ∀ m ∈ s.monitors, Joined labels m.1
  joined_born : ∀ player, Joined labels player → s.phase player ≠ .unborn
  joined_alive : ∀ player, Joined labels player → s.phase player = .alive →
    (player, name player) ∈ s.monitors
  joining : ∀ key player, RoomMsg.join key player ∈ s.mailbox →
    key = name player ∧ s.phase player ≠ .unborn ∧ ¬ Joined labels player
  joins_nodup : (s.mailbox.filterMap RoomMsg.joiner).Nodup

theorem tracked_initial (name : P → Name) : Tracked name [] ({} : World P) where
  entry_name := by simp [OrdMap.empty]
  monitor_name := by simp
  member_iff := by simp [OrdMap.empty]
  monitors_nodup := by simp
  monitored := by simp
  joined_born := by simp [Joined]
  joined_alive := by simp [Joined]
  joining := by simp
  joins_nodup := by simp

theorem joined_append_iff {labels : List (Act P)} {label : Act P}
    (hlabel : ∀ key player, label ≠ .handle (.join key player)) (player : P) :
    Joined (labels ++ [label]) player ↔ Joined labels player := by
  constructor
  · rintro ⟨key, hmem⟩
    rcases List.mem_append.mp hmem with hold | hnew
    · exact ⟨key, hold⟩
    · exact absurd (List.mem_singleton.mp hnew).symm (hlabel key player)
  · rintro ⟨key, hmem⟩
    exact ⟨key, List.mem_append_left _ hmem⟩

theorem playerReact_frame (s : World P) (name : P → Name) (player : P) (message : PlayerMsg) :
    (s.playerReact name player message).room = s.room ∧
      (s.playerReact name player message).phase = s.phase ∧
      (s.playerReact name player message).monitors = s.monitors ∧
      ∃ sent, (s.playerReact name player message).mailbox = s.mailbox ++ sent ∧
        sent.filterMap RoomMsg.joiner = [] := by
  cases message with
  | say text => exact ⟨rfl, rfl, rfl, [.chat (name player) text], rfl, rfl⟩
  | chat sender text => exact ⟨rfl, rfl, rfl, [], (List.append_nil _).symm, rfl⟩

theorem join_not_mem {key : Name} {player : P} {sent : List (RoomMsg P)}
    (h : sent.filterMap RoomMsg.joiner = []) : RoomMsg.join key player ∉ sent := by
  intro hmem
  have hnone := List.filterMap_eq_nil_iff.mp h _ hmem
  cases hnone

/-- A step that takes no join off the mailbox, runs no callback and brings
nobody to life. -/
theorem Tracked.frame {name : P → Name} {labels : List (Act P)} {s s' : World P} {label : Act P}
    (h : Tracked name labels s) (hlabel : ∀ key player, label ≠ .handle (.join key player))
    (hmembers : s'.room.members = s.room.members) (hmonitors : s'.monitors = s.monitors)
    (hborn : ∀ player, s.phase player ≠ .unborn → s'.phase player ≠ .unborn)
    (halive : ∀ player, s'.phase player = .alive → s.phase player ≠ .unborn →
      s.phase player = .alive)
    (hjoining : ∀ key player, RoomMsg.join key player ∈ s'.mailbox →
      RoomMsg.join key player ∈ s.mailbox)
    (hjoins : (s'.mailbox.filterMap RoomMsg.joiner).Nodup) :
    Tracked name (labels ++ [label]) s' where
  entry_name := by
    rw [hmembers]
    exact h.entry_name
  monitor_name := by
    rw [hmonitors]
    exact h.monitor_name
  member_iff := by
    rw [hmembers, hmonitors]
    exact h.member_iff
  monitors_nodup := by
    rw [hmonitors]
    exact h.monitors_nodup
  monitored := by
    intro m hm
    rw [hmonitors] at hm
    exact (joined_append_iff hlabel m.1).mpr (h.monitored m hm)
  joined_born := by
    intro player hjoined
    exact hborn player (h.joined_born player ((joined_append_iff hlabel player).mp hjoined))
  joined_alive := by
    intro player hjoined hphase
    have hold := (joined_append_iff hlabel player).mp hjoined
    rw [hmonitors]
    exact h.joined_alive player hold (halive player hphase (h.joined_born player hold))
  joining := by
    intro key player hmem
    obtain ⟨hkey, hphase, hnew⟩ := h.joining key player (hjoining key player hmem)
    refine ⟨hkey, hborn player hphase, ?_⟩
    intro hjoined
    exact hnew ((joined_append_iff hlabel player).mp hjoined)
  joins_nodup := hjoins

/-- Messages other than joins reach the mailbox. -/
theorem Tracked.sent {name : P → Name} {labels : List (Act P)} {s s' : World P} {label : Act P}
    {sent : List (RoomMsg P)} (h : Tracked name labels s)
    (hlabel : ∀ key player, label ≠ .handle (.join key player))
    (hroom : s'.room = s.room) (hphase : s'.phase = s.phase) (hmonitors : s'.monitors = s.monitors)
    (hmailbox : s'.mailbox = s.mailbox ++ sent) (hsent : sent.filterMap RoomMsg.joiner = []) :
    Tracked name (labels ++ [label]) s' := by
  apply h.frame hlabel
  · rw [hroom]
  · exact hmonitors
  · intro player hborn
    rwa [hphase]
  · intro player halive _
    rwa [← hphase]
  · intro key player hmem
    rw [hmailbox] at hmem
    rcases List.mem_append.mp hmem with hold | hnew
    · exact hold
    · exact absurd hnew (join_not_mem hsent)
  · rw [hmailbox, List.filterMap_append, hsent, List.append_nil]
    exact h.joins_nodup

/-- A join whose name is not in use enters the members and the monitors
together. -/
theorem Tracked.join {name : P → Name} {labels : List (Act P)} {s s' : World P} {key : Name}
    {player : P} {rest : List (RoomMsg P)} (h : Tracked name labels s)
    (hmailbox : s.mailbox = .join key player :: rest)
    (hunused : s.room.members.find? key = none)
    (hmembers : s'.room.members = s.room.members.emplace key player)
    (hmonitors : s'.monitors = s.monitors ++ [(player, key)]) (hphase : s'.phase = s.phase)
    (hrest : s'.mailbox = rest) :
    Tracked name (labels ++ [.handle (.join key player)]) s' := by
  obtain ⟨rfl, hborn, hnew⟩ := h.joining key player (by rw [hmailbox]; exact List.mem_cons_self)
  have hjoined : ∀ other, Joined (labels ++ [Act.handle (.join (name player) player)]) other ↔
      Joined labels other ∨ other = player := by
    intro other
    simp only [Joined, List.mem_append, List.mem_singleton, Act.handle.injEq, RoomMsg.join.injEq]
    constructor
    · rintro ⟨key, hold | ⟨-, heq⟩⟩
      · exact Or.inl ⟨key, hold⟩
      · exact Or.inr heq
    · rintro (⟨key, hold⟩ | rfl)
      · exact ⟨key, Or.inl hold⟩
      · exact ⟨name other, Or.inr ⟨rfl, rfl⟩⟩
  have hjoins := h.joins_nodup
  rw [hmailbox, List.filterMap_cons] at hjoins
  have hfresh : (player, name player) ∉ s.monitors := fun hm => hnew (h.monitored _ hm)
  constructor
  · intro e he
    rw [hmembers, OrdMap.mem_emplace_of_unused hunused] at he
    rcases he with rfl | he
    · rfl
    · exact h.entry_name e he
  · intro m hm
    rw [hmonitors] at hm
    rcases List.mem_append.mp hm with hold | hm
    · exact h.monitor_name m hold
    · rw [List.mem_singleton.mp hm]
  · intro other
    rw [hmembers, OrdMap.mem_emplace_of_unused hunused, hmonitors, List.mem_append,
      h.member_iff other, List.mem_singleton, or_comm, Prod.mk.injEq, Prod.mk.injEq, and_comm]
  · rw [hmonitors, List.nodup_append]
    refine ⟨h.monitors_nodup, List.nodup_singleton _, ?_⟩
    rintro m hm _ hlast rfl
    rw [List.mem_singleton.mp hlast] at hm
    exact hfresh hm
  · intro m hm
    rw [hmonitors] at hm
    rcases List.mem_append.mp hm with hold | hm
    · exact (hjoined m.1).mpr (Or.inl (h.monitored m hold))
    · rw [List.mem_singleton.mp hm]
      exact (hjoined player).mpr (Or.inr rfl)
  · intro other hother
    rw [hphase]
    rcases (hjoined other).mp hother with hold | rfl
    · exact h.joined_born other hold
    · exact hborn
  · intro other hother halive
    rw [hphase] at halive
    rw [hmonitors]
    rcases (hjoined other).mp hother with hold | rfl
    · exact List.mem_append_left _ (h.joined_alive other hold halive)
    · simp
  · intro other joiner hmem
    rw [hrest] at hmem
    have hjoins : .join other joiner ∈ s.mailbox := by
      rw [hmailbox]
      exact List.mem_cons_of_mem _ hmem
    obtain ⟨hkey, hphase', hnot⟩ := h.joining other joiner hjoins
    refine ⟨hkey, by rwa [hphase], ?_⟩
    intro hother
    rcases (hjoined joiner).mp hother with hold | rfl
    · exact hnot hold
    · have hdup : joiner ∈ rest.filterMap RoomMsg.joiner := List.mem_filterMap.mpr ⟨_, hmem, rfl⟩
      exact (List.nodup_cons.mp hjoins).1 hdup
  · rw [hrest]
    exact (List.nodup_cons.mp hjoins).2

variable [DecidableEq P]

/-- A broadcast in this state reaches `player` exactly `times` times. -/
def World.Hears (s : World P) (player : P) (times : Nat) : Prop :=
  ∀ sender text, (s.room.broadcast sender text).count (.send player sender text) = times

/-- A live joined player is a member and hears every broadcast once; when
nothing waits for the room, a terminated one is not and hears none. -/
structure TracksPlayers (labels : List (Act P)) (s : World P) : Prop where
  live : ∀ player, Joined labels player → s.phase player = .alive →
    (∃ key, s.room.members.find? key = some player) ∧ s.Hears player 1
  dead : s.Settled → ∀ player, s.phase player = .terminated →
    (∀ key, s.room.members.find? key ≠ some player) ∧ s.Hears player 0

/-- A join is handled only while its name is not a key of the members. -/
def NameUnused (s : World P) : Act P → Prop
  | .handle (.join name _) => s.room.members.find? name = none
  | _ => True

/-! What performing effects leaves alone. -/

theorem perform_frame (s : World P) (effect : Effect P) :
    (s.perform effect).room = s.room ∧ (s.perform effect).mailbox = s.mailbox ∧
      (s.perform effect).phase = s.phase ∧
      (s.perform effect).monitors = s.monitors ++ effect.registered.toList := by
  cases effect with
  | send player sender text =>
      simp only [World.perform, World.deliver, Effect.registered]
      split <;> simp
  | monitor player name => simp [World.perform, Effect.registered]
  | delayTick => simp [World.perform, Effect.registered]

theorem react_frame (s : World P) (room : RoomState P) (effects : List (Effect P)) :
    (s.react (room, effects)).room = room ∧ (s.react (room, effects)).mailbox = s.mailbox ∧
      (s.react (room, effects)).phase = s.phase ∧
      (s.react (room, effects)).monitors = s.monitors ++ effects.filterMap Effect.registered := by
  simp only [World.react]
  generalize hstart : ({ s with room := room } : World P) = start
  have hfold : ∀ (effects : List (Effect P)) (t : World P),
      (effects.foldl World.perform t).room = t.room ∧
      (effects.foldl World.perform t).mailbox = t.mailbox ∧
      (effects.foldl World.perform t).phase = t.phase ∧
      (effects.foldl World.perform t).monitors =
        t.monitors ++ effects.filterMap Effect.registered := by
    intro effects
    induction effects with
    | nil => intro t; simp
    | cons effect rest ih =>
        intro t
        obtain ⟨hroom, hmailbox, hphase, hmonitors⟩ := perform_frame t effect
        obtain ⟨hroom', hmailbox', hphase', hmonitors'⟩ := ih (t.perform effect)
        rw [List.foldl_cons]
        refine ⟨hroom'.trans hroom, hmailbox'.trans hmailbox, hphase'.trans hphase, ?_⟩
        rw [hmonitors', hmonitors, List.append_assoc]
        cases hreg : effect.registered <;> simp [hreg]
  have hall := hfold effects start
  rw [← hstart] at hall
  rw [← hstart]
  exact hall

theorem deliver_frame (s : World P) (player : P) (message : PlayerMsg) :
    (s.deliver player message).room = s.room ∧ (s.deliver player message).mailbox = s.mailbox ∧
      (s.deliver player message).phase = s.phase ∧
      (s.deliver player message).monitors = s.monitors := by
  unfold World.deliver
  split <;> exact ⟨rfl, rfl, rfl, rfl⟩

theorem Tracked.spawn {name : P → Name} {labels : List (Act P)} {s s' : World P} {player : P}
    (h : Tracked name labels s) (hunborn : s.phase player = .unborn) (hroom : s'.room = s.room)
    (hmonitors : s'.monitors = s.monitors)
    (hphase : s'.phase = Function.update s.phase player .alive)
    (hmailbox : s'.mailbox = s.mailbox ++ [.join (name player) player]) :
    Tracked name (labels ++ [.spawn player]) s' := by
  have hlabel : ∀ key other, Act.spawn player ≠ .handle (.join key other) := by simp
  have hne : ∀ other, s.phase other ≠ .unborn → other ≠ player := by
    rintro other hborn rfl
    exact hborn hunborn
  constructor
  · rw [hroom]
    exact h.entry_name
  · rw [hmonitors]
    exact h.monitor_name
  · rw [hroom, hmonitors]
    exact h.member_iff
  · rw [hmonitors]
    exact h.monitors_nodup
  · intro m hm
    rw [hmonitors] at hm
    exact (joined_append_iff hlabel m.1).mpr (h.monitored m hm)
  · intro other hjoined
    have hborn := h.joined_born other ((joined_append_iff hlabel other).mp hjoined)
    rwa [hphase, Function.update_of_ne (hne other hborn)]
  · intro other hjoined halive
    have hold := (joined_append_iff hlabel other).mp hjoined
    rw [hphase, Function.update_of_ne (hne other (h.joined_born other hold))] at halive
    rw [hmonitors]
    exact h.joined_alive other hold halive
  · intro key other hmem
    rw [hmailbox] at hmem
    rcases List.mem_append.mp hmem with hold | hnew
    · obtain ⟨hkey, hborn, hnot⟩ := h.joining key other hold
      refine ⟨hkey, ?_, fun hjoined => hnot ((joined_append_iff hlabel other).mp hjoined)⟩
      rwa [hphase, Function.update_of_ne (hne other hborn)]
    · obtain ⟨rfl, rfl⟩ : key = name player ∧ other = player := by simpa using hnew
      refine ⟨rfl, by simp [hphase], ?_⟩
      intro hjoined
      exact h.joined_born other ((joined_append_iff hlabel other).mp hjoined) hunborn
  · rw [hmailbox, List.filterMap_append, List.nodup_append]
    refine ⟨h.joins_nodup, by simp [RoomMsg.joiner], ?_⟩
    intro other hother new hnew
    obtain ⟨message, hmem, hjoiner⟩ := List.mem_filterMap.mp hother
    have hnew' : new = player := by simpa [RoomMsg.joiner] using hnew
    cases message with
    | join key joiner =>
        obtain rfl : joiner = other := Option.some.inj hjoiner
        rw [hnew']
        exact hne joiner (h.joining key joiner hmem).2.1
    | chat sender text => cases hjoiner
    | start rounds => cases hjoiner
    | tick => cases hjoiner

/-- The callback takes the player out of the members and the monitors
together. -/
theorem Tracked.down {name : P → Name} {labels : List (Act P)} {s s' : World P} {key : Name}
    {player : P} (h : Tracked name labels s) (hmonitor : (player, key) ∈ s.monitors)
    (hdead : s.phase player = .terminated)
    (hmembers : s'.room.members = s.room.members.erase key)
    (hmonitors : s'.monitors = s.monitors.erase (player, key)) (hphase : s'.phase = s.phase)
    (hmailbox : s'.mailbox = s.mailbox) :
    Tracked name (labels ++ [.down player key]) s' := by
  have hlabel : ∀ key' other, Act.down player key ≠ .handle (.join key' other) := by simp
  obtain rfl : key = name player := h.monitor_name _ hmonitor
  have hmember := (h.member_iff player).mpr hmonitor
  have hkept : ∀ m, m ∈ s.monitors.erase (player, name player) ↔
      m ≠ (player, name player) ∧ m ∈ s.monitors := fun m => h.monitors_nodup.mem_erase_iff
  constructor
  · intro e he
    rw [hmembers, OrdMap.mem_erase] at he
    exact h.entry_name e he.1
  · intro m hm
    rw [hmonitors, hkept] at hm
    exact h.monitor_name m hm.2
  · intro other
    rw [hmembers, OrdMap.mem_erase, hmonitors, hkept, h.member_iff other]
    constructor
    · rintro ⟨hm, hne⟩
      refine ⟨?_, hm⟩
      intro heq
      exact hne (Prod.mk.inj heq).2
    · rintro ⟨hne, hm⟩
      refine ⟨hm, ?_⟩
      intro hname
      -- the key is in use for one player only
      have hother := (h.member_iff other).mpr hm
      rw [show name other = name player from hname] at hother
      have heq := s.room.members.entry_unique hother hmember
      exact hne (by rw [heq])
  · rw [hmonitors]
    exact h.monitors_nodup.erase _
  · intro m hm
    rw [hmonitors, hkept] at hm
    exact (joined_append_iff hlabel m.1).mpr (h.monitored m hm.2)
  · intro other hjoined
    rw [hphase]
    exact h.joined_born other ((joined_append_iff hlabel other).mp hjoined)
  · intro other hjoined halive
    rw [hphase] at halive
    rw [hmonitors, hkept]
    refine ⟨?_, h.joined_alive other ((joined_append_iff hlabel other).mp hjoined) halive⟩
    intro heq
    rw [(Prod.mk.inj heq).1, hdead] at halive
    cases halive
  · intro key' other hmem
    rw [hmailbox] at hmem
    obtain ⟨hkey, hborn, hnot⟩ := h.joining key' other hmem
    refine ⟨hkey, by rwa [hphase], fun hjoined => hnot ((joined_append_iff hlabel other).mp hjoined)⟩
  · rw [hmailbox]
    exact h.joins_nodup

theorem step_tracked {name : P → Name} {labels : List (Act P)} {s s' : World P} {label : Act P}
    (h : Tracked name labels s) (hunused : NameUnused s label) (hstep : Step name s label s') :
    Tracked name (labels ++ [label]) s' := by
  cases label with
  | spawn player =>
      obtain ⟨hunborn, rfl⟩ := hstep
      exact h.spawn hunborn rfl rfl rfl rfl
  | say player text =>
      obtain rfl := hstep
      obtain ⟨hroom, hmailbox, hphase, hmonitors⟩ := deliver_frame s player (.say text)
      exact h.sent (by simp) hroom hphase hmonitors (hmailbox.trans (List.append_nil _).symm) rfl
  | playerStep player message =>
      obtain ⟨rest, -, -, rfl⟩ := hstep
      obtain ⟨hroom, hphase, hmonitors, sent, hmailbox, hsent⟩ := playerReact_frame
        { s with inbox := Function.update s.inbox player rest } name player message
      exact h.sent (by simp) hroom hphase hmonitors hmailbox hsent
  | terminate player =>
      obtain ⟨halive, rfl⟩ := hstep
      apply h.frame
      · simp
      · rfl
      · rfl
      · intro other hborn
        by_cases heq : other = player
        · simp [heq]
        · simpa [heq] using hborn
      · intro other hother _
        by_cases heq : other = player
        · rwa [heq]
        · simpa [heq] using hother
      · intro key other hmem
        exact hmem
      · exact h.joins_nodup
  | start rounds =>
      obtain rfl := hstep
      exact h.sent (by simp) rfl rfl rfl rfl rfl
  | delayOver =>
      obtain ⟨-, rfl⟩ := hstep
      exact h.sent (by simp) rfl rfl rfl rfl rfl
  | handle message =>
      obtain ⟨rest, hmailbox, rfl⟩ := hstep
      obtain ⟨hroom, hrest, hphase, hmonitors⟩ := react_frame { s with mailbox := rest }
        (s.room.receive message).1 (s.room.receive message).2
      rcases receive_members s.room message with
        ⟨key, player, rfl, hmembers, hregistered⟩ | ⟨hjoiner, hmembers, hregistered⟩
      · rw [hregistered] at hmonitors
        exact h.join hmailbox hunused (by rw [hroom, hmembers]) hmonitors hphase hrest
      · rw [hregistered, List.append_nil] at hmonitors
        have hjoins := h.joins_nodup
        rw [hmailbox, List.filterMap_cons, hjoiner] at hjoins
        apply h.frame
        · rintro key player ⟨⟩
          cases hjoiner
        · rw [hroom, hmembers]
        · exact hmonitors
        · intro player hborn
          rwa [hphase]
        · intro player halive _
          rwa [← hphase]
        · intro key player hmem
          rw [hrest] at hmem
          rw [hmailbox]
          exact List.mem_cons_of_mem _ hmem
        · rw [hrest]
          exact hjoins
  | down player key =>
      obtain ⟨hmonitor, hdead, rfl⟩ := hstep
      obtain ⟨hroom, hrest, hphase, hmonitors⟩ := react_frame
        { s with monitors := s.monitors.erase (player, key) }
        (s.room.onDown key).1 (s.room.onDown key).2
      have hregistered : (s.room.onDown key).2.filterMap Effect.registered = [] :=
        broadcast_registered _ _ _
      rw [hregistered, List.append_nil] at hmonitors
      apply h.down hmonitor hdead _ hmonitors hphase hrest
      rw [hroom]
      rfl

theorem run_tracked {name : P → Name} {labels : List (Act P)} {s : World P}
    (hrun : ((roomSystem name).restrict NameUnused).Run {} labels s) : Tracked name labels s :=
  System.Run.preserves_history
    (fun _ _ _ _ hold (hstep : _ ∧ _) => step_tracked hold hstep.1 hstep.2)
    (tracked_initial name) hrun

/-- A broadcast reaches a member once and nobody else. -/
theorem Tracked.hears {name : P → Name} {labels : List (Act P)} {s : World P}
    (h : Tracked name labels s) (player : P) :
    s.Hears player (if (player, name player) ∈ s.monitors then 1 else 0) := by
  intro sender text
  have hcount : (s.room.broadcast sender text).count (.send player sender text) =
      s.room.members.entries.count (name player, player) := by
    rw [RoomState.broadcast, List.count_eq_countP, List.countP_map, List.count_eq_countP]
    apply List.countP_congr
    intro e he
    have hname := h.entry_name e he
    simp only [Function.comp_apply, beq_iff_eq, Effect.send.injEq, and_true]
    constructor
    · rintro rfl
      rw [← hname]
    · rintro rfl
      rfl
  rw [hcount]
  have hnodup : s.room.members.entries.Nodup :=
    s.room.members.sorted.imp (fun hlt heq => absurd (congrArg Prod.fst heq) hlt.ne)
  split
  · next hmonitor => exact List.count_eq_one_of_mem hnodup ((h.member_iff player).mpr hmonitor)
  · next hmonitor =>
    exact List.count_eq_zero_of_not_mem fun hmem => hmonitor ((h.member_iff player).mp hmem)

/-- In every run in which joins find their names unused, the room tracks the
live joined players. -/
theorem members_track_live_players {name : P → Name} {labels : List (Act P)} {s : World P}
    (hrun : ((roomSystem name).restrict NameUnused).Run {} labels s) :
    TracksPlayers labels s := by
  have h := run_tracked hrun
  constructor
  · intro player hjoined halive
    have hmonitor := h.joined_alive player hjoined halive
    constructor
    · exact ⟨name player, OrdMap.find?_eq_some.mpr ((h.member_iff player).mpr hmonitor)⟩
    · simpa [hmonitor] using h.hears player
  · intro hsettled player hdead
    have hmonitor : (player, name player) ∉ s.monitors := fun hm => hsettled.2 _ hm hdead
    constructor
    · intro key hfind
      have hmem := OrdMap.find?_eq_some.mp hfind
      have hkey := h.entry_name _ hmem
      simp only at hkey
      rw [hkey] at hmem
      exact hmonitor ((h.member_iff player).mp hmem)
    · simpa [hmonitor] using h.hears player

/-- Two players with different names, one of which terminates. -/
theorem members_track_two_players :
    ∃ (labels : List (Act Bool)) (s : World Bool), Joined labels true ∧ Joined labels false ∧
      s.phase true = .terminated ∧ s.Settled ∧
      s.room.members.entries = [("a".toList, false)] ∧ TracksPlayers labels s := by
  obtain ⟨labels, s, hrun, htrue, hfalse, hphase, hmailbox, hmonitors, hmembers⟩ : ∃ labels s,
      ((roomSystem (fun player : Bool => if player then "b".toList else "a".toList)).restrict
        NameUnused).Run {} labels s ∧
        Joined labels true ∧ Joined labels false ∧ s.phase true = .terminated ∧
        s.mailbox = [] ∧ (∀ m ∈ s.monitors, s.phase m.1 ≠ .terminated) ∧
        s.room.members.entries = [("a".toList, false)] := ⟨_, _,
    Run.cons (Act.spawn true) ⟨trivial, rfl, rfl⟩ <|
    Run.cons (Act.spawn false) ⟨trivial, rfl, rfl⟩ <|
    Run.cons (Act.handle (.join "b".toList true)) ⟨rfl, _, rfl, rfl⟩ <|
    Run.cons (Act.handle (.join "a".toList false)) ⟨rfl, _, rfl, rfl⟩ <|
    Run.cons (Act.terminate true) ⟨trivial, rfl, rfl⟩ <|
    Run.cons (Act.down true "b".toList) ⟨trivial, by decide, rfl, rfl⟩ <|
    .nil, ⟨"b".toList, by simp⟩, ⟨"a".toList, by simp⟩, rfl, rfl, by decide, by decide⟩
  exact ⟨labels, s, htrue, hfalse, hphase, ⟨hmailbox, hmonitors⟩, hmembers,
    members_track_live_players hrun⟩

/-- Two players of one name: the second join is dropped and its player never
hears a word. -/
theorem shared_name_not_member :
    ¬ ∀ (name : Bool → Name) (labels : List (Act Bool)) (s : World Bool),
      (roomSystem name).Run {} labels s → s.Settled → TracksPlayers labels s := by
  intro h
  obtain ⟨labels, s, hrun, hjoined, hmailbox, hmembers, hphase⟩ : ∃ labels s,
      (roomSystem (fun _ : Bool => "a".toList)).Run {} labels s ∧ Joined labels false ∧
        s.mailbox = [] ∧ s.room.members.entries = [("a".toList, true)] ∧
        ∀ player, s.phase player = .alive := ⟨_, _,
    Run.cons (Act.spawn true) ⟨rfl, rfl⟩ <|
    Run.cons (Act.spawn false) ⟨rfl, rfl⟩ <|
    Run.cons (Act.handle (.join "a".toList true)) ⟨_, rfl, rfl⟩ <|
    Run.cons (Act.handle (.join "a".toList false)) ⟨_, rfl, rfl⟩ <|
    .nil, ⟨"a".toList, by simp⟩, rfl, rfl, by decide⟩
  have htracks := h _ labels s hrun ⟨hmailbox, by simp [hphase]⟩
  obtain ⟨⟨key, hfind⟩, -⟩ := htracks.live false hjoined (hphase false)
  have hmem := OrdMap.find?_eq_some.mp hfind
  rw [hmembers] at hmem
  simp at hmem

end CppWorkspace.Actors.GameRoom
