import CppWorkspace.Delegates.Character

/-!
How often a character dies. The calls of `TakeDamage` that have not returned form a
stack; of a call it matters what its `old_health` is and which broadcast it is in.
Every call that was entered with positive health, and that finds the health gone when
its broadcast returns, broadcasts the death.
-/

namespace CppWorkspace.Delegates

open Lib System

/-- A call of `TakeDamage` that has not returned. -/
inductive Frame where
  /-- In `OnHealthChanged.Broadcast`. -/
  | healthChanged (oldHealth : Int)
  /-- In `death_event_.Broadcast`. -/
  | death
deriving DecidableEq, Repr

/-- The health, and the calls that have not returned, innermost first. -/
structure CallStack where
  health : Int := 100
  frames : List Frame := []
deriving DecidableEq, Repr

namespace CallStack

def step (s : CallStack) : DamageAct → Option CallStack
  | .takeDamage damage => some ⟨max 0 (s.health - damage), .healthChanged s.health :: s.frames⟩
  | .dies =>
      match s.frames with
      | .healthChanged oldHealth :: rest =>
          if 0 < oldHealth ∧ s.health ≤ 0 then some { s with frames := .death :: rest } else none
      | _ => none
  | .returns =>
      match s.frames with
      | .healthChanged oldHealth :: rest =>
          if 0 < oldHealth ∧ s.health ≤ 0 then none else some { s with frames := rest }
      | .death :: rest => some { s with frames := rest }
      | [] => none

/-- A call from inside another one that takes damage finds no health or leaves some. -/
def OnSurface (s : CallStack) : DamageAct → Prop
  | .takeDamage damage => s.frames = [] ∨ s.health = 0 ∨ damage < s.health
  | _ => True

end CallStack

def damageSystem : System CallStack DamageAct where
  init s := s = {}
  step s act s' := s.step act = some s'

section Refinement

variable {ι σ : Type} {c c' c'' : Character ι σ} {acts first second : List DamageAct}

/-- The acts lead from the health of one state to that of the other, whatever calls have
not returned. -/
def Follows (c : Character ι σ) (acts : List DamageAct) (c' : Character ι σ) : Prop :=
  ∀ frames, damageSystem.Run ⟨c.health, frames⟩ acts ⟨c'.health, frames⟩

theorem Follows.same (h : c'.health = c.health) : Follows c [] c' := by
  intro frames
  rw [h]
  exact .nil

theorem Follows.append (hfirst : Follows c first c') (hsecond : Follows c' second c'') :
    Follows c (first ++ second) c'' :=
  fun frames => (hfirst frames).append (hsecond frames)

@[simp] theorem modify_health (topic : Topic) (f : State ι σ → State ι σ) :
    (c.modify topic f).health = c.health := by
  cases topic <;> rfl

@[simp] theorem modifyBoth_health (f : State ι σ → State ι σ) :
    (c.modifyBoth f).health = c.health := rfl

theorem subscribe_health (topic : Topic) (a : Action ι σ Empty) :
    (c.subscribe topic a).2.health = c.health := by
  cases a with
  | broadcast arg => exact arg.elim
  | _ => simp [Character.subscribe]

variable {nested : CharacterCall → Character ι σ → Option (Character ι σ × List DamageAct)}
  (hnested : ∀ call c c' acts, nested call c = some (c', acts) → Follows c acts c')
  {code : ι → BroadcastArgs → Reaction ι σ}

include hnested

theorem perform_follows {op : CharacterOp ι σ} {reply : Reply}
    (h : c.perform nested op = some (reply, c', acts)) : Follows c acts c' := by
  cases op with
  | takeDamage damage =>
      obtain ⟨⟨last, events⟩, hcall, heq⟩ := Option.map_eq_some_iff.mp h
      cases heq
      exact hnested _ _ _ _ hcall
  | subscribe topic a =>
      cases h
      exact .same (subscribe_health topic a)
  | broadcast oldHealth newHealth =>
      obtain ⟨⟨last, events⟩, hcall, heq⟩ := Option.map_eq_some_iff.mp h
      cases heq
      exact hnested _ _ _ _ hcall

theorem runReaction_follows {topic : Topic} {self : Slot ι} {body : Reaction ι σ}
    (h : Character.runReaction nested topic self body c = some (c', acts)) :
    Follows c acts c' := by
  induction body generalizing c acts with
  | done =>
      cases h
      exact .same rfl
  | act op k ih =>
      simp only [Character.runReaction, Option.bind_eq_bind, Option.bind_eq_some_iff] at h
      obtain ⟨⟨reply, next, first⟩, hperform, ⟨last, rest⟩, hrest, heq⟩ := h
      cases heq
      exact (perform_follows hnested hperform).append (ih reply hrest)
  | get k ih => exact ih _ h
  | set captured k ih =>
      have hwritten := ih h
      exact (Follows.same (modify_health ..)).append hwritten

theorem turn_follows {topic : Topic} {args : BroadcastArgs} {slot : Slot ι}
    (h : c.turn nested code topic args slot = some (c', acts)) : Follows c acts c' := by
  unfold Character.turn at h
  split at h
  · split at h
    · split at h
      · simp only [Character.invoke, Option.bind_eq_bind, Option.bind_eq_some_iff] at h
        obtain ⟨⟨last, events⟩, hruns, heq⟩ := h
        cases heq
        exact fun frames => runReaction_follows hnested hruns frames
      · cases h
        exact .same rfl
    · cases h
      exact .same rfl
  · cases h
    exact .same rfl

theorem visitAll_follows {topic : Topic} {args : BroadcastArgs} {snapshot : List (Slot ι)}
    (h : Character.visitAll nested code topic args snapshot c = some (c', acts)) :
    Follows c acts c' := by
  induction snapshot generalizing c acts with
  | nil =>
      cases h
      exact .same rfl
  | cons slot snapshot ih =>
      simp only [Character.visitAll, Option.bind_eq_bind, Option.bind_eq_some_iff] at h
      obtain ⟨⟨after, first⟩, hturn, ⟨last, rest⟩, hrest, heq⟩ := h
      cases heq
      exact (turn_follows hnested hturn).append (ih hrest)

theorem broadcast_follows {topic : Topic} {args : BroadcastArgs}
    (h : c.broadcast nested code topic args = some (c', acts)) : Follows c acts c' := by
  simp only [Character.broadcast, Option.bind_eq_bind, Option.bind_eq_some_iff] at h
  obtain ⟨⟨last, events⟩, hvisits, heq⟩ := h
  cases heq
  have hpurged : Follows last [] (last.modify topic (·.purge)) := .same (modify_health ..)
  simpa using (visitAll_follows hnested hvisits).append hpurged

theorem takeDamage_follows {damage : Nat}
    (h : c.takeDamage nested code damage = some (c', acts)) : Follows c acts c' := by
  simp only [Character.takeDamage, Option.bind_eq_bind, Option.bind_eq_some_iff] at h
  obtain ⟨⟨changed, first⟩, hchanged, h⟩ := h
  have hfirst := broadcast_follows hnested hchanged
  intro frames
  split at h
  · next hdies =>
    obtain ⟨⟨last, rest⟩, hdeath, heq⟩ := Option.bind_eq_some_iff.mp h
    cases heq
    have hrest := broadcast_follows hnested hdeath
    refine Run.cons _ rfl ((hfirst _).append (Run.cons _ ?_ ((hrest (.death :: frames)).append
      (Run.single rfl))))
    exact if_pos hdies
  · next hlives =>
    cases h
    refine Run.cons _ rfl ((hfirst _).append (Run.single ?_))
    exact if_neg hlives

end Refinement

section Programs

variable {ι σ : Type} {code : ι → BroadcastArgs → Reaction ι σ}

theorem call_follows {depth : Nat} {call : CharacterCall} {c c' : Character ι σ}
    {acts : List DamageAct} (h : Character.call code depth call c = some (c', acts)) :
    Follows c acts c' := by
  induction depth generalizing call c c' acts with
  | zero => cases h
  | succ depth ih =>
      cases call with
      | takeDamage damage => exact takeDamage_follows (fun _ _ _ _ => ih) h
      | broadcast topic args => exact broadcast_follows (fun _ _ _ _ => ih) h

/-- What a program makes a character do are calls that have all returned. -/
theorem play_follows {depth : Nat} {ops : List (CharacterOp ι σ)} {c c' : Character ι σ}
    {acts : List DamageAct} (h : Character.play code depth ops c = some (c', acts)) :
    Follows c acts c' := by
  induction ops generalizing c acts with
  | nil =>
      cases h
      exact .same rfl
  | cons op ops ih =>
      simp only [Character.play, Option.bind_eq_bind, Option.bind_eq_some_iff] at h
      obtain ⟨⟨reply, next, first⟩, hperform, ⟨last, rest⟩, hrest, heq⟩ := h
      cases heq
      exact (perform_follows (fun _ _ _ _ => call_follows) hperform).append (ih hrest)

end Programs

section Deaths

variable {s s' : CallStack} {acts : List DamageAct} {act : DamageAct}

/-- The call has still to find that the health is gone. -/
def Frame.pending : Frame → Bool
  | healthChanged oldHealth => 0 < oldHealth
  | death => false

/-- No death yet: there is health, and every call was entered with health. -/
structure Alive (acts : List DamageAct) (s : CallStack) : Prop where
  health : 0 < s.health
  deaths : acts.count .dies = 0
  frames : ∀ frame ∈ s.frames, ∃ oldHealth, 0 < oldHealth ∧ frame = .healthChanged oldHealth

/-- The health is gone, and there have been or will be `n` deaths. -/
structure Dead (n : Nat) (acts : List DamageAct) (s : CallStack) : Prop where
  health : s.health = 0
  deaths : acts.count .dies + s.frames.countP Frame.pending = n

theorem Alive.pending (h : Alive acts s) : s.frames.countP Frame.pending = s.frames.length :=
  List.countP_eq_length.mpr fun frame hframe => by
    obtain ⟨oldHealth, hpos, rfl⟩ := h.frames frame hframe
    exact decide_eq_true hpos

/-- A call while there is health: it leaves some, or as many deaths follow as calls have
not returned. -/
theorem Alive.takeDamage (h : Alive acts s) {damage : Nat}
    (hstep : s.step (.takeDamage damage) = some s') :
    (damage < s.health ∧ Alive (acts ++ [.takeDamage damage]) s') ∨
      (s.health ≤ damage ∧ Dead (s.frames.length + 1) (acts ++ [.takeDamage damage]) s') := by
  cases hstep
  have hpending := h.pending
  have hpos := h.health
  have hdeaths : (acts ++ [DamageAct.takeDamage damage]).count .dies = 0 := by
    rw [List.count_append, h.deaths]
    rfl
  by_cases hlt : damage < s.health
  · refine Or.inl ⟨hlt, ?_, hdeaths, fun frame hframe => ?_⟩
    · show 0 < max 0 (s.health - damage)
      omega
    · rcases List.mem_cons.mp hframe with rfl | hold
      · exact ⟨s.health, h.health, rfl⟩
      · exact h.frames frame hold
  · refine Or.inr ⟨not_lt.mp hlt, ?_, ?_⟩
    · show max 0 (s.health - damage) = 0
      omega
    · rw [hdeaths, List.countP_cons, hpending, Frame.pending, decide_eq_true h.health,
        if_pos rfl, Nat.zero_add]

/-- While there is health, a broadcast is followed by a return. -/
theorem Alive.returns (h : Alive acts s) (hact : act = .dies ∨ act = .returns)
    (hstep : s.step act = some s') : act = .returns ∧ Alive (acts ++ [act]) s' := by
  have hpos := h.health
  rcases hframes : s.frames with _ | ⟨frame, rest⟩
  · rcases hact with rfl | rfl <;> simp [CallStack.step, hframes] at hstep
  · obtain ⟨oldHealth, hold, rfl⟩ := h.frames frame (hframes ▸ List.mem_cons_self)
    have hnot : ¬ (0 < oldHealth ∧ s.health ≤ 0) := by omega
    rcases hact with rfl | rfl
    · simp [CallStack.step, hframes, hnot] at hstep
    · simp only [CallStack.step, hframes, if_neg hnot] at hstep
      cases hstep
      refine ⟨rfl, hpos, ?_, fun frame hframe => ?_⟩
      · rw [List.count_append, h.deaths]
        rfl
      · exact h.frames frame (hframes ▸ List.mem_cons_of_mem _ hframe)

/-- Without health the number of deaths that have been or will be stays the same. -/
theorem Dead.step {n : Nat} (h : Dead n acts s) (hstep : s.step act = some s') :
    Dead n (acts ++ [act]) s' := by
  have hhealth := h.health
  have hdeaths := h.deaths
  cases act with
  | takeDamage damage =>
      cases hstep
      refine ⟨?_, ?_⟩
      · show max 0 (s.health - damage) = 0
        omega
      · have hfresh : Frame.pending (.healthChanged s.health) = false := by
          rw [hhealth]
          rfl
        rw [List.count_append, List.countP_cons, hfresh, ← hdeaths]
        rfl
  | dies =>
      simp only [CallStack.step] at hstep
      split at hstep
      · next oldHealth rest hframes =>
        split at hstep
        · next hdies =>
          cases hstep
          rw [hframes, List.countP_cons, Frame.pending, decide_eq_true hdies.1] at hdeaths
          refine ⟨hhealth, ?_⟩
          rw [List.count_append, List.countP_cons, ← hdeaths]
          simp [Frame.pending]
          omega
        · cases hstep
      · cases hstep
  | returns =>
      simp only [CallStack.step] at hstep
      have hcount : (acts ++ [DamageAct.returns]).count .dies = acts.count .dies := by
        rw [List.count_append]
        rfl
      split at hstep
      · next oldHealth rest hframes =>
        split at hstep
        · cases hstep
        · next hlives =>
          cases hstep
          have hpos : ¬ 0 < oldHealth := fun hpos => hlives ⟨hpos, hhealth.le⟩
          rw [hframes, List.countP_cons, Frame.pending, decide_eq_false hpos] at hdeaths
          exact ⟨hhealth, by rw [hcount]; exact hdeaths⟩
      · next rest hframes =>
        cases hstep
        rw [hframes, List.countP_cons] at hdeaths
        exact ⟨hhealth, by rw [hcount]; exact hdeaths⟩
      · cases hstep

/-- As long as the calls keep to the surface, there is at most one death to come. -/
theorem surface_step (h : Alive acts s ∨ Dead 1 acts s) (hsurface : s.OnSurface act)
    (hstep : s.step act = some s') : Alive (acts ++ [act]) s' ∨ Dead 1 (acts ++ [act]) s' := by
  rcases h with halive | hdead
  · cases act with
    | takeDamage damage =>
        rcases halive.takeDamage hstep with ⟨-, halive'⟩ | ⟨hle, hdead⟩
        · exact Or.inl halive'
        · have hpos := halive.health
          have houter : s.frames = [] := by
            rcases hsurface with houter | hzero | hlt
            · exact houter
            · omega
            · omega
          rw [houter] at hdead
          exact Or.inr hdead
    | dies => cases (halive.returns (Or.inl rfl) hstep).1
    | returns => exact Or.inl (halive.returns (Or.inr rfl) hstep).2
  · exact Or.inr (hdead.step hstep)

/-- A call that kills from inside another one makes more than one death. -/
theorem deep_step (h : Alive acts s ∨ Dead 1 acts s) (hdeep : ¬ s.OnSurface act)
    (hstep : s.step act = some s') : ∃ n, 2 ≤ n ∧ Dead n (acts ++ [act]) s' := by
  cases act with
  | takeDamage damage =>
      obtain ⟨hnested, hhealth, -⟩ :
          s.frames ≠ [] ∧ s.health ≠ 0 ∧ ¬ (damage : Int) < s.health := by
        simpa [CallStack.OnSurface] using hdeep
      rcases h with halive | hdead
      · rcases halive.takeDamage hstep with ⟨hlt, -⟩ | ⟨-, hdead⟩
        · exact absurd (Or.inr (Or.inr hlt)) hdeep
        · have hlength := List.length_pos_iff.mpr hnested
          exact ⟨_, by omega, hdead⟩
      · exact absurd hdead.health hhealth
  | dies => exact absurd trivial hdeep
  | returns => exact absurd trivial hdeep

theorem alive_start : Alive [] {} :=
  ⟨by decide, rfl, fun _ h => (List.not_mem_nil h).elim⟩

theorem surface_run (hrun : (damageSystem.restrict CallStack.OnSurface).Run {} acts s) :
    Alive acts s ∨ Dead 1 acts s := by
  refine hrun.preserves_history (I := fun acts s => Alive acts s ∨ Dead 1 acts s) ?_
    (Or.inl alive_start)
  rintro acts s act s' hs ⟨hsurface, hstep⟩
  exact surface_step hs hsurface hstep

/-- A run keeps to the surface, or there will have been more than one death. -/
theorem run_surface_or_deaths (hrun : damageSystem.Run {} acts s) :
    (damageSystem.restrict CallStack.OnSurface).Run {} acts s ∨ ∃ n, 2 ≤ n ∧ Dead n acts s := by
  refine hrun.preserves_history (I := fun acts s =>
    (damageSystem.restrict CallStack.OnSurface).Run {} acts s ∨ ∃ n, 2 ≤ n ∧ Dead n acts s)
    ?_ (Or.inl .nil)
  rintro acts s act s' (hsurface | ⟨n, hn, hdead⟩) hstep
  · by_cases hact : s.OnSurface act
    · exact Or.inl (hsurface.snoc act ⟨hact, hstep⟩)
    · exact Or.inr (deep_step (surface_run hsurface) hact hstep)
  · exact Or.inr ⟨n, hn, hdead.step hstep⟩

/-- The death is broadcast at most once, and once when the health is gone and all calls
have returned. -/
def DiesOnce (acts : List DamageAct) (s : CallStack) : Prop :=
  acts.count .dies ≤ 1 ∧ (s.frames = [] → s.health = 0 → acts.count .dies = 1)

theorem surface_diesOnce (hrun : (damageSystem.restrict CallStack.OnSurface).Run {} acts s) :
    DiesOnce acts s := by
  rcases surface_run hrun with halive | hdead
  · have hdeaths := halive.deaths
    have hpos := halive.health
    exact ⟨by omega, fun _ hzero => by omega⟩
  · have hdeaths := hdead.deaths
    refine ⟨by omega, fun hframes _ => ?_⟩
    rw [hframes] at hdeaths
    exact hdeaths

/-- When all calls have returned, the death was broadcast as claimed exactly when the
calls kept to the surface. -/
theorem diesOnce_iff (hrun : damageSystem.Run {} acts s) (hframes : s.frames = []) :
    DiesOnce acts s ↔ (damageSystem.restrict CallStack.OnSurface).Run {} acts s := by
  refine ⟨fun honce => ?_, surface_diesOnce⟩
  rcases run_surface_or_deaths hrun with hsurface | ⟨n, hn, hdead⟩
  · exact hsurface
  · have hdeaths := hdead.deaths
    rw [hframes] at hdeaths
    have hone := honce.1
    simp only [List.countP_nil, Nat.add_zero] at hdeaths
    omega

end Deaths

/-- Whatever the listeners do and whatever the program: when it has come to its end, the
death was broadcast at most once, and once if the health is gone, exactly when every
call made from inside another call found no health or left some. And in every run of
such calls, whether they have returned or not, it is broadcast at most once, and has
been once when the health is gone and all calls have returned. -/
theorem death_broadcast_once_iff {ι σ : Type} {code : ι → BroadcastArgs → Reaction ι σ}
    {cells : Nat → σ} {depth : Nat} {ops : List (CharacterOp ι σ)} {c : Character ι σ}
    {acts : List DamageAct}
    (hplay : Character.play code depth ops (.new cells) = some (c, acts)) :
    ((acts.count .dies ≤ 1 ∧ (c.health = 0 → acts.count .dies = 1)) ↔
      (damageSystem.restrict CallStack.OnSurface).Run {} acts ⟨c.health, []⟩) ∧
    ∀ acts s, (damageSystem.restrict CallStack.OnSurface).Run {} acts s →
      acts.count .dies ≤ 1 ∧ (s.frames = [] → s.health = 0 → acts.count .dies = 1) := by
  have hrun : damageSystem.Run {} acts ⟨c.health, []⟩ := play_follows hplay []
  refine ⟨?_, fun acts s => surface_diesOnce⟩
  rw [← diesOnce_iff hrun rfl]
  exact and_congr_right fun _ => ⟨fun h _ => h, fun h => h rfl⟩

/-- A listener that takes damage itself the first time it is called. -/
def thornsOnce (damage : Nat) : Nat → BroadcastArgs → Reaction Nat Nat
  | 0, _ => .get fun calls => .set (calls + 1) <|
      if calls = 0 then .act (.takeDamage damage) fun _ => .done else .done
  | _, _ => .done

/-- The listener is subscribed, and the character takes damage twice. -/
def subscribeAndHit (damage : Nat) : List (CharacterOp Nat Nat) :=
  [.subscribe .onHealthChanged (.add (.createLambda 0) 0), .takeDamage damage,
    .takeDamage damage]

theorem death_broadcast_once_thorns : ∃ c acts,
    Character.play (thornsOnce 20) 2 (subscribeAndHit 60) (.new fun _ => 0) = some (c, acts) ∧
      c.health = 0 ∧ acts.count .dies = 1 ∧
      (damageSystem.restrict CallStack.OnSurface).Run {} acts ⟨c.health, []⟩ := by
  have hend : (Character.play (thornsOnce 20) 2 (subscribeAndHit 60) (.new fun _ => 0)).map
      (fun r => (r.1.health, r.2.count .dies)) = some (0, 1) := by decide
  obtain ⟨⟨c, acts⟩, hplay, hr⟩ := Option.map_eq_some_iff.mp hend
  obtain ⟨hhealth, hdeaths⟩ := Prod.mk.inj hr
  have hiff := (death_broadcast_once_iff hplay).1
  exact ⟨c, acts, hplay, hhealth, hdeaths, hiff.mp ⟨hdeaths.le, fun _ => hdeaths⟩⟩

/-- The damage that the listener takes kills: one call from outside, two deaths. -/
theorem death_broadcast_twice : ∃ c acts,
    Character.play (thornsOnce 60) 2
        [.subscribe .onHealthChanged (.add (.createLambda 0) 0), .takeDamage 60] (.new fun _ => 0) =
      some (c, acts) ∧ c.health = 0 ∧
      acts = [.takeDamage 60, .takeDamage 60, .dies, .returns, .dies, .returns] ∧
      ¬ (acts.count .dies ≤ 1 ∧ (c.health = 0 → acts.count .dies = 1)) := by
  have hend : (Character.play (thornsOnce 60) 2
      [.subscribe .onHealthChanged (.add (.createLambda 0) 0), .takeDamage 60] (.new fun _ => 0)).map
        (fun r => (r.1.health, r.2)) =
      some (0, [.takeDamage 60, .takeDamage 60, .dies, .returns, .dies, .returns]) := by
    decide
  obtain ⟨⟨c, acts⟩, hplay, hr⟩ := Option.map_eq_some_iff.mp hend
  obtain ⟨hhealth, hacts⟩ := Prod.mk.inj hr
  refine ⟨c, acts, hplay, hhealth, hacts, fun honce => ?_⟩
  have htwice : acts.count .dies = 2 := by
    rw [show acts = _ from hacts]
    rfl
  have hone := honce.1
  omega

end CppWorkspace.Delegates
