import Fnvmp.AnimationEffects

/-!
# What each animation function asks and tells

The polls and the commands a function adds to the trace, act by act. A claim about
whole traces needs to know which expression is polled and which command is given.
-/

namespace Fnvmp.Animation

open ExactFloat Engine Protocol CommandLog

/-- `sc'` follows `sc` with more acts that are all `P`s. -/
def Does (P : Act → Prop) (sc sc' : Scene) : Prop :=
  ∃ more, sc'.acts = sc.acts ++ more ∧ ∀ a ∈ more, P a

/-- A poll of one of the scripts. -/
def Asks (S : Script → Prop) (npc : UInt32) (a : Act) : Prop :=
  ∃ script answer, S script ∧ a = .poll npc script answer

/-- A command whose lines are an `L`. -/
def Tells (L : List Line → Prop) (npc : UInt32) (a : Act) : Prop :=
  ∃ lines, L lines ∧ a = .cmd npc lines

section Does

variable {P Q : Act → Prop} {npc : UInt32}

theorem Does.none {sc sc' : Scene} (h : sc'.acts = sc.acts) : Does P sc sc' :=
  ⟨[], by simp [h], by simp⟩

theorem Does.refl (sc : Scene) : Does P sc sc := .none rfl

theorem Does.trans {a b c : Scene} (h : Does P a b) (h' : Does P b c) : Does P a c := by
  obtain ⟨more, hacts, hmore⟩ := h
  obtain ⟨more', hacts', hmore'⟩ := h'
  refine ⟨more ++ more', by rw [hacts', hacts, List.append_assoc], fun x hx => ?_⟩
  exact (List.mem_append.mp hx).elim (hmore x) (hmore' x)

theorem Does.mono {sc sc' : Scene} (h : Does P sc sc') (hPQ : ∀ a, P a → Q a) :
    Does Q sc sc' := by
  obtain ⟨more, hacts, hmore⟩ := h
  exact ⟨more, hacts, fun a ha => hPQ a (hmore a ha)⟩

/-- Acts that carry nothing leave the newest value. -/
theorem Does.latest {β : Type} {f : Act → Option β} {sc sc' : Scene} (h : Does P sc sc')
    (hf : ∀ a, P a → f a = Option.none) :
    CommandLog.latest f sc'.acts = CommandLog.latest f sc.acts := by
  obtain ⟨more, hacts, hmore⟩ := h
  rw [hacts, latest_silent f _ _ fun a ha => hf a (hmore a ha)]

theorem Does.since {β γ : Type} {f : Act → Option β} {g : Act → Option γ} {sc sc' : Scene}
    (h : Does P sc sc') (hf : ∀ a, P a → f a = Option.none ∧ g a = Option.none) :
    CommandLog.since f g sc'.acts = CommandLog.since f g sc.acts := by
  obtain ⟨more, hacts, hmore⟩ := h
  rw [hacts, since_silent f g _ _ fun a ha => hf a (hmore a ha)]

/-- Acts of which a projection shows nothing. -/
theorem Does.flatMap {β : Type} {f : Act → List β} {sc sc' : Scene} (h : Does P sc sc')
    (hf : ∀ a, P a → f a = []) : sc'.acts.flatMap f = sc.acts.flatMap f := by
  obtain ⟨more, hacts, hmore⟩ := h
  have hnil : more.flatMap f = [] := List.flatMap_eq_nil_iff.mpr fun a ha => hf a (hmore a ha)
  rw [hacts, List.flatMap_append, hnil, List.append_nil]

theorem Does.cmd {lines : List Line} (sc : Scene) (h : P (.cmd npc lines)) :
    Does P sc (runCmd npc lines sc) :=
  ⟨[.cmd npc lines], rfl, by simpa using h⟩

end Does

variable (m : Module) (w : World) (npc : UInt32)

theorem pollNumber_does (compiled : Bool) (script : Script) (sc : Scene) :
    Does (Asks (· = script) npc) sc (pollNumber m w npc compiled script sc).2 := by
  unfold pollNumber
  split
  · exact ⟨[.poll npc script (w.call sc.acts npc script)], rfl, by simp [Asks]⟩
  · exact .refl sc

theorem pollAnimAction_does (sc : Scene) :
    Does (Asks (· = .getAnimAction) npc) sc (pollAnimAction m w npc sc).2 := by
  unfold pollAnimAction
  split
  · exact pollNumber_does m w npc _ _ sc
  · exact .refl sc

theorem refreshWeaponType_does (sc : Scene) :
    Does (Asks (· = .getEquippedWeaponType) npc) sc (refreshWeaponType m w npc sc) := by
  unfold refreshWeaponType
  split
  · exact pollNumber_does m w npc _ _ sc
  · exact .refl sc

theorem Asks.mono {S T : Script → Prop} {npc : UInt32} {a : Act} (h : Asks S npc a)
    (hST : ∀ s, S s → T s) : Asks T npc a := by
  obtain ⟨script, answer, hs, rfl⟩ := h
  exact ⟨script, answer, hST script hs, rfl⟩

theorem pollDraw_does (sc : Scene) :
    Does (Asks (fun s => s = .getAnimAction ∨ s = .getEquippedWeaponType) npc) sc
      (pollDraw m w npc sc) := by
  have hpoll := (pollAnimAction_does m w npc sc).mono
    (Q := Asks (fun s => s = .getAnimAction ∨ s = .getEquippedWeaponType) npc)
    fun a ha => ha.mono fun _ => .inl
  have hrefresh : ∀ sc, Does (Asks (fun s => s = .getAnimAction ∨ s = .getEquippedWeaponType) npc)
      sc (refreshWeaponType m w npc sc) := fun sc =>
    (refreshWeaponType_does m w npc sc).mono fun a ha => ha.mono fun _ => .inr
  unfold pollDraw
  split
  · dsimp only
    split <;> split
    · exact hpoll.trans (hrefresh _)
    · exact hpoll
    · exact hpoll.trans (hrefresh _)
    · exact hpoll
  · exact .refl sc

theorem pollHolster_does (sc : Scene) :
    Does (Asks (· = .getAnimAction) npc) sc (pollHolster m w npc sc) := by
  have hpoll := pollAnimAction_does m w npc sc
  unfold pollHolster
  split
  · dsimp only
    split <;> split <;> exact hpoll
  · exact .refl sc

theorem pollSneakEnter_does (sc : Scene) :
    Does (Asks (· = .isSneaking) npc) sc (pollSneakEnter m w npc sc) := by
  have hpoll := pollNumber_does m w npc m.exprIsSneaking .isSneaking sc
  unfold pollSneakEnter
  split
  · dsimp only
    split <;> exact hpoll
  · exact .refl sc

theorem pollSneakExit_does (sc : Scene) :
    Does (Asks (· = .isSneaking) npc) sc (pollSneakExit m w npc sc) := by
  have hpoll := pollNumber_does m w npc m.exprIsSneaking .isSneaking sc
  unfold pollSneakExit
  split
  · dsimp only
    split <;> exact hpoll
  · exact .refl sc

/-- The polls of the pending operations never ask whether the weapon is out. -/
theorem pollPending_does (sc : Scene) :
    Does (Asks (· ≠ .isWeaponOut) npc) sc (pollPending m w npc sc) := by
  have hdraw := (pollDraw_does m w npc sc).mono (Q := Asks (· ≠ .isWeaponOut) npc)
    fun a ha => ha.mono (by rintro s (rfl | rfl) <;> decide)
  have hholster := fun sc => (pollHolster_does m w npc sc).mono (Q := Asks (· ≠ .isWeaponOut) npc)
    fun a ha => ha.mono (by rintro s rfl; decide)
  have henter := fun sc => (pollSneakEnter_does m w npc sc).mono
    (Q := Asks (· ≠ .isWeaponOut) npc) fun a ha => ha.mono (by rintro s rfl; decide)
  have hexit := fun sc => (pollSneakExit_does m w npc sc).mono
    (Q := Asks (· ≠ .isWeaponOut) npc) fun a ha => ha.mono (by rintro s rfl; decide)
  exact hdraw.trans <| (hholster _).trans <| (henter _).trans (hexit _)

/-- A poll of a pending operation, or the NPC being restrained. -/
def PollAct (npc : UInt32) (a : Act) : Prop :=
  Asks (· ≠ .isWeaponOut) npc a ∨ Tells (· = [.setRestrained true]) npc a

theorem pollUnrestrain_does (currentTime : ℚ) (sc : Scene) :
    Does (PollAct npc) sc (pollUnrestrain m w npc currentTime sc) := by
  have hsettle : ∀ sc, Does (PollAct npc) sc (runCmd npc [.setRestrained true] sc) :=
    fun sc => .cmd sc (.inr ⟨_, rfl, rfl⟩)
  have hpoll := (pollPending_does m w npc sc).mono (Q := PollAct npc) fun a => .inl
  obtain ⟨-, h⟩ | ⟨-, -, h⟩ | ⟨-, -, mid, rfl, ⟨-, h⟩ | ⟨-, h⟩⟩ :=
    pollUnrestrain_cases m w npc currentTime sc <;> rw [h]
  · exact .refl sc
  · exact hsettle sc
  · exact hpoll
  · exact hpoll.trans (hsettle _)

theorem unrestrain_does (currentTime : ℚ) (sc : Scene) :
    Does (Tells (· = [.setRestrained false]) npc) sc (unrestrain npc currentTime sc) := by
  unfold unrestrain
  split
  · exact .refl sc
  · exact .cmd sc ⟨_, rfl, rfl⟩

/-- The commands of a sneak transition. -/
def SneakCommand (lines : List Line) : Prop :=
  lines = [.setRestrained false] ∨ ∃ on, lines = [.setForceSneak on]

theorem applySneak_does (isSneaking : UInt8) (currentTime : ℚ) (sc : Scene) :
    Does (Tells SneakCommand npc) sc (applySneak npc isSneaking currentTime sc) := by
  have hfree := (unrestrain_does npc currentTime sc).mono (Q := Tells SneakCommand npc)
    fun a ⟨lines, hlines, ha⟩ => ⟨lines, .inl hlines, ha⟩
  unfold applySneak
  split
  · exact .refl sc
  · split
    · exact hfree.trans (.cmd _ ⟨_, .inr ⟨true, rfl⟩, rfl⟩)
    · exact hfree.trans (.cmd _ ⟨_, .inr ⟨false, rfl⟩, rfl⟩)

theorem applyLocomotion_does (moveDir isRunning : UInt8) (currentTime : ℚ) (sc : Scene) :
    Does (Tells (fun lines => locomotion moveDir isRunning = some lines) npc) sc
      (applyLocomotion npc moveDir isRunning currentTime sc) := by
  unfold applyLocomotion
  split
  · exact .refl sc
  · split
    · exact .refl sc
    · split
      · rename_i lines hlines
        exact .cmd sc ⟨lines, hlines, rfl⟩
      · exact .refl sc

theorem applyActions_does (actionState isWeaponOut : UInt8) (currentTime : ℚ) (sc : Scene) :
    Does (Tells (fun lines => actionLines actionState isWeaponOut = some lines) npc) sc
      (applyActions npc actionState isWeaponOut currentTime sc) := by
  unfold applyActions
  split
  · exact .none rfl
  · dsimp only
    split
    · exact .none rfl
    · split
      · rename_i lines hlines
        exact .cmd _ ⟨lines, hlines, rfl⟩
      · exact .none rfl

/-- The commands of a fire event. -/
def FireCommand (lines : List Line) : Prop :=
  lines = [.playGroup .attackLeftIS 1, .playGroup .aimIS 0] ∨
  lines = [.playGroup .attackLeft 1] ∨ lines = [.playWeaponSound] ∨
  lines = [.playGroup .attackRight 1] ∨ lines = [.playGroup .attackThrow6 1]

theorem applyFire_does (currentTime : ℚ) (sc : Scene) :
    Does (Tells FireCommand npc) sc (applyFire m npc currentTime sc) := by
  have attack : ∀ (sc : Scene) lines, FireCommand lines →
      Does (Tells FireCommand npc) sc (runCmd npc lines sc) :=
    fun sc lines h => .cmd sc ⟨lines, h, rfl⟩
  unfold applyFire
  split
  · exact .refl sc
  · dsimp only
    split
    · split
      · exact (attack sc _ (by simp [FireCommand])).trans (attack _ _ (by simp [FireCommand]))
      · exact (attack sc _ (by simp [FireCommand])).trans (attack _ _ (by simp [FireCommand]))
    · split
      · exact attack sc _ (by simp [FireCommand])
      · split
        · exact attack sc _ (by simp [FireCommand])
        · exact attack sc _ (by simp [FireCommand])

/-- Everything a call does before `ApplyLocomotion`. -/
def TransitionAct (npc : UInt32) (a : Act) : Prop :=
  Asks (fun _ => True) npc a ∨
    Tells (fun lines => ∀ l ∈ lines, ¬ Line.IsAnimation l) npc a

theorem pollUnrestrain_transition (currentTime : ℚ) (sc : Scene) :
    Does (TransitionAct npc) sc (pollUnrestrain m w npc currentTime sc) := by
  apply (pollUnrestrain_does m w npc currentTime sc).mono
  rintro a (hpoll | ⟨lines, rfl, rfl⟩)
  · exact .inl (hpoll.mono fun _ _ => trivial)
  · exact .inr ⟨_, by simp [Line.IsAnimation], rfl⟩

theorem applySneak_transition (isSneaking : UInt8) (currentTime : ℚ) (sc : Scene) :
    Does (TransitionAct npc) sc (applySneak npc isSneaking currentTime sc) := by
  apply (applySneak_does npc isSneaking currentTime sc).mono
  rintro a ⟨lines, rfl | ⟨on, rfl⟩, rfl⟩ <;> exact .inr ⟨_, by simp [Line.IsAnimation], rfl⟩

theorem weaponFallback_does (sc : Scene) :
    Does (Asks (fun _ => True) npc) sc (weaponFallback m w npc sc) := by
  have hpoll := (pollNumber_does m w npc m.exprIsWeaponOut .isWeaponOut sc).mono
    (Q := Asks (fun _ => True) npc) fun a ha => ha.mono fun _ _ => trivial
  have hrefresh : ∀ sc, Does (Asks (fun _ => True) npc) sc (refreshWeaponType m w npc sc) :=
    fun sc => (refreshWeaponType_does m w npc sc).mono fun a ha => ha.mono fun _ _ => trivial
  unfold weaponFallback
  split
  · dsimp only
    split
    · split
      · exact hpoll.trans (hrefresh _)
      · exact hpoll
    · exact hpoll
  · exact .refl sc

theorem applyWeapon_transition (isWeaponOut : UInt8) (currentTime : ℚ) (sc : Scene) :
    Does (TransitionAct npc) sc (applyWeapon m w npc isWeaponOut currentTime sc) := by
  have htell : ∀ (sc : Scene) lines, (∀ l ∈ lines, ¬ Line.IsAnimation l) →
      Does (TransitionAct npc) sc (runCmd npc lines sc) :=
    fun sc lines h => .cmd sc (.inr ⟨lines, h, rfl⟩)
  have hfallback := (weaponFallback_does m w npc sc).mono (Q := TransitionAct npc) fun a => .inl
  have hfree := (unrestrain_does npc currentTime (weaponFallback m w npc sc)).mono
    (Q := TransitionAct npc) (by
      rintro a ⟨lines, rfl, rfl⟩
      exact .inr ⟨_, by simp [Line.IsAnimation], rfl⟩)
  obtain ⟨-, h⟩ | ⟨-, -, mid, rfl, ⟨-, h⟩ | ⟨-, -, h⟩ | ⟨-, -, h⟩⟩ :=
    applyWeapon_cases m w npc isWeaponOut currentTime sc <;> rw [h]
  · exact .refl sc
  · exact hfallback
  · exact (hfallback.trans hfree).trans (htell _ _ (by simp [Line.IsAnimation]))
  · exact (hfallback.trans hfree).trans (htell _ _ (by simp [Line.IsAnimation]))

/-- What a call has done when it comes to the animation groups. -/
def transitions (net : NetState) (currentTime : ℚ) (sc : Scene) : Scene :=
  applyWeapon m w npc net.isWeaponOut currentTime
    (applySneak npc net.isSneaking currentTime (pollUnrestrain m w npc currentTime sc))

theorem transitions_does (net : NetState) (currentTime : ℚ) (sc : Scene) :
    Does (TransitionAct npc) sc (transitions m w npc net currentTime sc) :=
  (pollUnrestrain_transition m w npc currentTime sc).trans <|
    (applySneak_transition npc net.isSneaking currentTime _).trans
      (applyWeapon_transition m w npc net.isWeaponOut currentTime _)

/-- What a reading of commands makes of an act. -/
def told {β : Type} (npc : UInt32) (f : List Line → Option β) : Act → Option β
  | .cmd r lines => if r = npc then f lines else none
  | _ => none

section told

variable {npc : UInt32} {β : Type} {f : List Line → Option β} {a : Act}

theorem told_asks {S : Script → Prop} (h : Asks S npc a) : told npc f a = none := by
  obtain ⟨script, answer, -, rfl⟩ := h
  rfl

theorem told_tells {L : List Line → Prop} (h : Tells L npc a)
    (hL : ∀ lines, L lines → f lines = none) : told npc f a = none := by
  obtain ⟨lines, hlines, rfl⟩ := h
  rw [told, if_pos rfl, hL lines hlines]

/-- Transitions play no animation group. -/
theorem told_transition (h : TransitionAct npc a)
    (hf : ∀ lines, (∀ l ∈ lines, ¬ Line.IsAnimation l) → f lines = none) :
    told npc f a = none := by
  rcases h with h | h
  · exact told_asks h
  · exact told_tells h hf

theorem told_runCmd (lines : List Line) (sc : Scene) :
    latest (told npc f) (runCmd npc lines sc).acts =
      (f lines).or (latest (told npc f) sc.acts) := by
  rw [runCmd, runLine, latest_snoc, told, if_pos rfl]

end told

/-! ## The fields that decide about animation groups -/

structure GroupFields where
  moveDirection : UInt8
  isRunning : UInt8
  actionState : UInt8
  reapply : Bool
  attackEnd : ℚ
  deriving DecidableEq

def EntityAnimState.groups (st : EntityAnimState) : GroupFields :=
  ⟨st.prevMoveDirection, st.prevIsRunning, st.prevActionState, st.forceReapplyActions,
    st.attackAnimEndTime⟩

theorem groups_unpolled {st st' : EntityAnimState} (h : st'.unpolled = st.unpolled) :
    st'.groups = st.groups := by
  have hgroups := congrArg EntityAnimState.groups h
  exact hgroups

/-- The NPC is restrained again because nothing is pending any more. -/
def completes (currentTime : ℚ) (sc : Scene) : Bool :=
  sc.st.isUnrestrained && decide (currentTime - sc.st.unrestrainStartTime ≤ unrestrainTimeout) &&
    !(pollUnrestrain m w npc currentTime sc).st.isUnrestrained

/-- Only a completion asks for the actions to be applied again. -/
theorem pollUnrestrain_groups (currentTime : ℚ) (sc : Scene) :
    (pollUnrestrain m w npc currentTime sc).st.groups = { sc.st.groups with
      reapply := sc.st.forceReapplyActions || completes m w npc currentTime sc } := by
  have hpoll := groups_unpolled (pollPending_unpolled m w npc sc)
  have hfree := (pollPending_watches m w npc sc).isUnrestrained
  unfold completes
  obtain ⟨hrestrained, h⟩ | ⟨-, hlate, h⟩ | ⟨hbefore, hsoon, mid, rfl, ⟨-, h⟩ | ⟨-, h⟩⟩ :=
    pollUnrestrain_cases m w npc currentTime sc <;> rw [h]
  · simp [hrestrained, EntityAnimState.groups]
  · simp [not_le.mpr hlate, EntityAnimState.groups]
  · rw [hpoll, hfree, hbefore]
    simp [EntityAnimState.groups]
  · change { (pollPending m w npc sc).st.groups with reapply := true } = _
    rw [hpoll]
    simp [hbefore, hsoon]

theorem unrestrain_groups (currentTime : ℚ) (sc : Scene) :
    (unrestrain npc currentTime sc).st.groups = sc.st.groups := by
  rw [unrestrain_st]
  rfl

theorem applySneak_groups (isSneaking : UInt8) (currentTime : ℚ) (sc : Scene) :
    (applySneak npc isSneaking currentTime sc).st.groups = sc.st.groups := by
  have hfree := unrestrain_groups npc currentTime sc
  unfold applySneak
  split
  · rfl
  · split <;> exact hfree

theorem applyWeapon_groups (isWeaponOut : UInt8) (currentTime : ℚ) (sc : Scene) :
    (applyWeapon m w npc isWeaponOut currentTime sc).st.groups = sc.st.groups := by
  have hmid := groups_unpolled (weaponFallback_unpolled m w npc sc)
  have hfree := (unrestrain_groups npc currentTime (weaponFallback m w npc sc)).trans hmid
  obtain ⟨-, h⟩ | ⟨-, -, mid, rfl, ⟨-, h⟩ | ⟨-, -, h⟩ | ⟨-, -, h⟩⟩ :=
    applyWeapon_cases m w npc isWeaponOut currentTime sc <;> rw [h]
  · exact hmid
  · exact hfree
  · exact hfree

theorem transitions_groups (net : NetState) (currentTime : ℚ) (sc : Scene) :
    (transitions m w npc net currentTime sc).st.groups = { sc.st.groups with
      reapply := sc.st.forceReapplyActions || completes m w npc currentTime sc } := by
  rw [transitions, applyWeapon_groups, applySneak_groups, pollUnrestrain_groups]

/-- A call is its transitions, then the animation groups, then the previous values. -/
theorem applyState_eq (hconsole : m.console = true) (net : NetState) (currentTime : ℚ)
    (sc : Scene) : applyState m w npc net currentTime sc =
      storePrev net (applyActions npc net.actionState net.isWeaponOut currentTime
        (applyLocomotion npc net.moveDirection net.isRunning currentTime
          (transitions m w npc net currentTime sc))) := by
  rw [applyState, if_neg (by simp [hconsole])]
  rfl

theorem play_snoc (calls : List Call) (c : Call) (sc : Scene) :
    play m npc (calls ++ [c]) sc = c.run m npc (play m npc calls sc) := by
  rw [play, List.foldl_append]
  rfl

end Fnvmp.Animation
