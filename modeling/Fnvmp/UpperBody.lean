import Fnvmp.AnimationActs

/-!
# Upper-body updates

The upper-body command is given when the action state changes and when a transition has
completed. During an attack animation an update is taken over without a command, and the
calls after it do not make up for that.
-/

namespace Fnvmp.Animation

open ExactFloat Engine Protocol CommandLog

/-- A command that plays an upper-body group. -/
def upperBodyCommand (lines : List Line) : Option (List Line) :=
  if lines = [.playGroup .reloadA 1] ∨ lines = [.playGroup .aimIS 1] ∨
    lines = [.playGroup .aim 1] then some lines else none

/-- The upper-body commands given to the NPC, oldest first. -/
def upperBody (npc : UInt32) (acts : List Act) : List (List Line) :=
  acts.filterMap (told npc upperBodyCommand)

theorem upperBodyCommand_action {actionState isWeaponOut : UInt8} {lines : List Line}
    (h : actionLines actionState isWeaponOut = some lines) :
    upperBodyCommand lines = some lines := by
  unfold actionLines at h
  split at h
  · cases h
    rfl
  · split at h
    · cases h
      rfl
    · split at h <;> cases h
      rfl

theorem upperBodyCommand_transition {lines : List Line}
    (h : ∀ l ∈ lines, ¬ Line.IsAnimation l) : upperBodyCommand lines = none := by
  rw [upperBodyCommand, if_neg]
  rintro (rfl | rfl | rfl) <;> exact h _ (List.mem_singleton_self _) (.inr ⟨_, _, rfl⟩)

theorem upperBodyCommand_locomotion {moveDir isRunning : UInt8} {lines : List Line}
    (h : locomotion moveDir isRunning = some lines) : upperBodyCommand lines = none := by
  unfold locomotion at h
  dsimp only at h
  split at h <;> cases h <;> by_cases hrun : isRunning = 0 <;> simp [hrun, upperBodyCommand]

variable (m : Module) (w : World) (npc : UInt32)

theorem upperBody_does {P : Act → Prop} {sc sc' : Scene} (h : Does P sc sc')
    (hP : ∀ a, P a → told npc upperBodyCommand a = none) :
    upperBody npc sc'.acts = upperBody npc sc.acts := by
  obtain ⟨more, hacts, hmore⟩ := h
  have hnil : more.filterMap (told npc upperBodyCommand) = [] :=
    List.filterMap_eq_nil_iff.mpr fun a ha => hP a (hmore a ha)
  rw [upperBody, upperBody, hacts, List.filterMap_append, hnil, List.append_nil]

theorem transitions_upperBody (net : NetState) (t : ℚ) (sc : Scene) :
    upperBody npc (transitions m w npc net t sc).acts = upperBody npc sc.acts :=
  upperBody_does npc (transitions_does m w npc net t sc) fun _ ha =>
    told_transition ha fun _ => upperBodyCommand_transition

theorem applyLocomotion_upperBody (moveDir isRunning : UInt8) (t : ℚ) (sc : Scene) :
    upperBody npc (applyLocomotion npc moveDir isRunning t sc).acts = upperBody npc sc.acts :=
  upperBody_does npc (applyLocomotion_does npc moveDir isRunning t sc) fun _ ha =>
    told_tells ha fun _ => upperBodyCommand_locomotion

/-- The command of the table, when an update is due and no attack is playing. -/
theorem applyActions_upperBody (actionState isWeaponOut : UInt8) (t : ℚ) (sc : Scene) :
    upperBody npc (applyActions npc actionState isWeaponOut t sc).acts = upperBody npc sc.acts ++
      if t < sc.st.attackAnimEndTime then []
      else if actionState ≠ sc.st.prevActionState ∨ sc.st.forceReapplyActions = true then
        (actionLines actionState isWeaponOut).toList
      else [] := by
  unfold applyActions
  split
  next hattack => exact (List.append_nil _).symm
  next hattack =>
    dsimp only
    by_cases hdue : actionState ≠ sc.st.prevActionState ∨ sc.st.forceReapplyActions = true
    · have hchanged : (decide (actionState ≠ sc.st.prevActionState) ||
          sc.st.forceReapplyActions) = true := by simpa using hdue
      rw [if_pos hdue, hchanged, if_neg (by decide)]
      cases hlines : actionLines actionState isWeaponOut with
      | none => exact (List.append_nil _).symm
      | some lines =>
        simp [upperBody, runCmd, runLine, told, upperBodyCommand_action hlines]
    · rw [if_neg hdue, if_pos (by simpa using hdue)]
      exact (List.append_nil _).symm

/-! ## Runs -/

/-- Between calls no reapplication is asked for. -/
theorem call_reapply (hconsole : m.console = true) (c : Call) {sc : Scene}
    (h : sc.st.forceReapplyActions = false) :
    (c.run m npc sc).st.forceReapplyActions = false := by
  cases c with
  | applyFire t =>
    obtain ⟨stop, hst⟩ := applyFire_st m npc t sc
    rw [Call.run, hst]
    exact h
  | applyState net t w =>
    rw [Call.run, applyState_eq m w npc hconsole]
    simp only [storePrev, applyActions_st]

/-- The action state a call carries. -/
def Call.actionState : Call → Option UInt8
  | .applyFire _ => none
  | .applyState net _ _ => some net.actionState

/-- The action state of the last call, none at first. -/
def prevAction (calls : List Call) : UInt8 := (latest Call.actionState calls).getD 0

theorem play_prevAction (hconsole : m.console = true) (acts : List Act) (calls : List Call) :
    (play m npc calls ⟨{}, acts⟩).st.prevActionState = prevAction calls := by
  induction calls using List.reverseRecOn with
  | nil => rfl
  | append_singleton calls c ih =>
    rw [play_snoc, prevAction, latest_snoc]
    cases c with
    | applyFire t =>
      obtain ⟨stop, hst⟩ := applyFire_st m npc t (play m npc calls ⟨{}, acts⟩)
      rw [Call.run, hst]
      exact ih
    | applyState net t w =>
      rw [Call.run, applyState_eq m w npc hconsole]
      rfl

/-- The upper-body commands of one call. -/
theorem applyState_upperBody (hconsole : m.console = true) (net : NetState) (t : ℚ) {sc : Scene}
    (h : sc.st.forceReapplyActions = false) :
    upperBody npc (applyState m w npc net t sc).acts = upperBody npc sc.acts ++
      if t < sc.st.attackAnimEndTime then []
      else if net.actionState ≠ sc.st.prevActionState ∨ completes m w npc t sc = true then
        (actionLines net.actionState net.isWeaponOut).toList
      else [] := by
  have hgroups := transitions_groups m w npc net t sc
  simp only [EntityAnimState.groups, GroupFields.mk.injEq] at hgroups
  obtain ⟨-, -, hprev, hreapply, hend⟩ := hgroups
  rw [h, Bool.false_or] at hreapply
  rw [applyState_eq m w npc hconsole]
  change upperBody npc (applyActions npc _ _ t _).acts = _
  rw [applyActions_upperBody, applyLocomotion_upperBody, transitions_upperBody, applyLocomotion_st,
    hend, hprev, hreapply]

/-- In every run, outside an attack window: the command for the current state is given
exactly once when the state changed or the NPC was restrained again by a completion, and
none otherwise, timeouts apart. Inside a window none is given, and the call takes the state
over all the same. -/
theorem upperBody_updates (acts : List Act) (calls : List Call) (hconsole : m.console = true)
    (net : NetState) (t : ℚ) :
    let sc := play m npc calls ⟨{}, acts⟩
    let sc' := applyState m w npc net t sc
    (sc.st.attackAnimEndTime ≤ t →
      net.actionState ≠ prevAction calls ∨ completes m w npc t sc = true →
      upperBody npc sc'.acts = upperBody npc sc.acts ++
        (actionLines net.actionState net.isWeaponOut).toList) ∧
    (t < sc.st.attackAnimEndTime → upperBody npc sc'.acts = upperBody npc sc.acts) ∧
    (net.actionState = prevAction calls →
      (pollUnrestrain m w npc t sc).st.isUnrestrained = sc.st.isUnrestrained →
      upperBody npc sc'.acts = upperBody npc sc.acts) := by
  intro sc sc'
  have hreapply : sc.st.forceReapplyActions = false := play_invariant
    (fun sc => sc.st.forceReapplyActions = false)
    (fun c _ hsc => call_reapply m npc hconsole c hsc) calls rfl
  have hprev : sc.st.prevActionState = prevAction calls := play_prevAction m npc hconsole acts calls
  have hstep := applyState_upperBody m w npc hconsole net t hreapply
  rw [hprev] at hstep
  refine ⟨fun houtside hdue => ?_, fun hinside => ?_, fun hsame hkept => ?_⟩
  · rw [hstep, if_neg (not_lt.mpr houtside), if_pos hdue]
  · rw [hstep, if_pos hinside, List.append_nil]
  · have hnone : ¬ (net.actionState ≠ prevAction calls ∨ completes m w npc t sc = true) := by
      cases hfree : sc.st.isUnrestrained <;> simp [hsame, completes, hkept, hfree]
    rw [hstep, if_neg hnone, ite_self, List.append_nil]

/-- The action state differs from the last call's, or the NPC is restrained again. -/
def Due (m : Module) (w : World) (npc : UInt32) (calls : List Call) (net : NetState) (t : ℚ)
    (sc : Scene) : Prop :=
  net.actionState ≠ prevAction calls ∨
    sc.st.isUnrestrained = true ∧ (pollUnrestrain m w npc t sc).st.isUnrestrained = false

/-- A call gives the command for its action state. -/
def Answers (m : Module) (w : World) (npc : UInt32) (net : NetState) (t : ℚ) (sc : Scene) : Prop :=
  upperBody npc (applyState m w npc net t sc).acts = upperBody npc sc.acts ++
    (actionLines net.actionState net.isWeaponOut).toList

/-- The engine of the runs below: every poll says 0, but for the weapon that is out. -/
def swinger : World :=
  ⟨true, 1, fun _ _ => true, fun _ _ script =>
    some (.fin (if script = .isWeaponOut then 1 else 0)), fun _ => .failed⟩

/-- Neither a timeout nor the end of an attack animation brings the command. -/
theorem upperBody_update_lost :
    (¬ ∀ (m : Module) (npc : UInt32) (acts : List Act) (calls : List Call) (net : NetState) (t : ℚ)
      (w : World), m.console = true →
      InOrder (calls ++ [.applyState net t w]) →
      let sc := play m npc calls ⟨{}, acts⟩
      sc.st.attackAnimEndTime ≤ t → Due m w npc calls net t sc → Answers m w npc net t sc) ∧
    ¬ ∀ (m : Module) (npc : UInt32) (acts : List Act) (calls : List Call) (net net' : NetState)
      (t t' : ℚ) (w w' : World), m.console = true →
      InOrder (calls ++ [.applyState net t w, .applyState net' t' w']) →
      let sc := play m npc calls ⟨{}, acts⟩
      let sc' := applyState m w npc net t sc
      t < sc.st.attackAnimEndTime → Due m w npc calls net t sc →
      sc'.st.attackAnimEndTime ≤ t' → Answers m w' npc net' t' sc' := by
  constructor
  · intro h
    have hanswers := h ⟨true, true, true, true, true, true⟩ 5 [.cmd 5 [.setRestrained true]]
      [.applyState { isWeaponOut := 1, actionState := 4, isSneaking := 1 } 0 swinger]
      { isWeaponOut := 1, actionState := 4, isSneaking := 1 } 3 swinger rfl (by decide +kernel)
      (by decide +kernel) (.inr (by decide +kernel))
    revert hanswers
    unfold Answers
    decide +kernel
  · intro h
    have hanswers := h ⟨true, true, true, true, true, true⟩ 5 [.cmd 5 [.setRestrained true]]
      [.applyState { isWeaponOut := 1 } 0 swinger, .applyFire 1]
      { isWeaponOut := 1, actionState := 4 } { isWeaponOut := 1, actionState := 4 } (3 / 2) 2
      swinger swinger rfl (by decide +kernel) (by decide +kernel) (.inl (by decide +kernel))
      (by decide +kernel)
    revert hanswers
    unfold Answers
    decide +kernel

/-- An aim that begins outside an attack window is shown. -/
theorem upperBody_updates_aim :
    let m : Module := ⟨true, true, true, true, true, true⟩
    let sc := play m 5 [.applyState { isWeaponOut := 1 } 0 swinger]
      ⟨{}, [.cmd 5 [.setRestrained true]]⟩
    upperBody 5 (applyState m swinger 5 { isWeaponOut := 1, actionState := 4 } 1 sc).acts =
      upperBody 5 sc.acts ++ (actionLines 4 1).toList :=
  (upperBody_updates ⟨true, true, true, true, true, true⟩ swinger 5 [.cmd 5 [.setRestrained true]]
    [.applyState { isWeaponOut := 1 } 0 swinger] rfl { isWeaponOut := 1, actionState := 4 } 1).1
    (by decide +kernel) (.inl (by decide +kernel))

end Fnvmp.Animation
