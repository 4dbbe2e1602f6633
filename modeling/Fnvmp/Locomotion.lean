import Fnvmp.AnimationActs

/-!
# The locomotion shown

A locomotion command is given when direction or gait differ from the previous call's.
The previous values are stored by every call, those during an attack animation included,
where no command is given: a change seen only then is never shown.
-/

namespace Fnvmp.Animation

open ExactFloat Engine Protocol CommandLog

/-! ## Locomotion commands -/

def AnimGroup.isLocomotion : AnimGroup → Bool
  | .idle | .forward | .backward | .left | .right => true
  | .fastForward | .fastBackward | .fastLeft | .fastRight => true
  | .turnLeft | .turnRight => true
  | _ => false

def Line.isLocomotion : Line → Bool
  | .playGroup group _ => AnimGroup.isLocomotion group
  | _ => false

/-- A command that plays a locomotion group. -/
def locomotionCommand (lines : List Line) : Option (List Line) :=
  if lines.any Line.isLocomotion then some lines else none

/-- The last locomotion command given to the NPC, `Idle` before the first. -/
def shown (npc : UInt32) (acts : List Act) : List Line :=
  (latest (told npc locomotionCommand) acts).getD [.playGroup .idle 1]

theorem locomotionCommand_table {moveDir isRunning : UInt8} {lines : List Line}
    (h : locomotion moveDir isRunning = some lines) : locomotionCommand lines = some lines := by
  unfold locomotion at h
  dsimp only at h
  split at h <;> cases h <;> by_cases hrun : isRunning = 0 <;>
    simp [hrun, locomotionCommand, Line.isLocomotion, AnimGroup.isLocomotion]

theorem locomotionCommand_action {actionState isWeaponOut : UInt8} {lines : List Line}
    (h : actionLines actionState isWeaponOut = some lines) : locomotionCommand lines = none := by
  unfold actionLines at h
  split at h
  · cases h
    rfl
  · split at h
    · cases h
      rfl
    · split at h <;> cases h
      rfl

theorem locomotionCommand_fire {lines : List Line} (h : FireCommand lines) :
    locomotionCommand lines = none := by
  rcases h with rfl | rfl | rfl | rfl | rfl <;> rfl

theorem locomotionCommand_transition {lines : List Line}
    (h : ∀ l ∈ lines, ¬ Line.IsAnimation l) : locomotionCommand lines = none := by
  rw [locomotionCommand, if_neg]
  simp only [List.any_eq_true, not_exists, not_and]
  intro l hl hmoves
  apply h l hl
  cases l with
  | playGroup group flag => exact .inr ⟨group, flag, rfl⟩
  | playWeaponSound => exact .inl rfl
  | disable | markForDelete | setRestrained | setCombatDisabled | addToFaction
  | setPlayerTeammate | setPos | setAngleZ | setForceSneak | setWeaponOut | setAlert =>
    cases hmoves

theorem locomotion_isSome {moveDir : UInt8} (h : (MoveDirection.ofCode moveDir).isSome)
    (isRunning : UInt8) : ∃ lines, locomotion moveDir isRunning = some lines := by
  obtain ⟨d, hd⟩ := Option.isSome_iff_exists.mp h
  unfold locomotion
  rw [hd]
  cases d <;> exact ⟨_, rfl⟩

/-! ## Calls -/

/-- The direction a call carries is one of the defined ones. -/
def Call.Directed : Call → Prop
  | .applyFire _ => True
  | .applyState net _ _ => (MoveDirection.ofCode net.moveDirection).isSome

/-- What the table selects for a call outside the attack window. -/
def Call.selects (sc : Scene) : Call → Option (List Line)
  | .applyFire _ => none
  | .applyState net t _ =>
    if t < sc.st.attackAnimEndTime then none else locomotion net.moveDirection net.isRunning

/-- The command the last call outside an attack window selected, `Idle` before the first. -/
def selected (m : Module) (npc : UInt32) (acts : List Act) (calls : List Call) : List Line :=
  (calls.foldl (fun (s : Scene × List Line) c => (c.run m npc s.1, (c.selects s.1).getD s.2))
    (⟨{}, acts⟩, [.playGroup .idle 1])).2

variable (m : Module) (w : World) (npc : UInt32)

theorem selected_snoc (acts : List Act) (calls : List Call) (c : Call) :
    selected m npc acts (calls ++ [c]) =
      (c.selects (play m npc calls ⟨{}, acts⟩)).getD (selected m npc acts calls) := by
  have hplay : ∀ (calls : List Call) (s : Scene × List Line), (calls.foldl
      (fun (s : Scene × List Line) c => (c.run m npc s.1, (c.selects s.1).getD s.2)) s).1 =
        play m npc calls s.1 := by
    intro calls
    induction calls with
    | nil => exact fun _ => rfl
    | cons c calls ih => exact fun s => ih _
  simp only [selected, List.foldl_append, List.foldl_cons, List.foldl_nil, hplay]

theorem shown_latest {acts acts' : List Act}
    (h : latest (told npc locomotionCommand) acts' = latest (told npc locomotionCommand) acts) :
    shown npc acts' = shown npc acts := by
  rw [shown, shown, h]

theorem transitions_shown (net : NetState) (t : ℚ) (sc : Scene) :
    shown npc (transitions m w npc net t sc).acts = shown npc sc.acts :=
  shown_latest npc ((transitions_does m w npc net t sc).latest fun _ ha =>
    told_transition ha fun _ => locomotionCommand_transition)

theorem applyActions_shown (actionState isWeaponOut : UInt8) (t : ℚ) (sc : Scene) :
    shown npc (applyActions npc actionState isWeaponOut t sc).acts = shown npc sc.acts :=
  shown_latest npc ((applyActions_does npc actionState isWeaponOut t sc).latest fun _ ha =>
    told_tells ha fun _ => locomotionCommand_action)

theorem applyFire_shown (t : ℚ) (sc : Scene) :
    shown npc (applyFire m npc t sc).acts = shown npc sc.acts :=
  shown_latest npc ((applyFire_does m npc t sc).latest fun _ ha =>
    told_tells ha fun _ => locomotionCommand_fire)

/-- The direction and gait of a call are those of the previous one. -/
def Repeats (net : NetState) (st : EntityAnimState) : Prop :=
  net.moveDirection = st.prevMoveDirection ∧ net.isRunning = st.prevIsRunning

instance (net : NetState) (st : EntityAnimState) : Decidable (Repeats net st) :=
  inferInstanceAs (Decidable (_ ∧ _))

/-- A call shows what the table selects, unless an attack is playing or nothing changed. -/
theorem applyState_shown (hconsole : m.console = true) (net : NetState) (t : ℚ) (sc : Scene)
    {lines : List Line} (htable : locomotion net.moveDirection net.isRunning = some lines) :
    shown npc (applyState m w npc net t sc).acts =
      if t < sc.st.attackAnimEndTime ∨ Repeats net sc.st then shown npc sc.acts else lines := by
  have hgroups := transitions_groups m w npc net t sc
  simp only [EntityAnimState.groups, GroupFields.mk.injEq] at hgroups
  obtain ⟨hdir, hrun, -, -, hend⟩ := hgroups
  rw [applyState_eq m w npc hconsole]
  change shown npc (applyActions npc _ _ t _).acts = _
  rw [applyActions_shown, applyLocomotion, hend, hdir, hrun]
  by_cases hattack : t < sc.st.attackAnimEndTime
  · rw [if_pos hattack, if_pos (.inl hattack)]
    exact transitions_shown m w npc net t sc
  · rw [if_neg hattack]
    by_cases hsame : net.moveDirection = sc.st.prevMoveDirection ∧
        net.isRunning = sc.st.prevIsRunning
    · have hrepeats : t < sc.st.attackAnimEndTime ∨ Repeats net sc.st := .inr hsame
      rw [if_pos hsame, if_pos hrepeats]
      exact transitions_shown m w npc net t sc
    · have hchanged : ¬ (t < sc.st.attackAnimEndTime ∨ Repeats net sc.st) :=
        fun h => h.elim hattack hsame
      rw [if_neg hsame, if_neg hchanged, htable]
      change shown npc (runCmd npc lines _).acts = lines
      rw [shown, told_runCmd, locomotionCommand_table htable]
      rfl

/-! ## Runs -/

/-- After a call outside the attack window the NPC shows what the table selects. -/
def ShowsTable (npc : UInt32) (net : NetState) (t : ℚ) (sc' : Scene) : Prop :=
  sc'.st.attackAnimEndTime ≤ t →
    locomotion net.moveDirection net.isRunning = some (shown npc sc'.acts)

/-- A call outside the attack window repeats the one before it, but the last call that was
outside the window selected something else. -/
def Stale (m : Module) (npc : UInt32) (acts : List Act) (calls : List Call) (net : NetState)
    (t : ℚ) : Prop :=
  let sc := play m npc calls ⟨{}, acts⟩
  sc.st.attackAnimEndTime ≤ t ∧ Repeats net sc.st ∧
    locomotion net.moveDirection net.isRunning ≠ some (selected m npc acts calls)

theorem applyState_attackEnd (net : NetState) (t : ℚ) (sc : Scene) :
    (applyState m w npc net t sc).st.attackAnimEndTime = sc.st.attackAnimEndTime := by
  by_cases hconsole : m.console = true
  · have hgroups := congrArg GroupFields.attackEnd (transitions_groups m w npc net t sc)
    rw [applyState_eq m w npc hconsole]
    simp only [storePrev, applyActions_st, applyLocomotion_st]
    exact hgroups
  · rw [applyState, if_pos (by simpa using hconsole)]

/-- As long as every call outside the window has shown its table entry, the NPC shows what
the last of them selected. -/
theorem shown_selected (hconsole : m.console = true) (acts : List Act)
    (hspawn : shown npc acts = [.playGroup .idle 1]) (calls : List Call)
    (hdirected : ∀ c ∈ calls, c.Directed)
    (h : ∀ before net t w after, calls = before ++ .applyState net t w :: after →
      ShowsTable npc net t (play m npc (before ++ [.applyState net t w]) ⟨{}, acts⟩)) :
    shown npc (play m npc calls ⟨{}, acts⟩).acts = selected m npc acts calls := by
  induction calls using List.reverseRecOn with
  | nil => exact hspawn
  | append_singleton calls c ih =>
    have hbefore := ih (fun c hc => hdirected c (List.mem_append_left _ hc))
      fun before net t w after hcut => h before net t w (after ++ [c]) (by simp [hcut])
    rw [selected_snoc]
    cases c with
    | applyFire t =>
      rw [play_snoc]
      exact (applyFire_shown m npc t _).trans hbefore
    | applyState net t w =>
      obtain ⟨lines, htable⟩ := locomotion_isSome (hdirected (.applyState net t w) (by simp))
        net.isRunning
      by_cases hattack : t < (play m npc calls ⟨{}, acts⟩).st.attackAnimEndTime
      · simp only [Call.selects, if_pos hattack, Option.getD_none]
        rw [play_snoc, ← hbefore]
        exact (applyState_shown m w npc hconsole net t _ htable).trans (if_pos (.inl hattack))
      · have htableShown := h calls net t w [] rfl
        rw [play_snoc] at htableShown ⊢
        simp only [Call.selects, if_neg hattack, htable, Option.getD_some]
        have hend := applyState_attackEnd m w npc net t (play m npc calls ⟨{}, acts⟩)
        have hshows := htableShown (by rw [Call.run, hend]; exact not_lt.mp hattack)
        rw [htable] at hshows
        exact (Option.some.inj hshows).symm

/-- Such a call shows its table entry exactly when it is not stale. -/
theorem applyState_showsTable_iff (hconsole : m.console = true) (acts : List Act)
    (calls : List Call) (net : NetState) (t : ℚ)
    (hdirected : (MoveDirection.ofCode net.moveDirection).isSome)
    (hshown : shown npc (play m npc calls ⟨{}, acts⟩).acts = selected m npc acts calls) :
    ShowsTable npc net t (applyState m w npc net t (play m npc calls ⟨{}, acts⟩)) ↔
      ¬ Stale m npc acts calls net t := by
  obtain ⟨lines, htable⟩ := locomotion_isSome hdirected net.isRunning
  have hstep := applyState_shown m w npc hconsole net t (play m npc calls ⟨{}, acts⟩) htable
  have hend := applyState_attackEnd m w npc net t (play m npc calls ⟨{}, acts⟩)
  unfold ShowsTable Stale
  rw [hend, hstep, htable, hshown]
  by_cases hattack : t < (play m npc calls ⟨{}, acts⟩).st.attackAnimEndTime
  · simp [not_le.mpr hattack]
  · by_cases hsame : Repeats net (play m npc calls ⟨{}, acts⟩).st
    · simp [hattack, hsame, not_lt.mp hattack]
    · simp [hattack, hsame]

/-- In a run every call outside an attack window shows its table entry, exactly when no
such call is stale. -/
theorem locomotion_shown_iff (acts : List Act) (calls : List Call) (hconsole : m.console = true)
    (hspawn : shown npc acts = [.playGroup .idle 1]) (hdirected : ∀ c ∈ calls, c.Directed) :
    (∀ before net t w after, calls = before ++ .applyState net t w :: after →
      ShowsTable npc net t (play m npc (before ++ [.applyState net t w]) ⟨{}, acts⟩)) ↔
    ∀ before net t w after, calls = before ++ .applyState net t w :: after →
      ¬ Stale m npc acts before net t := by
  constructor
  · intro h before net t w after hcut
    have hbefore := shown_selected m npc hconsole acts hspawn before
      (fun c hc => hdirected c (hcut ▸ List.mem_append_left _ hc))
      fun before' net' t' w' after' hcut' =>
        h before' net' t' w' (after' ++ .applyState net t w :: after) (by simp [hcut, hcut'])
    have hshows := h before net t w after hcut
    rw [play_snoc] at hshows
    refine (applyState_showsTable_iff m w npc hconsole acts before net t ?_ hbefore).mp hshows
    exact hdirected (.applyState net t w) (by simp [hcut])
  · intro h before
    induction hn : before.length using Nat.strong_induction_on generalizing before with
    | _ n ih =>
      intro net t w after hcut
      have hbefore := shown_selected m npc hconsole acts hspawn before
        (fun c hc => hdirected c (hcut ▸ List.mem_append_left _ hc))
        fun before' net' t' w' after' hcut' =>
          ih before'.length (by simp [← hn, hcut']) before' rfl net' t' w'
            (after' ++ .applyState net t w :: after) (by simp [hcut, hcut'])
      rw [play_snoc]
      refine (applyState_showsTable_iff m w npc hconsole acts before net t ?_ hbefore).mpr
        (h before net t w after hcut)
      exact hdirected (.applyState net t w) (by simp [hcut])

/-- The engine of the runs below: the NPC holds a melee weapon. -/
def brawler : World :=
  ⟨true, 1, fun _ _ => true, fun _ _ script =>
    some (.fin (if script = .isWeaponOut then 1 else 0)), fun _ => .failed⟩

/-- The NPC swings at 1 s; it starts to walk during the swing and goes on after it. -/
def swingAndWalk : List Call :=
  [.applyState { isWeaponOut := 1 } 0 brawler, .applyFire 1,
    .applyState { moveDirection := 1, isWeaponOut := 1 } (3 / 2) brawler,
    .applyState { moveDirection := 1, isWeaponOut := 1 } 2 brawler]

theorem locomotion_lost :
    ¬ ∀ (m : Module) (npc : UInt32) (acts : List Act) (calls : List Call), m.console = true →
      shown npc acts = [.playGroup .idle 1] → (∀ c ∈ calls, c.Directed) →
      InOrder calls →
      ∀ before net t w after, calls = before ++ .applyState net t w :: after →
        ShowsTable npc net t (play m npc (before ++ [.applyState net t w]) ⟨{}, acts⟩) := by
  intro h
  have hdirected : ∀ c ∈ swingAndWalk, c.Directed := by
    intro c hc
    simp only [swingAndWalk, List.mem_cons, List.not_mem_nil, or_false] at hc
    rcases hc with rfl | rfl | rfl | rfl <;> trivial
  have hshows := h ⟨true, true, true, true, true, true⟩ 5 [.cmd 5 [.setRestrained true]]
    swingAndWalk rfl (by decide) hdirected (by decide +kernel) (swingAndWalk.take 3)
    { moveDirection := 1, isWeaponOut := 1 } 2 brawler [] rfl (by decide +kernel)
  revert hshows
  decide +kernel

/-- Walking on in the same direction shows the walk. -/
theorem locomotion_shown_walk :
    ShowsTable 5 { moveDirection := 1 } 1 (play ⟨true, true, true, true, true, true⟩ 5
      [.applyState { moveDirection := 1 } 0 brawler, .applyState { moveDirection := 1 } 1 brawler]
      ⟨{}, [.cmd 5 [.setRestrained true]]⟩) := by
  refine (locomotion_shown_iff ⟨true, true, true, true, true, true⟩ 5
    [.cmd 5 [.setRestrained true]]
    [.applyState { moveDirection := 1 } 0 brawler, .applyState { moveDirection := 1 } 1 brawler]
    rfl (by decide) ?_).mpr ?_ [.applyState { moveDirection := 1 } 0 brawler] _ _ brawler [] rfl
  · intro c hc
    simp only [List.mem_cons, List.not_mem_nil, or_false] at hc
    rcases hc with rfl | rfl <;> trivial
  · intro before net t w after hcut hstale
    match before, hcut with
    | [], hcut =>
      cases hcut
      exact absurd hstale.2.1 (by decide)
    | [_], hcut =>
      cases hcut
      exact absurd rfl hstale.2.2
    | _ :: _ :: _, hcut => simp at hcut

end Fnvmp.Animation
