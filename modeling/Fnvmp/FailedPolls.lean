import Fnvmp.Detection
import Fnvmp.PendingConflicts

/-!
# Failed polls

A script call that fails counts as 0, and 0 is an answer too: the weapon is being drawn,
it is away, the actor does not sneak. Beside each function that polls stands the one
that makes the same call and lets a failure pass.
-/

namespace Fnvmp.Animation

open ExactFloat Engine Protocol CommandLog

/-! ## Letting a failure pass -/

section
variable (m : Module) (w : World) (npc : UInt32)

/-- The script call is made here and fails. -/
def failed (compiled : Bool) (script : Script) (sc : Scene) : Bool :=
  compiled && m.script && (w.call sc.acts npc script).isNone

namespace Answered

def pollDraw (sc : Scene) : Scene :=
  if sc.st.pendingOps.weaponDraw && failed m w npc m.exprGetAnimAction .getAnimAction sc then
    (pollAnimAction m w npc sc).2
  else Animation.pollDraw m w npc sc

def pollHolster (sc : Scene) : Scene :=
  if sc.st.pendingOps.weaponHolster && failed m w npc m.exprGetAnimAction .getAnimAction sc then
    (pollAnimAction m w npc sc).2
  else Animation.pollHolster m w npc sc

def pollSneakEnter (sc : Scene) : Scene :=
  if sc.st.pendingOps.sneakEnter && failed m w npc m.exprIsSneaking .isSneaking sc then
    (pollNumber m w npc m.exprIsSneaking .isSneaking sc).2
  else Animation.pollSneakEnter m w npc sc

def pollSneakExit (sc : Scene) : Scene :=
  if sc.st.pendingOps.sneakExit && failed m w npc m.exprIsSneaking .isSneaking sc then
    (pollNumber m w npc m.exprIsSneaking .isSneaking sc).2
  else Animation.pollSneakExit m w npc sc

def pollPending (sc : Scene) : Scene :=
  pollSneakExit m w npc (pollSneakEnter m w npc (pollHolster m w npc (pollDraw m w npc sc)))

def pollUnrestrain (currentTime : ℚ) (sc : Scene) : Scene :=
  if sc.st.isUnrestrained = false then sc
  else if currentTime - sc.st.unrestrainStartTime > unrestrainTimeout then
    let sc := runCmd npc [.setRestrained true] sc
    { sc with st := { sc.st with isUnrestrained := false, pendingOps := {} } }
  else settle npc (pollPending m w npc sc)

def weaponFallback (sc : Scene) : Scene :=
  if failed m w npc m.exprIsWeaponOut .isWeaponOut sc then
    (pollNumber m w npc m.exprIsWeaponOut .isWeaponOut sc).2
  else Animation.weaponFallback m w npc sc

def applyWeapon (netIsWeaponOut : UInt8) (currentTime : ℚ) (sc : Scene) : Scene :=
  if sc.st.pendingOps.weaponDraw || sc.st.pendingOps.weaponHolster then sc
  else
    let sc := weaponFallback m w npc sc
    let desiredWeaponOut := decide (netIsWeaponOut ≠ 0)
    if sc.st.npcWeaponOut = desiredWeaponOut then sc
    else if desiredWeaponOut then drawWeapon npc currentTime sc
    else holsterWeapon npc currentTime sc

end Answered

/-- The pending operations, what is known of the weapon, and the weapon orders given. -/
def tracked (sc : Scene) : PendingOps × Bool × Bool × List Bool :=
  (sc.st.pendingOps, sc.st.weaponAnimSeen, sc.st.npcWeaponOut, orders npc sc.acts)

/-- The scene in which `ApplyWeapon` is called. -/
def sneaked (net : NetState) (currentTime : ℚ) (sc : Scene) : Scene :=
  applySneak npc net.isSneaking currentTime (pollUnrestrain m w npc currentTime sc)

/-- A call does to all that is tracked what it does when failures are let pass. -/
def HeedsAnswers (net : NetState) (currentTime : ℚ) (sc : Scene) : Prop :=
  m.console = true →
    tracked npc (pollUnrestrain m w npc currentTime sc) =
        tracked npc (Answered.pollUnrestrain m w npc currentTime sc) ∧
      tracked npc (applyWeapon m w npc net.isWeaponOut currentTime
          (sneaked m w npc net currentTime sc)) =
        tracked npc (Answered.applyWeapon m w npc net.isWeaponOut currentTime
          (sneaked m w npc net currentTime sc))

/-! ## Failures that count -/

/-- A failed `GetAnimAction` counts while the draw has not been seen, or the holster has. -/
def MistakesAction (sc : Scene) : Prop :=
  (sc.st.pendingOps.weaponDraw = true ∧ sc.st.weaponAnimSeen = false ∨
    sc.st.pendingOps.weaponHolster = true ∧ sc.st.weaponAnimSeen = true) ∧
  failed m w npc m.exprGetAnimAction .getAnimAction sc = true

/-- A failed `IsSneaking` counts while the end of sneaking is pending. -/
def MistakesSneaking (sc : Scene) : Prop :=
  sc.st.pendingOps.sneakExit = true ∧
  failed m w npc m.exprIsSneaking .isSneaking
    (pollSneakEnter m w npc (pollHolster m w npc (pollDraw m w npc sc))) = true

/-- A failed `IsWeaponOut` counts while the weapon is taken to be out. -/
def MistakesWeapon (net : NetState) (t : ℚ) (sc : Scene) : Prop :=
  TakenOut m w npc t sc ∧
  failed m w npc m.exprIsWeaponOut .isWeaponOut (sneaked m w npc net t sc) = true

/-- One of the failures that count is met in a call. -/
def Mistakes (net : NetState) (currentTime : ℚ) (sc : Scene) : Prop :=
  m.console = true ∧
    (sc.st.isUnrestrained = true ∧
        currentTime - sc.st.unrestrainStartTime ≤ unrestrainTimeout ∧
        (MistakesAction m w npc sc ∨ MistakesSneaking m w npc sc) ∨
      MistakesWeapon m w npc net currentTime sc)

end

variable {m : Module} {w : World} {npc : UInt32}

theorem pollNumber_failed {compiled : Bool} {script : Script} {sc : Scene}
    (h : failed m w npc compiled script sc = true) :
    (pollNumber m w npc compiled script sc).1 = .fin 0 := by
  simp only [failed, Bool.and_eq_true, Option.isNone_iff_eq_none] at h
  simp [pollNumber, h]

theorem pollAnimAction_failed {sc : Scene}
    (h : failed m w npc m.exprGetAnimAction .getAnimAction sc = true) :
    (pollAnimAction m w npc sc).1 = 0 := by
  have hcompiled : m.exprGetAnimAction = true := by
    simp only [failed, Bool.and_eq_true] at h
    exact h.1.1
  rw [pollAnimAction, if_pos hcompiled]
  dsimp only
  rw [pollNumber_failed h]
  rfl

/-- A failed call looks like the weapon being drawn. -/
theorem pollDraw_failed {sc : Scene} (hpending : sc.st.pendingOps.weaponDraw = true)
    (h : failed m w npc m.exprGetAnimAction .getAnimAction sc = true) :
    pollDraw m w npc sc =
      ⟨{ sc.st with weaponAnimSeen := true }, (pollAnimAction m w npc sc).2.acts⟩ := by
  rw [pollDraw, if_pos hpending]
  simp [pollAnimAction_failed h]

/-- A failed call looks like anything but the weapon being holstered. -/
theorem pollHolster_failed {sc : Scene} (hpending : sc.st.pendingOps.weaponHolster = true)
    (h : failed m w npc m.exprGetAnimAction .getAnimAction sc = true) :
    pollHolster m w npc sc = if sc.st.weaponAnimSeen = true then
      ⟨{ sc.st with
        pendingOps := { sc.st.pendingOps with weaponHolster := false }
        weaponAnimSeen := false
        npcWeaponOut := false }, (pollAnimAction m w npc sc).2.acts⟩
      else (pollAnimAction m w npc sc).2 := by
  rw [pollHolster, if_pos hpending]
  simp [pollAnimAction_failed h]

theorem pollSneakEnter_failed {sc : Scene} (hpending : sc.st.pendingOps.sneakEnter = true)
    (h : failed m w npc m.exprIsSneaking .isSneaking sc = true) :
    pollSneakEnter m w npc sc = (pollNumber m w npc m.exprIsSneaking .isSneaking sc).2 := by
  have hstands : FloatVal.ge (.fin 0) (.fin 1) = false := by decide
  rw [pollSneakEnter, if_pos hpending]
  simp [pollNumber_failed h, hstands]

/-- A failed call looks like the end of sneaking. -/
theorem pollSneakExit_failed {sc : Scene} (hpending : sc.st.pendingOps.sneakExit = true)
    (h : failed m w npc m.exprIsSneaking .isSneaking sc = true) :
    pollSneakExit m w npc sc =
      ⟨{ sc.st with pendingOps := { sc.st.pendingOps with sneakExit := false } },
        (pollNumber m w npc m.exprIsSneaking .isSneaking sc).2.acts⟩ := by
  have hstands : FloatVal.fin 0 < FloatVal.fin 1 := by decide
  rw [pollSneakExit, if_pos hpending]
  simp [pollNumber_failed h, hstands]

/-! ## Failures that do not count -/

/-- A scene whose state is written back unchanged. -/
theorem scene_restore {sc sc' : Scene} (hst : sc'.st = sc.st) {st : EntityAnimState}
    (hsame : st = sc.st) : (⟨st, sc'.acts⟩ : Scene) = sc' := by
  cases sc'
  simp only [Scene.mk.injEq, and_true]
  exact hsame.trans hst.symm

theorem answered_pollDraw {sc : Scene} (h : ¬ MistakesAction m w npc sc) :
    Answered.pollDraw m w npc sc = pollDraw m w npc sc := by
  unfold Answered.pollDraw
  split
  · rename_i hfailed
    obtain ⟨hpending, hfailed⟩ := Bool.and_eq_true_iff.mp hfailed
    have hseen : sc.st.weaponAnimSeen = true := by
      by_contra hnot
      exact h ⟨.inl ⟨hpending, by simpa using hnot⟩, hfailed⟩
    rw [pollDraw_failed hpending hfailed]
    exact (scene_restore (pollAnimAction_st m w npc sc) (by rw [← hseen])).symm
  · rfl

theorem answered_pollHolster {sc : Scene} (h : ¬ MistakesAction m w npc sc) :
    Answered.pollHolster m w npc sc = pollHolster m w npc sc := by
  unfold Answered.pollHolster
  split
  · rename_i hfailed
    obtain ⟨hpending, hfailed⟩ := Bool.and_eq_true_iff.mp hfailed
    have hunseen : ¬ sc.st.weaponAnimSeen = true :=
      fun hseen => h ⟨.inr ⟨hpending, hseen⟩, hfailed⟩
    rw [pollHolster_failed hpending hfailed, if_neg hunseen]
  · rfl

/-- Not sneaking yet is no news while the NPC goes down. -/
theorem answered_pollSneakEnter (sc : Scene) :
    Answered.pollSneakEnter m w npc sc = pollSneakEnter m w npc sc := by
  unfold Answered.pollSneakEnter
  split
  · rename_i hfailed
    obtain ⟨hpending, hfailed⟩ := Bool.and_eq_true_iff.mp hfailed
    rw [pollSneakEnter_failed hpending hfailed]
  · rfl

theorem answered_pollSneakExit {sc : Scene} (h : ¬ (sc.st.pendingOps.sneakExit = true ∧
    failed m w npc m.exprIsSneaking .isSneaking sc = true)) :
    Answered.pollSneakExit m w npc sc = pollSneakExit m w npc sc := by
  unfold Answered.pollSneakExit
  split
  · rename_i hfailed
    exact absurd (Bool.and_eq_true_iff.mp hfailed) h
  · rfl

theorem answered_pollDraw_idle {sc : Scene} (h : sc.st.pendingOps.weaponDraw = false) :
    Answered.pollDraw m w npc sc = sc := by
  rw [Answered.pollDraw, if_neg (by simp [h]), pollDraw_idle m w npc h]

theorem answered_pollHolster_idle {sc : Scene} (h : sc.st.pendingOps.weaponHolster = false) :
    Answered.pollHolster m w npc sc = sc := by
  rw [Answered.pollHolster, if_neg (by simp [h]), pollHolster_idle m w npc h]

/-! ## Bits and polls -/

section
variable (m : Module) (w : World) (npc : UInt32)

/-- The three other polls leave the end of sneaking pending. -/
theorem polled_exit (sc : Scene) : (pollSneakEnter m w npc (pollHolster m w npc
    (pollDraw m w npc sc))).st.pendingOps.sneakExit = sc.st.pendingOps.sneakExit := by
  have hholster := congrArg Prod.snd (pollHolster_sneakBits m w npc (pollDraw m w npc sc))
  have hdraw := congrArg Prod.snd (pollDraw_sneakBits m w npc sc)
  exact (pollSneakEnter_exit m w npc _).trans (hholster.trans hdraw)

theorem answered_pollPending_weapon (sc : Scene) : (Answered.pollPending m w npc sc).st.weapon =
    (Answered.pollHolster m w npc (Answered.pollDraw m w npc sc)).st.weapon := by
  rw [Answered.pollPending, answered_pollSneakEnter, Answered.pollSneakExit]
  split
  · rw [pollNumber_st]
    exact pollSneakEnter_weapon m w npc _
  · exact (pollSneakExit_weapon m w npc _).trans (pollSneakEnter_weapon m w npc _)

end

/-- The two weapon polls, where a failure that does not count is let pass or not. -/
theorem answered_weapon {sc : Scene} (hone : OneWeapon sc) (h : ¬ MistakesAction m w npc sc) :
    Answered.pollHolster m w npc (Answered.pollDraw m w npc sc) =
      pollHolster m w npc (pollDraw m w npc sc) := by
  rw [answered_pollDraw h]
  by_cases hdraw : sc.st.pendingOps.weaponDraw = true
  · have hholster : (pollDraw m w npc sc).st.pendingOps.weaponHolster = false := by
      rw [pollDraw_holster]
      by_contra hnot
      exact hone ⟨hdraw, by simpa using hnot⟩
    rw [answered_pollHolster_idle hholster, pollHolster_idle m w npc hholster]
  · rw [pollDraw_idle m w npc (by simpa using hdraw)]
    exact answered_pollHolster h

/-- Where no failure counts, the polls are those that let failures pass. -/
theorem answered_pollPending {sc : Scene} (hone : OneWeapon sc)
    (haction : ¬ MistakesAction m w npc sc) (hsneaking : ¬ MistakesSneaking m w npc sc) :
    Answered.pollPending m w npc sc = pollPending m w npc sc := by
  rw [Answered.pollPending, answered_weapon hone haction, answered_pollSneakEnter]
  refine answered_pollSneakExit fun hmistake => hsneaking ⟨?_, hmistake.2⟩
  rw [← polled_exit m w npc sc]
  exact hmistake.1

/-! ## Failures that count -/

/-- The draw is taken to be seen, or the holster to be over. -/
theorem mistakesAction_shows {sc : Scene} (hone : OneWeapon sc) (h : MistakesAction m w npc sc) :
    (pollPending m w npc sc).st.weaponAnimSeen ≠
      (Answered.pollPending m w npc sc).st.weaponAnimSeen := by
  rw [weapon_seen (pollPending_weapon m w npc sc),
    weapon_seen (answered_pollPending_weapon m w npc sc)]
  obtain ⟨⟨hdraw, hunseen⟩ | ⟨hholster, hseen⟩, hfailed⟩ := h
  · have hholster : sc.st.pendingOps.weaponHolster = false := by
      by_contra hnot
      exact hone ⟨hdraw, by simpa using hnot⟩
    have hreal : pollHolster m w npc (pollDraw m w npc sc) = pollDraw m w npc sc :=
      pollHolster_idle m w npc (by rw [pollDraw_holster, hholster])
    have hdrawn : Answered.pollDraw m w npc sc = (pollAnimAction m w npc sc).2 := by
      rw [Answered.pollDraw, if_pos (by simp [hdraw, hfailed])]
    rw [hreal, pollDraw_failed hdraw hfailed, hdrawn,
      answered_pollHolster_idle (by simp [hholster]), pollAnimAction_st, hunseen]
    simp
  · have hdraw : sc.st.pendingOps.weaponDraw = false := by
      by_contra hnot
      exact hone ⟨by simpa using hnot, hholster⟩
    rw [pollDraw_idle m w npc hdraw, answered_pollDraw_idle hdraw, pollHolster_failed hholster hfailed,
      if_pos hseen, Answered.pollHolster, if_pos (by simp [hholster, hfailed]),
      pollAnimAction_st, hseen]
    simp

/-- Sneaking is taken to be over. -/
theorem mistakesSneaking_shows {sc : Scene} (hone : OneWeapon sc)
    (haction : ¬ MistakesAction m w npc sc) (h : MistakesSneaking m w npc sc) :
    (pollPending m w npc sc).st.pendingOps.sneakExit = false ∧
      (Answered.pollPending m w npc sc).st.pendingOps.sneakExit = true := by
  obtain ⟨hexit, hfailed⟩ := h
  rw [← polled_exit m w npc sc] at hexit
  constructor
  · rw [pollPending, pollSneakExit_failed hexit hfailed]
  · rw [Answered.pollPending, answered_weapon hone haction, answered_pollSneakEnter,
      Answered.pollSneakExit, if_pos (by simp [hexit, hfailed]), pollNumber_st]
    exact hexit

theorem settle_tracked (sc : Scene) : tracked npc (settle npc sc) = tracked npc sc := by
  unfold settle
  split
  · simp [tracked, runCmd, runLine, orders, Act.linesTo, Line.weaponOrder]
  · rfl

/-- `PollUnrestrain` lets failures pass exactly when none counts. -/
theorem pollUnrestrain_heeds_iff (t : ℚ) {sc : Scene} (hone : OneWeapon sc) :
    tracked npc (pollUnrestrain m w npc t sc) =
        tracked npc (Answered.pollUnrestrain m w npc t sc) ↔
      ¬ (sc.st.isUnrestrained = true ∧ t - sc.st.unrestrainStartTime ≤ unrestrainTimeout ∧
        (MistakesAction m w npc sc ∨ MistakesSneaking m w npc sc)) := by
  unfold pollUnrestrain Answered.pollUnrestrain
  by_cases hfree : sc.st.isUnrestrained = true
  · by_cases hlate : t - sc.st.unrestrainStartTime > unrestrainTimeout
    · simp [hfree, hlate, not_le.mpr hlate]
    · rw [if_neg (by simp [hfree]), if_neg hlate, if_neg (by simp [hfree]), if_neg hlate,
        settle_tracked, settle_tracked]
      constructor
      · rintro h ⟨-, -, hmistake⟩
        simp only [tracked, Prod.mk.injEq] at h
        by_cases haction : MistakesAction m w npc sc
        · exact mistakesAction_shows hone haction h.2.1
        · obtain ⟨hover, hpending⟩ :=
            mistakesSneaking_shows hone haction (hmistake.resolve_left haction)
          rw [h.1, hpending] at hover
          cases hover
      · intro h
        have hnone : ¬ (MistakesAction m w npc sc ∨ MistakesSneaking m w npc sc) :=
          fun hmistake => h ⟨hfree, not_lt.mp hlate, hmistake⟩
        rw [not_or] at hnone
        rw [answered_pollPending hone hnone.1 hnone.2]
  · simp [hfree]

/-! ## The fallback -/

theorem weaponFallback_failed {sc : Scene}
    (h : failed m w npc m.exprIsWeaponOut .isWeaponOut sc = true) :
    weaponFallback m w npc sc = if sc.st.npcWeaponOut = true then
      ⟨{ sc.st with npcWeaponOut := false },
        (pollNumber m w npc m.exprIsWeaponOut .isWeaponOut sc).2.acts⟩
      else (pollNumber m w npc m.exprIsWeaponOut .isWeaponOut sc).2 := by
  have hcompiled : m.exprIsWeaponOut = true := by
    simp only [failed, Bool.and_eq_true] at h
    exact h.1.1
  have haway : FloatVal.ge (.fin 0) (.fin 1) = false := by decide
  rw [weaponFallback, if_pos hcompiled]
  dsimp only
  rw [pollNumber_failed h, haway, pollNumber_st]
  cases sc.st.npcWeaponOut <;> simp

/-- Whatever `ApplyWeapon` starts, what it takes for the weapon's state is that of the
fallback. -/
theorem started_out (netIsWeaponOut : UInt8) (t : ℚ) (sc : Scene) :
    (if sc.st.npcWeaponOut = decide (netIsWeaponOut ≠ 0) then sc
      else if decide (netIsWeaponOut ≠ 0) then drawWeapon npc t sc
      else holsterWeapon npc t sc).st.npcWeaponOut = sc.st.npcWeaponOut := by
  have hfree := weapon_out (unrestrain_weapon npc t sc)
  split
  · rfl
  · split <;> exact hfree

/-- `ApplyWeapon` lets a failure pass exactly when it does not count. -/
theorem applyWeapon_heeds_iff (netIsWeaponOut : UInt8) (t : ℚ) (sc : Scene) :
    tracked npc (applyWeapon m w npc netIsWeaponOut t sc) =
        tracked npc (Answered.applyWeapon m w npc netIsWeaponOut t sc) ↔
      ¬ ((sc.st.pendingOps.weaponDraw = false ∧ sc.st.pendingOps.weaponHolster = false ∧
        sc.st.npcWeaponOut = true) ∧
        failed m w npc m.exprIsWeaponOut .isWeaponOut sc = true) := by
  unfold applyWeapon Answered.applyWeapon
  by_cases hbusy : (sc.st.pendingOps.weaponDraw || sc.st.pendingOps.weaponHolster) = true
  · rw [if_pos hbusy, if_pos hbusy]
    refine iff_of_true rfl fun hmistake => ?_
    rw [hmistake.1.1, hmistake.1.2.1] at hbusy
    cases hbusy
  · rw [if_neg hbusy, if_neg hbusy]
    dsimp only
    simp only [Bool.or_eq_true, not_or, Bool.not_eq_true] at hbusy
    constructor
    · rintro h ⟨⟨-, -, hout⟩, hfailed⟩
      have heq := congrArg (fun r => r.2.2.1) h
      simp only [tracked, started_out] at heq
      rw [weaponFallback_failed hfailed, if_pos hout, Answered.weaponFallback, if_pos hfailed,
        pollNumber_st, hout] at heq
      cases heq
    · intro h
      have hsame : Answered.weaponFallback m w npc sc = weaponFallback m w npc sc := by
        unfold Answered.weaponFallback
        split
        · rename_i hfailed
          rw [weaponFallback_failed hfailed, if_neg]
          exact fun hout => h ⟨⟨hbusy.1, hbusy.2, hout⟩, hfailed⟩
        · rfl
      rw [hsame]

/-! ## Runs of the animation -/

/-- In every state of a run, a call lets failures pass exactly when none counts. -/
theorem play_heeds_iff (m : Module) (w : World) (npc : UInt32) (acts : List Act)
    (calls : List Call) (net : NetState) (t : ℚ) :
    HeedsAnswers m w npc net t (play m npc calls ⟨{}, acts⟩) ↔
      ¬ Mistakes m w npc net t (play m npc calls ⟨{}, acts⟩) := by
  obtain ⟨hone, hfreed⟩ := play_handled m npc acts calls
  generalize play m npc calls ⟨{}, acts⟩ = sc at hone hfreed ⊢
  have hsneaked : (sneaked m w npc net t sc).st.weapon =
      (pollUnrestrain m w npc t sc).st.weapon := applySneak_weapon npc net.isSneaking t _
  have hweapon : ((sneaked m w npc net t sc).st.pendingOps.weaponDraw = false ∧
      (sneaked m w npc net t sc).st.pendingOps.weaponHolster = false ∧
      (sneaked m w npc net t sc).st.npcWeaponOut = true) ↔ TakenOut m w npc t sc := by
    rw [← hfreed.takenOut_iff hone, weapon_out hsneaked]
    have hdraw := awaits_eq hsneaked true
    have hholster := awaits_eq hsneaked false
    simp only [EntityAnimState.awaits, if_true, Bool.false_eq_true, if_false] at hdraw hholster
    rw [hdraw, hholster]
  rw [HeedsAnswers, pollUnrestrain_heeds_iff t hone, applyWeapon_heeds_iff, hweapon, Mistakes,
    MistakesWeapon]
  tauto

end Fnvmp.Animation

namespace Fnvmp.Detection

open ExactFloat Engine Protocol Net

/-! ## The sender -/

section
variable (x : Expressions) (net : NetClient) (w : World) (player : Player)

/-- The script call is made here and fails. -/
def failed (site : Site) : Bool := x.compiled site && x.script && (player.answer site).isNone

namespace Answered

def detectAction (s : Sender) : Sender × List Sent :=
  if w.thePlayer && failed x player .frameAction then (s, [])
  else Detection.detectAction x net w player s

def weaponFallback (s : Sender) : Sender :=
  if failed x player .weaponOut then s else Detection.weaponFallback x player s

def sendSnapshot (libm : Libm FloatVal) (dt : ℚ) (s : Sender) : Sender × NetClient × List Sent :=
  if net.connected && w.thePlayer && w.playerCell ≠ 0 then
    let accum := s.snapshotAccum + dt
    if snapshotSendInterval ≤ accum then
      let s := weaponFallback x player { s with snapshotAccum := accum - snapshotSendInterval }
      let (prev, direction) := computeMoveDirection libm s.prev (.ofBits player.posX)
        (.ofBits player.posY) (.ofBits player.posZ) (.ofBits player.rotZ)
      ({ s with prev := prev },
        sendPlayerSnapshot net (playerSnapshot x net w player direction s.isWeaponOut))
    else ({ s with snapshotAccum := accum }, net, [])
  else (s, net, [])

end Answered

/-- A frame detects what it detects when failures are let pass, and knows as much of the
weapon. -/
def HeedsAnswers (libm : Libm FloatVal) (dt : ℚ) (s : Sender) : Prop :=
  detectAction x net w player s = Answered.detectAction x net w player s ∧
  (sendSnapshot x net w player libm dt (detectAction x net w player s).1).1.isWeaponOut =
    (Answered.sendSnapshot x net w player libm dt
      (detectAction x net w player s).1).1.isWeaponOut

/-- The `IsWeaponOut` fallback is reached. -/
def Due (dt : ℚ) (s : Sender) : Prop :=
  (net.connected && w.thePlayer && w.playerCell ≠ 0) = true ∧
    snapshotSendInterval ≤ s.snapshotAccum + dt

/-- A failed `GetAnimAction` counts unless the last action was 0, and a failed
`IsWeaponOut` while the weapon is taken to be out. -/
def Mistakes (dt : ℚ) (s : Sender) : Prop :=
  w.thePlayer = true ∧ failed x player .frameAction = true ∧ s.prevAnimAction ≠ 0 ∨
  Due net w dt (detectAction x net w player s).1 ∧ failed x player .weaponOut = true ∧
    (detectAction x net w player s).1.isWeaponOut = true

end

variable {x : Expressions} {net : NetClient} {w : World} {player : Player}

theorem pollNumber_failed {site : Site} (h : failed x player site = true) :
    pollNumber x player site = .fin 0 := by
  simp only [failed, Bool.and_eq_true, Option.isNone_iff_eq_none] at h
  simp [pollNumber, h]

/-- A failed call looks like the weapon being drawn. -/
theorem detectAction_failed (hplayer : w.thePlayer = true)
    (h : failed x player .frameAction = true) (s : Sender) :
    detectAction x net w player s =
      ({ s with
        isWeaponOut := if s.prevAnimAction = 0 then s.isWeaponOut else true
        prevAnimAction := 0 }, []) := by
  have hcompiled : x.getAnimAction = true := by
    simp only [failed, Bool.and_eq_true] at h
    exact h.1.1
  have hzero : (pollNumber x player .frameAction).toInt32 = 0 := by
    rw [pollNumber_failed h]
    rfl
  rw [detectAction, if_pos (by simp [hplayer, hcompiled])]
  by_cases hprev : s.prevAnimAction = 0
  · simp [hzero, hprev, isAttackAction]
  · simp [hzero, hprev, isAttackAction]

theorem detectAction_heeds_iff (s : Sender) :
    detectAction x net w player s = Answered.detectAction x net w player s ↔
      ¬ (w.thePlayer = true ∧ failed x player .frameAction = true ∧ s.prevAnimAction ≠ 0) := by
  unfold Answered.detectAction
  by_cases hfailed : w.thePlayer = true ∧ failed x player .frameAction = true
  · rw [if_pos (by simp [hfailed]), detectAction_failed hfailed.1 hfailed.2]
    constructor
    · rintro h ⟨-, -, hprev⟩
      have heq := congrArg (fun r => r.1.prevAnimAction) h
      exact hprev heq.symm
    · intro h
      have hprev : s.prevAnimAction = 0 := by
        by_contra hne
        exact h ⟨hfailed.1, hfailed.2, hne⟩
      rw [if_pos hprev, ← hprev]
  · rw [if_neg (by simpa using hfailed)]
    exact iff_of_true rfl fun h => hfailed ⟨h.1, h.2.1⟩

theorem weaponFallback_failed (h : failed x player .weaponOut = true) (s : Sender) :
    weaponFallback x player s = { s with isWeaponOut := false } := by
  have hcompiled : x.isWeaponOut = true := by
    simp only [failed, Bool.and_eq_true] at h
    exact h.1.1
  have haway : FloatVal.ge (.fin 0) (.fin 1) = false := by decide
  rw [weaponFallback, if_pos hcompiled, pollNumber_failed h, haway]

theorem sendSnapshot_heeds_iff (libm : Libm FloatVal) (dt : ℚ) (s : Sender) :
    (sendSnapshot x net w player libm dt s).1.isWeaponOut =
        (Answered.sendSnapshot x net w player libm dt s).1.isWeaponOut ↔
      ¬ (Due net w dt s ∧ failed x player .weaponOut = true ∧ s.isWeaponOut = true) := by
  unfold sendSnapshot Answered.sendSnapshot Due
  by_cases hloaded : (net.connected && w.thePlayer && w.playerCell ≠ 0) = true
  · rw [if_pos hloaded, if_pos hloaded]
    dsimp only
    by_cases hdue : snapshotSendInterval ≤ s.snapshotAccum + dt
    · rw [if_pos hdue, if_pos hdue]
      dsimp only
      unfold Answered.weaponFallback
      by_cases hfailed : failed x player .weaponOut = true
      · rw [if_pos hfailed, weaponFallback_failed hfailed]
        dsimp only
        cases hout : s.isWeaponOut with
        | false => exact iff_of_true rfl fun h => Bool.false_ne_true h.2.2
        | true =>
          exact iff_of_false Bool.false_ne_true fun h => h ⟨⟨hloaded, hdue⟩, hfailed, rfl⟩
      · rw [if_neg hfailed]
        exact iff_of_true rfl fun h => hfailed h.2.1
    · rw [if_neg hdue, if_neg hdue]
      exact iff_of_true rfl fun h => hdue h.1.2
  · rw [if_neg hloaded, if_neg hloaded]
    exact iff_of_true rfl fun h => hloaded h.1.1

/-- A frame lets failures pass exactly when none counts. -/
theorem frame_heeds_iff (libm : Libm FloatVal) (dt : ℚ) (s : Sender) :
    HeedsAnswers x net w player libm dt s ↔ ¬ Mistakes x net w player dt s := by
  rw [HeedsAnswers, detectAction_heeds_iff, sendSnapshot_heeds_iff, Mistakes, not_or]

/-- In every run of the animation and of the main loop: failures are let pass in all
calls and frames exactly when none that counts is met. -/
theorem failed_polls_iff (m : Animation.Module) (npc : UInt32) (acts : List Act)
    (calls : List Animation.Call) (x : Expressions) (libm : Libm FloatVal) (g : Game)
    (ticks : List Tick) :
    ((∀ before net t w after, calls = before ++ .applyState net t w :: after →
        Animation.HeedsAnswers m w npc net t (Animation.play m npc before ⟨{}, acts⟩)) ↔
      ∀ before net t w after, calls = before ++ .applyState net t w :: after →
        ¬ Animation.Mistakes m w npc net t (Animation.play m npc before ⟨{}, acts⟩)) ∧
    ((∀ before t after g' sent plugin received, ticks = before ++ t :: after →
        EventRun.exec (mainGameLoop x libm) g before = some (g', sent) →
        Client.frame g'.plugin t.frame = some (plugin, received) →
        HeedsAnswers x plugin.net t.frame.world t.player libm t.frame.dt g'.sender) ↔
      ∀ before t after g' sent plugin received, ticks = before ++ t :: after →
        EventRun.exec (mainGameLoop x libm) g before = some (g', sent) →
        Client.frame g'.plugin t.frame = some (plugin, received) →
        ¬ Mistakes x plugin.net t.frame.world t.player t.frame.dt g'.sender) := by
  simp only [Animation.play_heeds_iff, frame_heeds_iff, and_self]

/-- Every script call is answered with 1. -/
def saysOne : World where
  thePlayer := true
  playerCell := 1
  resolve := fun _ _ => true
  call := fun _ _ _ => some (.fin 1)
  placeAtMe := fun _ => .failed

/-- Every script call fails. -/
def mute : World := { saysOne with call := fun _ _ _ => none }

/-- A holster is seen and its next poll fails; the first poll of the local player fails. -/
theorem failed_polls_count :
    (¬ ∀ (m : Animation.Module) (npc : UInt32) (acts : List Act) (calls : List Animation.Call)
      (net : Animation.NetState) (t : ℚ) (w : World),
      Animation.HeedsAnswers m w npc net t (Animation.play m npc calls ⟨{}, acts⟩)) ∧
    ¬ ∀ (x : Expressions) (libm : Libm FloatVal) (ticks : List Tick) (t : Tick) (g : Game)
      (sent received : List Sent) (plugin : Client.Plugin),
      EventRun.exec (mainGameLoop x libm) ⟨Client.start 0 true true true fun _ => true, {}⟩
        ticks = some (g, sent) →
      Client.frame g.plugin t.frame = some (plugin, received) →
      HeedsAnswers x plugin.net t.frame.world t.player libm t.frame.dt g.sender := by
  constructor
  · intro h
    have hover := (h ⟨true, true, true, true, true, true⟩ 5 [.cmd 5 [.setRestrained true]]
      [.applyState {} 0 saysOne, .applyState {} (1 / 2) saysOne] {} 1 mute rfl).1
    revert hover
    decide +kernel
  · intro h
    obtain ⟨⟨plugin, received⟩, hframe⟩ := Option.isSome_iff_exists.mp
      (show (Client.frame (Client.start 0 true true true fun _ => true) ⟨1 / 100, [], mute, 0⟩).isSome
        from by decide +kernel)
    have hheeds := h ⟨true, true, true, true, true, true⟩ ⟨fun _ => .fin 0, fun _ _ => .fin 0⟩ []
      ⟨⟨1 / 100, [], mute, 0⟩, ⟨0, 0, 0, 0, fun _ => none⟩⟩ _ [] received plugin rfl hframe
    exact (frame_heeds_iff ..).mp hheeds (.inl ⟨rfl, rfl, by decide⟩)

end Fnvmp.Detection
