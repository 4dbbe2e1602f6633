import Fnvmp.WeaponHandshake

/-!
# The cached weapon type

Both transitions clear the cached type. A finished draw and a correction by the fallback
fill it again; a holster that times out on an NPC whose weapon is still out does not.
-/

namespace Fnvmp.Animation

open ExactFloat Engine Protocol CommandLog

/-- The value of a poll of `GetEquippedWeaponType`, as an `int`. -/
def typePoll (npc : UInt32) : Act → Option Int
  | .poll r .getEquippedWeaponType answer =>
    if r = npc then some (answer.getD (.fin 0)).toInt32 else none
  | _ => none

/-- Whenever asked, the engine names one of the weapon types. -/
def Typed (w : World) (npc : UInt32) : Prop :=
  ∀ past, 0 ≤ ((w.call past npc .getEquippedWeaponType).getD (.fin 0)).toInt32 ∧
    ((w.call past npc .getEquippedWeaponType).getD (.fin 0)).toInt32 ≤ 13

/-- The cached type is the one last polled, and a type of weapons. -/
structure Valid (npc : UInt32) (sc : Scene) : Prop where
  polled : latest (typePoll npc) sc.acts = some sc.st.cachedWeaponType
  low : 0 ≤ sc.st.cachedWeaponType
  high : sc.st.cachedWeaponType ≤ 13

/-- With the weapon out and no operation pending the cached type is valid. -/
def Known (npc : UInt32) (sc : Scene) : Prop :=
  sc.st.npcWeaponOut = true → (∀ o, sc.st.awaits o = false) → Valid npc sc

/-- A pending operation has cleared the type, and has not changed the tracked state. -/
def Cleared (sc : Scene) : Prop :=
  ∀ out, sc.st.awaits out = true →
    sc.st.cachedWeaponType = -1 ∧ sc.st.npcWeaponOut = !out

theorem Cleared.fresh {sc : Scene} (h : ∀ o, sc.st.awaits o = false) : Cleared sc := by
  intro out hout
  rw [h out] at hout
  cases hout

theorem Cleared.of_same {sc sc' : Scene} (h : Cleared sc) (hweapon : sc'.st.weapon = sc.st.weapon) :
    Cleared sc' := by
  intro out hout
  rw [awaits_eq hweapon] at hout
  rw [weapon_wtype hweapon, weapon_out hweapon]
  exact h out hout

theorem Valid.of_same {npc : UInt32} {sc sc' : Scene} (h : Valid npc sc)
    (hweapon : sc'.st.weapon = sc.st.weapon)
    (hpolls : latest (typePoll npc) sc'.acts = latest (typePoll npc) sc.acts) : Valid npc sc' := by
  obtain ⟨hpolled, hlow, hhigh⟩ := h
  rw [← weapon_wtype hweapon] at hpolled hlow hhigh
  exact ⟨hpolls.trans hpolled, hlow, hhigh⟩

theorem Known.of_same {npc : UInt32} {sc sc' : Scene} (h : Known npc sc)
    (hweapon : sc'.st.weapon = sc.st.weapon)
    (hpolls : latest (typePoll npc) sc'.acts = latest (typePoll npc) sc.acts) : Known npc sc' := by
  intro hout hidle
  rw [weapon_out hweapon] at hout
  exact (h hout fun o => (awaits_eq hweapon o).symm.trans (hidle o)).of_same hweapon hpolls

/-- Nothing is claimed while an operation is pending. -/
theorem Known.pending {npc : UInt32} {sc : Scene} (out : Bool) (h : sc.st.awaits out = true) :
    Known npc sc := by
  intro _ hidle
  rw [hidle out] at h
  cases h

theorem Known.holstered {npc : UInt32} {sc : Scene} (h : sc.st.npcWeaponOut = false) :
    Known npc sc := by
  intro hout
  rw [h] at hout
  cases hout

variable (m : Module) (w : World) (npc : UInt32)

theorem latest_asks {S : Script → Prop} {sc sc' : Scene} (h : Does (Asks S npc) sc sc')
    (hS : ¬ S .getEquippedWeaponType) :
    latest (typePoll npc) sc'.acts = latest (typePoll npc) sc.acts := by
  apply h.latest
  rintro a ⟨script, answer, hs, rfl⟩
  cases script with
  | getEquippedWeaponType => exact absurd hs hS
  | isWeaponOut | isSneaking | getAnimAction => rfl

theorem latest_tells {L : List Line → Prop} {sc sc' : Scene} (h : Does (Tells L npc) sc sc') :
    latest (typePoll npc) sc'.acts = latest (typePoll npc) sc.acts := by
  apply h.latest
  rintro a ⟨lines, -, rfl⟩
  rfl

/-- The cached type is refreshed from a poll. -/
theorem refreshWeaponType_valid (hscript : m.script = true)
    (hcompiled : m.exprGetEquippedWeaponType = true) (hw : Typed w npc) (sc : Scene) :
    Valid npc (refreshWeaponType m w npc sc) := by
  rw [refreshWeaponType, if_pos hcompiled, pollNumber, if_pos (by simp [hscript, hcompiled])]
  refine ⟨?_, (hw _).1, (hw _).2⟩
  simp [latest_snoc, typePoll]

/-! ## Polling -/

theorem pollSneaks_same (sc : Scene) :
    (pollSneakExit m w npc (pollSneakEnter m w npc sc)).st.weapon = sc.st.weapon ∧
      latest (typePoll npc) (pollSneakExit m w npc (pollSneakEnter m w npc sc)).acts =
        latest (typePoll npc) sc.acts := by
  refine ⟨(pollSneakExit_weapon m w npc _).trans (pollSneakEnter_weapon m w npc sc), ?_⟩
  rw [latest_asks npc (pollSneakExit_does m w npc _) (by decide),
    latest_asks npc (pollSneakEnter_does m w npc sc) (by decide)]

/-- A draw that is no longer pending after its poll has its type. -/
theorem pollDraw_valid (hscript : m.script = true) (hcompiled : m.exprGetEquippedWeaponType = true)
    (hw : Typed w npc) {sc : Scene} (h : sc.st.awaits true = true)
    (hdone : (pollDraw m w npc sc).st.awaits true = false) : Valid npc (pollDraw m w npc sc) := by
  have hst := pollAnimAction_st m w npc sc
  have hdraw : sc.st.pendingOps.weaponDraw = true := h
  unfold pollDraw at hdone ⊢
  rw [if_pos hdraw] at hdone ⊢
  dsimp only at hdone ⊢
  by_cases hv : (pollAnimAction m w npc sc).1 = 0
  · rw [if_pos hv, if_neg (by simp [hv])] at hdone
    change (pollAnimAction m w npc sc).2.st.awaits true = false at hdone
    rw [hst, h] at hdone
    cases hdone
  · rw [if_neg hv] at hdone ⊢
    split at hdone
    next hfinished =>
      rw [if_pos hfinished]
      exact refreshWeaponType_valid m w npc hscript hcompiled hw _
    next =>
      rw [hst, h] at hdone
      cases hdone

/-- With no operation pending the polls do not touch the weapon. -/
theorem pollUnrestrain_idle (currentTime : ℚ) {sc : Scene} (h : ∀ o, sc.st.awaits o = false) :
    (pollUnrestrain m w npc currentTime sc).st.weapon = sc.st.weapon ∧
      latest (typePoll npc) (pollUnrestrain m w npc currentTime sc).acts =
        latest (typePoll npc) sc.acts := by
  have hdraw : sc.st.pendingOps.weaponDraw = false := h true
  have hholster : sc.st.pendingOps.weaponHolster = false := h false
  have hskip : pollHolster m w npc (pollDraw m w npc sc) = sc := by
    have hskip : pollDraw m w npc sc = sc := by rw [pollDraw, if_neg (by simp [hdraw])]
    rw [hskip, pollHolster, if_neg (by simp [hholster])]
  have hpoll := pollSneaks_same m w npc sc
  have hsettle : ∀ sc, latest (typePoll npc) (runCmd npc [.setRestrained true] sc).acts =
      latest (typePoll npc) sc.acts := fun sc =>
    latest_tells npc (L := (· = [.setRestrained true])) (.cmd sc ⟨_, rfl, rfl⟩)
  obtain ⟨-, heq⟩ | ⟨-, -, heq⟩ | ⟨-, -, mid, hmid, ⟨-, heq⟩ | ⟨-, heq⟩⟩ :=
    pollUnrestrain_cases m w npc currentTime sc <;> rw [heq]
  · exact ⟨rfl, rfl⟩
  · refine ⟨?_, hsettle sc⟩
    simp [EntityAnimState.weapon, hdraw, hholster]
  · rw [hmid, pollPending, hskip]
    exact hpoll
  · rw [hmid, pollPending, hskip]
    exact ⟨hpoll.1, (hsettle _).trans hpoll.2⟩

/-- A draw found carried out leaves the type known. -/
theorem pollUnrestrain_drawn (hscript : m.script = true) (hanim : m.exprGetAnimAction = true)
    (hcompiled : m.exprGetEquippedWeaponType = true) (hw : Typed w npc) (currentTime : ℚ)
    {sc : Scene} (htracks : Tracks npc sc) (hdraw : sc.st.awaits true = true)
    (hsoon : currentTime - sc.st.unrestrainStartTime ≤ unrestrainTimeout)
    (hdone : (pollUnrestrain m w npc currentTime sc).st.awaits true = false) :
    Valid npc (pollUnrestrain m w npc currentTime sc) := by
  have hvalid : (pollPending m w npc sc).st.awaits true = false →
      Valid npc (pollPending m w npc sc) := by
    intro hnone
    obtain ⟨hsneaks, hpolls⟩ := pollSneaks_same m w npc (pollHolster m w npc (pollDraw m w npc sc))
    have hafter : (pollHolster m w npc (pollDraw m w npc sc)).st.awaits true = false :=
      (awaits_eq hsneaks true).symm.trans hnone
    obtain ⟨htracks', hturn⟩ := pollDraw_turn m w npc hscript hanim htracks
    obtain ⟨-, hturn'⟩ := pollHolster_turn m w npc hscript hanim htracks'
    have hholster : sc.st.awaits false = false := htracks.one hdraw
    have hskip : pollHolster m w npc (pollDraw m w npc sc) = pollDraw m w npc sc := by
      have hno : (pollDraw m w npc sc).st.awaits false = false := by
        cases hturn with
        | waits ops => rw [ops, hholster]
        | done _ hnone => exact hnone false
      have hno' : (pollDraw m w npc sc).st.pendingOps.weaponHolster = false := hno
      rw [pollHolster, if_neg (by simp [hno'])]
    rw [hskip] at hafter
    refine Valid.of_same ?_ hsneaks hpolls
    rw [hskip]
    exact pollDraw_valid m w npc hscript hcompiled hw hdraw hafter
  obtain ⟨-, heq⟩ | ⟨-, hlate, -⟩ | ⟨-, -, mid, rfl, ⟨-, heq⟩ | ⟨-, heq⟩⟩ :=
    pollUnrestrain_cases m w npc currentTime sc
  · rw [heq, hdraw] at hdone
    cases hdone
  · exact absurd hsoon (not_le.mpr hlate)
  · rw [heq] at hdone ⊢
    exact hvalid hdone
  · rw [heq] at hdone ⊢
    refine (hvalid hdone).of_same rfl ?_
    exact latest_tells npc (L := (· = [.setRestrained true])) (.cmd _ ⟨_, rfl, rfl⟩)

/-- The timeout strikes while a holster is pending. -/
def HolsterTimesOut (currentTime : ℚ) (st : EntityAnimState) : Prop :=
  st.pendingOps.weaponHolster = true ∧ st.isUnrestrained = true ∧
    unrestrainTimeout < currentTime - st.unrestrainStartTime

theorem pollUnrestrain_known (hscript : m.script = true) (hanim : m.exprGetAnimAction = true)
    (hcompiled : m.exprGetEquippedWeaponType = true) (hw : Typed w npc) (currentTime : ℚ)
    {sc : Scene} (htracks : Tracks npc sc) (hclear : Cleared sc) (h : Known npc sc)
    (hkept : ¬ HolsterTimesOut currentTime sc.st) :
    Known npc (pollUnrestrain m w npc currentTime sc) := by
  by_cases hbusy : ∃ out, sc.st.awaits out = true
  · obtain ⟨out, hbusy⟩ := hbusy
    obtain ⟨-, htracked⟩ := hclear out hbusy
    obtain ⟨-, ⟨hlate, -, hsame⟩ | ⟨o, ⟨hops, -, -⟩ | ⟨hawaited, hnone, hout, -⟩⟩⟩ :=
      pollUnrestrain_turn m w npc hscript hanim currentTime htracks
    · -- of the two operations only the draw can have been given up
      cases out with
      | true => exact .holstered (hsame.trans htracked)
      | false =>
        obtain ⟨-, heq⟩ | ⟨hfree, -, -⟩ | ⟨-, hsoon, -⟩ :=
          pollUnrestrain_cases m w npc currentTime sc
        · exact .pending false (by rw [heq]; exact hbusy)
        · exact absurd ⟨hbusy, hfree, hlate⟩ hkept
        · exact absurd hsoon (not_le.mpr hlate)
    · exact .pending out ((hops out).trans hbusy)
    · cases o with
      | true =>
        intro _ _
        by_cases hsoon : currentTime - sc.st.unrestrainStartTime ≤ unrestrainTimeout
        · exact pollUnrestrain_drawn m w npc hscript hanim hcompiled hw currentTime htracks hawaited
            hsoon (hnone true)
        · obtain rfl := htracks.unique hawaited hbusy
          obtain ⟨-, heq⟩ | ⟨-, -, heq⟩ | ⟨-, hsoon', -⟩ :=
            pollUnrestrain_cases m w npc currentTime sc
          · have hstill := hnone true
            rw [heq, hbusy] at hstill
            cases hstill
          · rw [heq] at hout
            exact absurd (htracked.symm.trans hout) (by decide)
          · exact absurd hsoon' hsoon
      | false => exact .holstered hout
  · have hidle : ∀ o, sc.st.awaits o = false := fun o =>
      Bool.eq_false_iff.mpr fun ho => hbusy ⟨o, ho⟩
    obtain ⟨hweapon, hpolls⟩ := pollUnrestrain_idle m w npc currentTime hidle
    exact h.of_same hweapon hpolls

theorem pollUnrestrain_cleared (hscript : m.script = true) (hanim : m.exprGetAnimAction = true)
    (currentTime : ℚ) {sc : Scene} (htracks : Tracks npc sc) (hclear : Cleared sc) :
    Cleared (pollUnrestrain m w npc currentTime sc) := by
  obtain ⟨-, ⟨-, hnone, -⟩ | ⟨o, ⟨hops, htracked, htype⟩ | ⟨-, hnone, -, -⟩⟩⟩ :=
    pollUnrestrain_turn m w npc hscript hanim currentTime htracks
  · exact .fresh hnone
  · intro out hout
    obtain ⟨hcleared, hsame⟩ := hclear out ((hops out).symm.trans hout)
    exact ⟨htype.trans hcleared, htracked.trans hsame⟩
  · exact .fresh hnone

/-! ## The fallback -/

/-- The answer to a poll of `IsWeaponOut` at this point. -/
def saysOut (w : World) (npc : UInt32) (past : List Act) : Bool :=
  ((w.call past npc .isWeaponOut).getD (.fin 0)).ge (.fin 1)

/-- The fallback refreshes the type only when the tracked state was wrong. -/
theorem weaponFallback_cases (hscript : m.script = true) (hout : m.exprIsWeaponOut = true)
    (hcompiled : m.exprGetEquippedWeaponType = true) (hw : Typed w npc) (sc : Scene) :
    let sc' := weaponFallback m w npc sc
    sc'.st.npcWeaponOut = saysOut w npc sc.acts ∧ (∀ o, sc'.st.awaits o = sc.st.awaits o) ∧
    (saysOut w npc sc.acts = sc.st.npcWeaponOut ∧ sc'.st = sc.st ∧
      latest (typePoll npc) sc'.acts = latest (typePoll npc) sc.acts ∨
    saysOut w npc sc.acts ≠ sc.st.npcWeaponOut ∧
      (saysOut w npc sc.acts = true → Valid npc sc')) := by
  have hpoll : pollNumber m w npc m.exprIsWeaponOut .isWeaponOut sc =
      ((w.call sc.acts npc .isWeaponOut).getD (.fin 0),
        ⟨sc.st, sc.acts ++ [.poll npc .isWeaponOut (w.call sc.acts npc .isWeaponOut)]⟩) := by
    rw [pollNumber, if_pos (by simp [hscript, hout])]
  have hreply : ((w.call sc.acts npc .isWeaponOut).getD (.fin 0)).ge (.fin 1) =
      saysOut w npc sc.acts := rfl
  rw [weaponFallback, if_pos hout, hpoll]
  dsimp only
  rw [hreply]
  by_cases hsame : saysOut w npc sc.acts = sc.st.npcWeaponOut
  · rw [if_neg (not_not.mpr hsame)]
    refine ⟨hsame.symm, fun _ => rfl, .inl ⟨hsame, rfl, ?_⟩⟩
    exact latest_silent _ _ _ (by simp [typePoll])
  · rw [if_pos hsame]
    cases hyes : saysOut w npc sc.acts with
    | true =>
      rw [if_pos rfl]
      obtain ⟨wtype, hst⟩ := refreshWeaponType_st m w npc ⟨{ sc.st with npcWeaponOut := true },
        sc.acts ++ [.poll npc .isWeaponOut (w.call sc.acts npc .isWeaponOut)]⟩
      refine ⟨by rw [hst], fun o => by rw [hst]; rfl, .inr ⟨hyes ▸ hsame, fun _ => ?_⟩⟩
      exact refreshWeaponType_valid m w npc hscript hcompiled hw _
    | false =>
      rw [if_neg (by decide)]
      exact ⟨rfl, fun _ => rfl, .inr ⟨hyes ▸ hsame, fun h => absurd h (by decide)⟩⟩

theorem weaponFallback_known (hscript : m.script = true) (hout : m.exprIsWeaponOut = true)
    (hcompiled : m.exprGetEquippedWeaponType = true) (hw : Typed w npc) {sc : Scene}
    (h : Known npc sc) : Known npc (weaponFallback m w npc sc) := by
  obtain ⟨htracked, -, ⟨-, hst, hpolls⟩ | ⟨-, hvalid⟩⟩ :=
    weaponFallback_cases m w npc hscript hout hcompiled hw sc
  · exact h.of_same (by rw [hst]) hpolls
  · intro hyes _
    exact hvalid (htracked.symm.trans hyes)

theorem weaponFallback_idle (sc : Scene) {o : Bool} (h : sc.st.awaits o = false) :
    (weaponFallback m w npc sc).st.awaits o = false := by
  have hops := weaponFallback_ops m w npc sc
  simp only [EntityAnimState.awaits, hops]
  exact h

theorem applyWeapon_cleared (isWeaponOut : UInt8) (currentTime : ℚ) {sc : Scene}
    (hclear : Cleared sc) : Cleared (applyWeapon m w npc isWeaponOut currentTime sc) := by
  have hdone : ∀ out sc', (∀ o, sc.st.awaits o = false) →
      Ordered npc out (weaponFallback m w npc sc) sc' → sc'.st.cachedWeaponType = -1 →
      (weaponFallback m w npc sc).st.npcWeaponOut = (!out) → Cleared sc' := by
    intro out sc' hnone hordered htype hin o ho
    have htracks := hordered.tracks fun o => weaponFallback_idle m w npc sc (hnone o)
    obtain rfl := htracks.unique hordered.awaited ho
    exact ⟨htype, hordered.tracked.trans hin⟩
  obtain ⟨-, heq⟩ | ⟨hdraw, hholster, mid, rfl, hrest⟩ :=
    applyWeapon_cases m w npc isWeaponOut currentTime sc
  · rw [heq]
    exact hclear
  · have hnone : ∀ o, sc.st.awaits o = false := by
      intro o
      cases o
      · exact hholster
      · exact hdraw
    obtain ⟨-, heq⟩ | ⟨hin, -, heq⟩ | ⟨hin, -, heq⟩ := hrest <;> rw [heq]
    · exact .fresh fun o => weaponFallback_idle m w npc sc (hnone o)
    · exact hdone true _ hnone (drawWeapon_ordered npc currentTime _) rfl hin
    · exact hdone false _ hnone (holsterWeapon_ordered npc currentTime _) rfl hin

/-- `ApplyWeapon` leaves the type known if it was, if the NPC has its weapon in, and if the
network asks for that. -/
theorem applyWeapon_known (hscript : m.script = true) (hout : m.exprIsWeaponOut = true)
    (hcompiled : m.exprGetEquippedWeaponType = true) (hw : Typed w npc) (isWeaponOut : UInt8)
    (currentTime : ℚ) {sc : Scene}
    (h : Known npc sc ∨ ¬ (isWeaponOut ≠ 0 ∧ saysOut w npc sc.acts = true)) :
    Known npc (applyWeapon m w npc isWeaponOut currentTime sc) := by
  obtain ⟨htracked, -⟩ := weaponFallback_cases m w npc hscript hout hcompiled hw sc
  obtain ⟨hbusy, heq⟩ | ⟨-, -, mid, rfl, ⟨hsame, heq⟩ | ⟨-, -, heq⟩ | ⟨-, -, heq⟩⟩ :=
    applyWeapon_cases m w npc isWeaponOut currentTime sc <;> rw [heq]
  · exact hbusy.elim (fun hb => .pending true hb) fun hb => .pending false hb
  · rcases h with h | h
    · exact weaponFallback_known m w npc hscript hout hcompiled hw h
    · refine .holstered (Bool.eq_false_iff.mpr fun hyes => h ⟨?_, htracked.symm.trans hyes⟩)
      rw [hsame] at hyes
      simpa using hyes
  · exact .pending true (drawWeapon_ordered npc currentTime _).awaited
  · exact .pending false (holsterWeapon_ordered npc currentTime _).awaited

/-- Nothing is done for a weapon that is tracked as out, is out and is wanted out. -/
theorem applyWeapon_agrees (hscript : m.script = true) (hout : m.exprIsWeaponOut = true)
    (hcompiled : m.exprGetEquippedWeaponType = true) (hw : Typed w npc) {isWeaponOut : UInt8}
    (currentTime : ℚ) {sc : Scene} (hidle : ∀ o, sc.st.awaits o = false)
    (htracked : sc.st.npcWeaponOut = true) (hnet : isWeaponOut ≠ 0)
    (hreply : saysOut w npc sc.acts = true) :
    (applyWeapon m w npc isWeaponOut currentTime sc).st.weapon = sc.st.weapon := by
  obtain ⟨-, -, ⟨-, hst, -⟩ | ⟨hne, -⟩⟩ :=
    weaponFallback_cases m w npc hscript hout hcompiled hw sc
  · rw [applyWeapon, awaits_none hidle, if_neg (by decide)]
    dsimp only
    rw [if_pos (by rw [hst, htracked]; simp [hnet]), hst]
  · exact absurd (hreply.trans htracked.symm) hne

/-! ## Runs -/

/-- What the weapon part of a scene satisfies in every run. -/
structure Consistent (npc : UInt32) (sc : Scene) : Prop where
  tracks : Tracks npc sc
  cleared : Cleared sc

/-- A pending holster is given up, but the weapon is out and the network wants it out. -/
def FailedHolster (m : Module) (npc : UInt32) (sc : Scene) : Call → Prop
  | .applyFire _ => False
  | .applyState net t w => HolsterTimesOut t sc.st ∧ net.isWeaponOut ≠ 0 ∧
    saysOut w npc (applySneak npc net.isSneaking t (pollUnrestrain m w npc t sc)).acts = true

def Call.Typed (npc : UInt32) : Call → Prop
  | .applyFire _ => True
  | .applyState _ _ w => Animation.Typed w npc

theorem latest_apart {sc sc' : Scene} (net : NetState) (currentTime : ℚ)
    (h : sc' = storePrev net (applyActions npc net.actionState net.isWeaponOut currentTime
      (applyLocomotion npc net.moveDirection net.isRunning currentTime sc))) :
    latest (typePoll npc) sc'.acts = latest (typePoll npc) sc.acts := by
  rw [h]
  exact (latest_tells npc (applyActions_does npc _ _ _ _)).trans
    (latest_tells npc (applyLocomotion_does npc _ _ _ _))

theorem call_consistent (hscript : m.script = true) (hout : m.exprIsWeaponOut = true)
    (hanim : m.exprGetAnimAction = true) (c : Call) {sc : Scene} (h : Consistent npc sc) :
    Consistent npc (c.run m npc sc) := by
  refine ⟨call_tracks m npc hscript hout hanim c h.tracks, ?_⟩
  cases c with
  | applyFire t => exact h.cleared.of_same (applyFire_apart m npc t sc).weapon
  | applyState net t w =>
    change Cleared (applyState m w npc net t sc)
    by_cases hconsole : m.console = true
    · have hpoll := pollUnrestrain_cleared m w npc hscript hanim t h.tracks h.cleared
      have hsneak := hpoll.of_same (applySneak_apart npc net.isSneaking t
        (pollUnrestrain m w npc t sc)).weapon
      exact (applyWeapon_cleared m w npc net.isWeaponOut t hsneak).of_same
        (applyState_apart m w npc hconsole net t sc).weapon
    · rw [applyState, if_pos (by simpa using hconsole)]
      exact h.cleared

/-- A call that is no failed holster leaves the type known. -/
theorem call_known (hconsole : m.console = true) (hscript : m.script = true)
    (hout : m.exprIsWeaponOut = true) (hanim : m.exprGetAnimAction = true)
    (hcompiled : m.exprGetEquippedWeaponType = true) (c : Call) (hc : c.Typed npc) {sc : Scene}
    (h : Consistent npc sc) (hknown : Known npc sc) (hkept : ¬ FailedHolster m npc sc c) :
    Known npc (c.run m npc sc) := by
  cases c with
  | applyFire t =>
    refine hknown.of_same (applyFire_apart m npc t sc).weapon ?_
    exact latest_tells npc (applyFire_does m npc t sc)
  | applyState net t w =>
    have hsneak := applySneak_apart npc net.isSneaking t (pollUnrestrain m w npc t sc)
    have hrest := applyState_apart m w npc hconsole net t sc
    have hweapon : Known npc (applyWeapon m w npc net.isWeaponOut t
        (applySneak npc net.isSneaking t (pollUnrestrain m w npc t sc))) := by
      apply applyWeapon_known m w npc hscript hout hcompiled hc
      by_cases hlate : HolsterTimesOut t sc.st
      · exact .inr fun hfail => hkept ⟨hlate, hfail⟩
      · refine .inl (Known.of_same ?_ hsneak.weapon
          (latest_tells npc (applySneak_does npc net.isSneaking t _)))
        exact pollUnrestrain_known m w npc hscript hanim hcompiled hc t h.tracks h.cleared hknown
          hlate
    refine hweapon.of_same hrest.weapon (latest_apart npc net t ?_)
    rw [Call.run, applyState, if_neg (by simp [hconsole])]

/-- A failed holster leaves the weapon out with no type. -/
theorem failedHolster_unknown (hconsole : m.console = true) (hscript : m.script = true)
    (hout : m.exprIsWeaponOut = true) (hcompiled : m.exprGetEquippedWeaponType = true) (c : Call)
    (hc : c.Typed npc) {sc : Scene} (h : Consistent npc sc) (hfail : FailedHolster m npc sc c) :
    ¬ Known npc (c.run m npc sc) := by
  cases c with
  | applyFire t => exact hfail.elim
  | applyState net t w =>
    obtain ⟨⟨hholster, hfree, hlate⟩, hnet, hreply⟩ := hfail
    obtain ⟨hcleared, htracked⟩ := h.cleared false hholster
    have hmid : pollUnrestrain m w npc t sc =
        ⟨{ sc.st with isUnrestrained := false, pendingOps := {} },
          (runCmd npc [.setRestrained true] sc).acts⟩ := by
      obtain ⟨hno, -⟩ | ⟨-, -, heq⟩ | ⟨-, hsoon, -⟩ := pollUnrestrain_cases m w npc t sc
      · rw [hfree] at hno
        cases hno
      · exact heq
      · exact absurd hsoon (not_le.mpr hlate)
    have hsneak := (applySneak_apart npc net.isSneaking t (pollUnrestrain m w npc t sc)).weapon
    have hidle : ∀ o, (applySneak npc net.isSneaking t
        (pollUnrestrain m w npc t sc)).st.awaits o = false := by
      intro o
      rw [awaits_eq hsneak, hmid]
      cases o <;> rfl
    have hstill : (applySneak npc net.isSneaking t
        (pollUnrestrain m w npc t sc)).st.npcWeaponOut = true := by
      rw [weapon_out hsneak, hmid]
      exact htracked
    have hall := (applyState_apart m w npc hconsole net t sc).weapon.trans
      (applyWeapon_agrees m w npc hscript hout hcompiled hc t hidle hstill hnet hreply)
    intro hknown
    obtain ⟨-, hlow, -⟩ := hknown ((weapon_out hall).trans hstill)
      fun o => (awaits_eq hall o).trans (hidle o)
    have htype : (applyState m w npc net t sc).st.cachedWeaponType = -1 := by
      rw [weapon_wtype hall, weapon_wtype hsneak, hmid]
      exact hcleared
    rw [Call.run, htype] at hlow
    exact absurd hlow (by decide)

/-- A fire event on a valid type takes the branch of the weapon, not the fallback. -/
theorem Valid.fires {m : Module} {npc : UInt32} {sc : Scene} (h : Valid npc sc) (t : ℚ) :
    (applyFire m npc t sc).acts ≠ (runCmd npc [.playGroup .attackLeft 1] sc).acts := by
  obtain ⟨-, hlow, hhigh⟩ := h
  unfold applyFire
  split
  · simp [runCmd, runLine]
  · dsimp only
    split
    · split <;> simp [runCmd, runLine]
    · split
      · simp [runCmd, runLine]
      · rw [if_pos (by omega)]
        simp [runCmd, runLine]

/-- With the weapon out and no operation pending the type was polled, and a fire event
takes its branch. -/
def Armed (m : Module) (npc : UInt32) (sc : Scene) : Prop :=
  sc.st.npcWeaponOut = true → (∀ o, sc.st.awaits o = false) → Valid npc sc ∧
    ∀ t, (applyFire m npc t sc).acts ≠ (runCmd npc [.playGroup .attackLeft 1] sc).acts

theorem armed_iff (m : Module) (npc : UInt32) (sc : Scene) : Armed m npc sc ↔ Known npc sc := by
  constructor
  · intro h hout hidle
    exact (h hout hidle).1
  · intro h hout hidle
    exact ⟨h hout hidle, (h hout hidle).fires⟩

theorem play_consistent (hscript : m.script = true) (hout : m.exprIsWeaponOut = true)
    (hanim : m.exprGetAnimAction = true) (acts : List Act) (calls : List Call) :
    Consistent npc (play m npc calls ⟨{}, acts⟩) := by
  have hnone : ∀ o, EntityAnimState.awaits {} o = false := fun o => by cases o <;> rfl
  exact play_invariant (Consistent npc)
    (fun c _ hsc => call_consistent m npc hscript hout hanim c hsc) calls
    ⟨.fresh hnone, .fresh hnone⟩

/-- In a run the type is known in every state exactly when no call is a failed holster. -/
theorem weapon_type_known_iff (acts : List Act) (calls : List Call) (hconsole : m.console = true)
    (hscript : m.script = true) (hout : m.exprIsWeaponOut = true)
    (hanim : m.exprGetAnimAction = true) (hcompiled : m.exprGetEquippedWeaponType = true)
    (hcalls : ∀ c ∈ calls, c.Typed npc) :
    (∀ before after, calls = before ++ after → Armed m npc (play m npc before ⟨{}, acts⟩)) ↔
      ∀ before c after, calls = before ++ c :: after →
        ¬ FailedHolster m npc (play m npc before ⟨{}, acts⟩) c := by
  have hconsistent := play_consistent m npc hscript hout hanim acts
  simp only [armed_iff]
  constructor
  · rintro h before c after rfl hfail
    have hknown := h (before ++ [c]) after (by simp)
    rw [play_snoc] at hknown
    exact failedHolster_unknown m npc hconsole hscript hout hcompiled c
      (hcalls c (by simp)) (hconsistent before) hfail hknown
  · intro h before
    induction before using List.reverseRecOn with
    | nil => exact fun _ _ => .holstered rfl
    | append_singleton before c ih =>
      intro after hcut
      have hcut' : calls = before ++ c :: after := by simpa using hcut
      rw [play_snoc]
      refine call_known m npc hconsole hscript hout hanim hcompiled c (hcalls c ?_)
        (hconsistent before) (ih (c :: after) hcut') (h before c after hcut')
      rw [hcut']
      exact List.mem_append_right _ List.mem_cons_self

/-- The engine of the runs below: the weapon is a pistol and stays out, and no weapon
animation is ever seen. -/
def stubborn : World :=
  ⟨true, 1, fun _ _ => true, fun _ _ script =>
    some (.fin (match script with
      | .isWeaponOut => 1
      | .getEquippedWeaponType => 3
      | .getAnimAction => -1
      | .isSneaking => 0)), fun _ => .failed⟩

theorem stubborn_typed (npc : UInt32) : Typed stubborn npc := by
  intro past
  change 0 ≤ (FloatVal.fin 3).toInt32 ∧ (FloatVal.fin 3).toInt32 ≤ 13
  decide +kernel

/-- The weapon is out, is put away in vain, and is wanted out when the timeout strikes. -/
def vainHolster : List Call :=
  [.applyState { isWeaponOut := 1 } 0 stubborn, .applyState { isWeaponOut := 0 } 1 stubborn,
    .applyState { isWeaponOut := 1 } 4 stubborn]

theorem weapon_type_forgotten :
    ¬ ∀ (m : Module) (npc : UInt32) (acts : List Act) (calls : List Call), m.console = true →
      m.script = true → m.exprIsWeaponOut = true → m.exprGetAnimAction = true →
      m.exprGetEquippedWeaponType = true → (∀ c ∈ calls, c.Typed npc) →
      Armed m npc (play m npc calls ⟨{}, acts⟩) := by
  intro h
  have htyped : ∀ c ∈ vainHolster, c.Typed 5 := by
    intro c hc
    simp only [vainHolster, List.mem_cons, List.not_mem_nil, or_false] at hc
    rcases hc with rfl | rfl | rfl <;> exact stubborn_typed 5
  have harmed := h ⟨true, true, true, true, true, true⟩ 5 [.cmd 5 [.setRestrained true]]
    vainHolster rfl rfl rfl rfl rfl htyped
  obtain ⟨-, hlow, -⟩ := (harmed (by decide +kernel) (by decide +kernel)).1
  revert hlow
  decide +kernel

/-- Until the timeout strikes the type is known. -/
theorem weapon_type_known_holster :
    Armed ⟨true, true, true, true, true, true⟩ 5 (play ⟨true, true, true, true, true, true⟩ 5
      (vainHolster.take 1) ⟨{}, [.cmd 5 [.setRestrained true]]⟩) := by
  refine (weapon_type_known_iff ⟨true, true, true, true, true, true⟩ 5
    [.cmd 5 [.setRestrained true]] (vainHolster.take 2) rfl rfl rfl rfl rfl ?_).mpr ?_
    (vainHolster.take 1) (vainHolster.take 2 |>.drop 1) rfl
  · intro c hc
    simp only [vainHolster, List.take_succ_cons, List.take_zero, List.mem_cons, List.not_mem_nil,
      or_false] at hc
    rcases hc with rfl | rfl <;> exact stubborn_typed 5
  · intro before c after hcut hfail
    match before, hcut with
    | [], hcut =>
      cases hcut
      exact absurd hfail.1.1 (by decide)
    | [_], hcut =>
      cases hcut
      exact absurd hfail.1.1 (by decide +kernel)
    | _ :: _ :: _, hcut => simp [vainHolster] at hcut

end Fnvmp.Animation
