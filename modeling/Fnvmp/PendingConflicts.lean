import Fnvmp.PollAnswers

/-!
# Pending operations that contradict each other

A pending bit stands for the last command of its kind. The weapon keeps to this, because
nothing is started while an operation is pending. A sneak transition is started whenever
the network value changes, and the opposite one may then still be pending.
-/

namespace Fnvmp.Animation

open ExactFloat Engine Protocol CommandLog

/-! ## Bits and commands -/

def Line.sneakOrder : Line → Option Bool
  | .setForceSneak on => some on
  | _ => none

/-- At most one operation of each kind is pending, and it is the one last commanded. -/
structure Coherent (npc : UInt32) (sc : Scene) : Prop where
  oneWeapon : ¬ (sc.st.pendingOps.weaponDraw = true ∧ sc.st.pendingOps.weaponHolster = true)
  oneSneak : ¬ (sc.st.pendingOps.sneakEnter = true ∧ sc.st.pendingOps.sneakExit = true)
  draw : sc.st.pendingOps.weaponDraw = true →
    latest Line.weaponOrder (linesTo npc sc.acts) = some true
  holster : sc.st.pendingOps.weaponHolster = true →
    latest Line.weaponOrder (linesTo npc sc.acts) = some false
  enter : sc.st.pendingOps.sneakEnter = true →
    latest Line.sneakOrder (linesTo npc sc.acts) = some true
  exit : sc.st.pendingOps.sneakExit = true →
    latest Line.sneakOrder (linesTo npc sc.acts) = some false

theorem Adds.latest {P : Line → Prop} {npc : UInt32} {sc sc' : Scene} {β : Type}
    {f : Line → Option β} (h : Adds P npc sc sc') (hP : ∀ l, P l → f l = Option.none) :
    CommandLog.latest f (linesTo npc sc'.acts) = CommandLog.latest f (linesTo npc sc.acts) := by
  obtain ⟨more, hlines, hmore⟩ := h.lines
  rw [hlines, latest_silent f _ _ fun l hl => hP l (hmore l hl)]

/-- No command of either kind, and no new bit. -/
theorem Coherent.keep {npc : UInt32} {sc sc' : Scene} (h : Coherent npc sc) {P : Line → Prop}
    (hadds : Adds P npc sc sc') (hweapon : ∀ l, P l → Line.weaponOrder l = none)
    (hsneak : ∀ l, P l → Line.sneakOrder l = none) (hfewer : Fewer sc.st sc'.st) :
    Coherent npc sc' where
  oneWeapon := fun hboth => h.oneWeapon ⟨hfewer.draw hboth.1, hfewer.holster hboth.2⟩
  oneSneak := fun hboth => h.oneSneak ⟨hfewer.enter hboth.1, hfewer.exit hboth.2⟩
  draw := fun hbit => (hadds.latest hweapon).trans (h.draw (hfewer.draw hbit))
  holster := fun hbit => (hadds.latest hweapon).trans (h.holster (hfewer.holster hbit))
  enter := fun hbit => (hadds.latest hsneak).trans (h.enter (hfewer.enter hbit))
  exit := fun hbit => (hadds.latest hsneak).trans (h.exit (hfewer.exit hbit))

variable (m : Module) (w : World) (npc : UInt32)

/-! ## Polling -/

theorem pollUnrestrain_coherent (currentTime : ℚ) {sc : Scene} (h : Coherent npc sc) :
    Coherent npc (pollUnrestrain m w npc currentTime sc) :=
  h.keep (pollUnrestrain_adds m w npc currentTime sc) (by rintro l rfl; rfl)
    (by rintro l rfl; rfl) (pollUnrestrain_fewer m w npc currentTime sc)

/-! ## Transitions -/

/-- The network value changes while the opposite transition is pending, has not timed out and,
as `IsSneaking` answers, is not carried out. -/
def Overlaps (net : NetState) (currentTime : ℚ) (sc : Scene) : Prop :=
  m.console = true ∧ net.isSneaking ≠ sc.st.prevIsSneaking ∧
    if net.isSneaking ≠ 0 then StillExits m w npc currentTime sc
    else StillEnters m w npc currentTime sc

theorem unrestrain_coherent (currentTime : ℚ) {sc : Scene} (h : Coherent npc sc) :
    Coherent npc (unrestrain npc currentTime sc) :=
  h.keep (unrestrain_adds npc currentTime sc) (by rintro l rfl; rfl) (by rintro l rfl; rfl)
    (.same (by rw [unrestrain_st]))

/-- A sneak command with its bit, when the opposite bit is not set. -/
theorem Coherent.sneak {npc : UInt32} {sc : Scene} (h : Coherent npc sc) (on : Bool)
    (st : EntityAnimState)
    (hops : st.pendingOps = if on then { sc.st.pendingOps with sneakEnter := true }
      else { sc.st.pendingOps with sneakExit := true })
    (hfree : (if on then sc.st.pendingOps.sneakExit else sc.st.pendingOps.sneakEnter) = false) :
    Coherent npc ⟨st, (runCmd npc [.setForceSneak on] sc).acts⟩ := by
  have hsneak : latest Line.sneakOrder (linesTo npc (runCmd npc [.setForceSneak on] sc).acts) =
      some on := by
    rw [runCmd_lines, latest_snoc]
    rfl
  have hweapon : latest Line.weaponOrder (linesTo npc (runCmd npc [.setForceSneak on] sc).acts) =
      latest Line.weaponOrder (linesTo npc sc.acts) := by
    rw [runCmd_lines, latest_snoc]
    rfl
  obtain ⟨honeWeapon, -, hdraw, hholster, -, -⟩ := h
  cases on with
  | true =>
    simp only [if_true] at hops hfree
    constructor <;> simp_all
  | false =>
    simp only [Bool.false_eq_true, if_false] at hops hfree
    constructor <;> simp_all

/-- Unless it overlaps another one, a sneak transition leaves the bits coherent. -/
theorem applySneak_coherent (isSneaking : UInt8) (currentTime : ℚ) {sc : Scene}
    (h : Coherent npc sc) (hfree : isSneaking ≠ sc.st.prevIsSneaking →
      (if isSneaking ≠ 0 then sc.st.pendingOps.sneakExit else sc.st.pendingOps.sneakEnter) =
        false) : Coherent npc (applySneak npc isSneaking currentTime sc) := by
  have hbits : (unrestrain npc currentTime sc).st.pendingOps = sc.st.pendingOps := by
    rw [unrestrain_st]
  unfold applySneak
  split
  next => exact h
  next hchanged =>
    have hfree' := hfree hchanged
    split
    next hsneak =>
      rw [if_pos hsneak] at hfree'
      exact (unrestrain_coherent npc currentTime h).sneak true _ rfl (by simp [hbits, hfree'])
    next hstand =>
      rw [if_neg hstand] at hfree'
      exact (unrestrain_coherent npc currentTime h).sneak false _ rfl (by simp [hbits, hfree'])

/-- A weapon command with its bit, when no weapon operation is pending. -/
theorem Coherent.weapon {npc : UInt32} {sc : Scene} (h : Coherent npc sc) (out : Bool)
    (st : EntityAnimState)
    (hops : st.pendingOps = if out then { sc.st.pendingOps with weaponDraw := true }
      else { sc.st.pendingOps with weaponHolster := true })
    (hdraw : sc.st.pendingOps.weaponDraw = false)
    (hholster : sc.st.pendingOps.weaponHolster = false) :
    Coherent npc ⟨st, (runCmd npc [.setWeaponOut out, .setAlert out] sc).acts⟩ := by
  have hweapon : latest Line.weaponOrder
      (linesTo npc (runCmd npc [.setWeaponOut out, .setAlert out] sc).acts) = some out := by
    rw [runCmd_lines, latest_append]
    rfl
  have hsneak : latest Line.sneakOrder
      (linesTo npc (runCmd npc [.setWeaponOut out, .setAlert out] sc).acts) =
        latest Line.sneakOrder (linesTo npc sc.acts) := by
    rw [runCmd_lines, latest_append]
    rfl
  obtain ⟨-, honeSneak, -, -, henter, hexit⟩ := h
  cases out <;> constructor <;> simp_all

theorem applyWeapon_coherent (netIsWeaponOut : UInt8) (currentTime : ℚ) {sc : Scene}
    (h : Coherent npc sc) : Coherent npc (applyWeapon m w npc netIsWeaponOut currentTime sc) := by
  have hmid : Coherent npc (weaponFallback m w npc sc) :=
    h.keep (weaponFallback_watches m w npc sc).polls (fun _ => False.elim) (fun _ => False.elim)
      (.same (weaponFallback_ops m w npc sc))
  have hbits : (unrestrain npc currentTime (weaponFallback m w npc sc)).st.pendingOps =
      sc.st.pendingOps := by
    rw [unrestrain_st]
    exact weaponFallback_ops m w npc sc
  have hfree := unrestrain_coherent npc currentTime hmid
  obtain ⟨-, heq⟩ | ⟨hdraw, hholster, mid, rfl, ⟨-, heq⟩ | ⟨-, -, heq⟩ | ⟨-, -, heq⟩⟩ :=
    applyWeapon_cases m w npc netIsWeaponOut currentTime sc <;> rw [heq]
  · exact h
  · exact hmid
  · exact hfree.weapon true _ rfl (by rw [hbits, hdraw]) (by rw [hbits, hholster])
  · exact hfree.weapon false _ rfl (by rw [hbits, hdraw]) (by rw [hbits, hholster])

theorem applyWeapon_sneakBits (netIsWeaponOut : UInt8) (currentTime : ℚ) (sc : Scene) :
    (applyWeapon m w npc netIsWeaponOut currentTime sc).st.sneakBits = sc.st.sneakBits := by
  have hbits : (unrestrain npc currentTime (weaponFallback m w npc sc)).st.sneakBits =
      sc.st.sneakBits := by
    rw [unrestrain_st, EntityAnimState.sneakBits, weaponFallback_ops]
    rfl
  obtain ⟨-, heq⟩ | ⟨-, -, mid, rfl, ⟨-, heq⟩ | ⟨-, -, heq⟩ | ⟨-, -, heq⟩⟩ :=
    applyWeapon_cases m w npc netIsWeaponOut currentTime sc <;> rw [heq]
  · rw [EntityAnimState.sneakBits, weaponFallback_ops]
    rfl
  · exact hbits
  · exact hbits

/-- The sneak bits at the end of a call are those that `ApplySneak` leaves. -/
theorem applyState_sneakBits (hconsole : m.console = true) (net : NetState) (currentTime : ℚ)
    (sc : Scene) : (applyState m w npc net currentTime sc).st.sneakBits =
      (applySneak npc net.isSneaking currentTime
        (pollUnrestrain m w npc currentTime sc)).st.sneakBits := by
  rw [applyState_eq m w npc hconsole]
  have hweapon := applyWeapon_sneakBits m w npc net.isWeaponOut currentTime
    (applySneak npc net.isSneaking currentTime (pollUnrestrain m w npc currentTime sc))
  rw [← hweapon]
  simp only [storePrev, applyActions_st, applyLocomotion_st]
  rfl

/-! ## Calls -/

/-- An overlapping transition leaves both bits set. -/
theorem Overlaps.both {m : Module} {w : World} {npc : UInt32} {net : NetState} {currentTime : ℚ}
    {sc : Scene} (hfreed : Freed sc) (h : Overlaps m w npc net currentTime sc) :
    (applyState m w npc net currentTime sc).st.sneakBits = (true, true) := by
  obtain ⟨hconsole, hchanged, hpending⟩ := h
  rw [← hfreed.polled_enter, ← hfreed.polled_exit] at hpending
  rw [applyState_sneakBits m w npc hconsole, applySneak,
    if_neg (by rw [pollUnrestrain_prevIsSneaking]; exact hchanged)]
  have hbits : (unrestrain npc currentTime (pollUnrestrain m w npc currentTime sc)).st.pendingOps =
      (pollUnrestrain m w npc currentTime sc).st.pendingOps := by
    rw [unrestrain_st]
  split
  next hsneak =>
    rw [if_pos hsneak] at hpending
    simp [EntityAnimState.sneakBits, runCmd, hbits, hpending]
  next hstand =>
    rw [if_neg hstand] at hpending
    simp [EntityAnimState.sneakBits, runCmd, hbits, hpending]

theorem applyState_coherent_iff (net : NetState) (currentTime : ℚ) {sc : Scene}
    (hfreed : Freed sc) (h : Coherent npc sc) :
    Coherent npc (applyState m w npc net currentTime sc) ↔
      ¬ Overlaps m w npc net currentTime sc := by
  constructor
  · intro hafter hoverlaps
    have hboth := hoverlaps.both hfreed
    rw [EntityAnimState.sneakBits, Prod.mk.injEq] at hboth
    exact hafter.oneSneak hboth
  · intro hapart
    by_cases hconsole : m.console = true
    · have hanim : ∀ l, Line.IsAnimation l → Line.sneakOrder l = none := by
        rintro l (rfl | ⟨group, flag, rfl⟩) <;> rfl
      have hsneak := applySneak_coherent npc net.isSneaking currentTime
        (pollUnrestrain_coherent m w npc currentTime h) fun hchanged => by
          rw [pollUnrestrain_prevIsSneaking] at hchanged
          by_contra hpending
          refine hapart ⟨hconsole, hchanged, ?_⟩
          rw [← hfreed.polled_enter, ← hfreed.polled_exit]
          split <;> simp_all
      have hweapon := applyWeapon_coherent m w npc net.isWeaponOut currentTime hsneak
      have hmove := hweapon.keep
        (applyLocomotion_adds npc net.moveDirection net.isRunning currentTime _)
        (fun _ => animation_no_order) hanim (.same (by rw [applyLocomotion_st]))
      have hact := hmove.keep (applyActions_adds npc net.actionState net.isWeaponOut currentTime _)
        (fun _ => animation_no_order) hanim (.same (by rw [applyActions_st]))
      rw [applyState_eq m w npc hconsole]
      exact hact.keep (P := fun _ => False) (.none rfl) (fun _ => False.elim)
        (fun _ => False.elim) (.same rfl)
    · rw [applyState, if_pos (by simpa using hconsole)]
      exact h

theorem applyFire_coherent (currentTime : ℚ) {sc : Scene} (h : Coherent npc sc) :
    Coherent npc (applyFire m npc currentTime sc) := by
  obtain ⟨t, hst⟩ := applyFire_st m npc currentTime sc
  exact h.keep (applyFire_adds m npc currentTime sc) (fun _ => animation_no_order)
    (by rintro l (rfl | ⟨group, flag, rfl⟩) <;> rfl) (.same (by rw [hst]))

/-- In a run the pending bits are coherent in every state exactly when no call brings a change
of the network value over a pending opposite transition. -/
theorem pending_coherent_iff (acts : List Act) (calls : List Call) :
    (∀ before after, calls = before ++ after → Coherent npc (play m npc before ⟨{}, acts⟩)) ↔
      ∀ before net t w after, calls = before ++ .applyState net t w :: after →
        ¬ Overlaps m w npc net t (play m npc before ⟨{}, acts⟩) := by
  constructor
  · intro h before net t w after hcut
    have hafter := h (before ++ [.applyState net t w]) after (by simp [hcut])
    rw [play_snoc] at hafter
    exact (applyState_coherent_iff m w npc net t (play_handled m npc acts before).2
      (h before _ hcut)).mp hafter
  · intro h before
    induction before using List.reverseRecOn with
    | nil => exact fun _ _ => by constructor <;> simp [play]
    | append_singleton before c ih =>
      intro after hcut
      have hcut' : calls = before ++ c :: after := by simpa using hcut
      have hbefore := ih (c :: after) hcut'
      rw [play_snoc]
      cases c with
      | applyState net t w =>
        exact (applyState_coherent_iff m w npc net t (play_handled m npc acts before).2
          hbefore).mpr (h before net t w after hcut')
      | applyFire t => exact applyFire_coherent m npc t hbefore

/-- The network lets go of sneaking while the NPC still crouches down. -/
theorem pending_contradictory :
    ¬ ∀ (m : Module) (npc : UInt32) (acts : List Act) (calls : List Call), InOrder calls →
      Coherent npc (play m npc calls ⟨{}, acts⟩) := by
  intro h
  have hboth := (h ⟨true, true, true, true, true, true⟩ 5 [.cmd 5 [.setRestrained true]]
    [.applyState { isSneaking := 1 } 0 unmoved, .applyState {} 1 unmoved] (by decide)).oneSneak
  revert hboth
  decide +kernel

end Fnvmp.Animation
