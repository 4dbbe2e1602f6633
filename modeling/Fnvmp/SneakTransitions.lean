import Fnvmp.AnimationEffects

/-!
# Sneak transitions are tried once

`ApplySneak` compares the network value with the one of the previous call, and that one
is stored at the end of every call. A transition given up by the timeout is therefore
never started again, unlike one of the weapon, which is compared with the NPC itself.
-/

namespace Fnvmp.Animation

open ExactFloat Engine Protocol

variable (m : Module) (w : World) (npc : UInt32)

theorem pollUnrestrain_prevIsSneaking (currentTime : ℚ) (sc : Scene) :
    (pollUnrestrain m w npc currentTime sc).st.prevIsSneaking = sc.st.prevIsSneaking := by
  have hwatch := (pollPending_watches m w npc sc).prevIsSneaking
  obtain ⟨-, heq⟩ | ⟨-, -, heq⟩ | ⟨-, -, mid, rfl, ⟨-, heq⟩ | ⟨-, heq⟩⟩ :=
    pollUnrestrain_cases m w npc currentTime sc <;> rw [heq]
  · exact hwatch
  · exact hwatch

/-- With the network value of the previous call nothing is said about sneaking. -/
theorem applyState_no_sneak (net : NetState) (currentTime : ℚ) (sc : Scene)
    (hsame : net.isSneaking = sc.st.prevIsSneaking) :
    Adds (fun l => ∀ b, l ≠ .setForceSneak b) npc sc (applyState m w npc net currentTime sc) := by
  let P : Line → Prop := fun l => ∀ b, l ≠ .setForceSneak b
  have hanim : ∀ l, Line.IsAnimation l → P l := by
    rintro l (rfl | ⟨_, _, rfl⟩) b <;> simp
  have hweapon : ∀ l, (∃ out, WeaponLine out l) → P l := by
    rintro l ⟨out, rfl | rfl | rfl⟩ b <;> simp
  unfold applyState
  split
  · exact .refl sc
  · have hpoll := (pollUnrestrain_adds m w npc currentTime sc).mono (Q := P) (by
      rintro l rfl
      simp [P])
    have hskip : applySneak npc net.isSneaking currentTime (pollUnrestrain m w npc currentTime sc) =
        pollUnrestrain m w npc currentTime sc := by
      rw [applySneak, if_pos (by rw [pollUnrestrain_prevIsSneaking, hsame])]
    dsimp only
    rw [hskip]
    refine hpoll.trans <|
      ((applyWeapon_adds m w npc net.isWeaponOut currentTime _).mono hweapon).trans <|
      ((applyLocomotion_adds npc net.moveDirection net.isRunning currentTime _).mono hanim).trans <|
      ((applyActions_adds npc net.actionState net.isWeaponOut currentTime _).mono hanim).trans
      (.none rfl)

/-- A call that does anything stores the network value it was given. -/
theorem applyState_prevIsSneaking (net : NetState) (currentTime : ℚ) (sc : Scene)
    (hconsole : m.console = true) :
    (applyState m w npc net currentTime sc).st.prevIsSneaking = net.isSneaking := by
  rw [applyState, if_neg (by simp [hconsole])]
  rfl

/-- The engine reports the NPC as sneaking, or as standing, whenever it is asked. -/
def Reports (w : World) (npc : UInt32) (sneaking : Bool) : Prop :=
  ∀ past, ∃ v, w.call past npc .isSneaking = some v ∧ v.ge (.fin 1) = sneaking

/-- A transition was given up: none is pending after a call, the network value stays what
it was, and the NPC reports the opposite. -/
structure Abandoned (npc : UInt32) (sc : Scene) (net net' : NetState) (w' : World) : Prop where
  noEnter : sc.st.pendingOps.sneakEnter = false
  noExit : sc.st.pendingOps.sneakExit = false
  unchanged : net'.isSneaking = net.isSneaking
  opposite : Reports w' npc (decide (net'.isSneaking = 0))

/-- The engine of the runs below: the NPC stands and every other poll says 0 too. -/
def unmoved : World := ⟨true, 1, fun _ _ => true, fun _ _ _ => some (.fin 0), fun _ => .failed⟩

/-- A crouch that the NPC has not followed within the two seconds. -/
def stuckCrouch : Scene :=
  play ⟨true, true, true, true, true, true⟩ 5
    ([.applyState { isSneaking := 1 } 0 unmoved] ++ [.applyState { isSneaking := 1 } 3 unmoved])
    ⟨{}, [.cmd 5 [.setRestrained true]]⟩

theorem stuckCrouch_abandoned :
    Abandoned 5 stuckCrouch { isSneaking := 1 } { isSneaking := 1 } unmoved where
  noEnter := by decide +kernel
  noExit := by decide +kernel
  unchanged := rfl
  opposite := fun _ => ⟨.fin 0, rfl, by decide +kernel⟩

theorem sneak_transition_lost :
    ¬ ∀ (m : Module) (npc : UInt32) (acts : List Act) (calls : List Call) (net : NetState) (t : ℚ)
      (w : World) (net' : NetState) (t' : ℚ) (w' : World),
      let sc := play m npc (calls ++ [.applyState net t w]) ⟨{}, acts⟩
      Abandoned npc sc net net' w' →
      .setForceSneak (decide (net'.isSneaking ≠ 0)) ∈
        newLines npc sc (applyState m w' npc net' t' sc) := by
  intro h
  have hretried := h ⟨true, true, true, true, true, true⟩ 5 [.cmd 5 [.setRestrained true]]
    [.applyState { isSneaking := 1 } 0 unmoved] { isSneaking := 1 } 3 unmoved
    { isSneaking := 1 } 4 unmoved stuckCrouch_abandoned
  revert hretried
  decide +kernel

/-- Wherever a run gives a transition up, the next call does not take it up again. -/
theorem sneak_never_retried (acts : List Act) (calls : List Call) (net : NetState) (t : ℚ)
    (w : World) (net' : NetState) (t' : ℚ) (w' : World)
    (h : Abandoned npc (play m npc (calls ++ [.applyState net t w]) ⟨{}, acts⟩) net net' w') :
    let sc := play m npc (calls ++ [.applyState net t w]) ⟨{}, acts⟩
    ∀ b, .setForceSneak b ∉ newLines npc sc (applyState m w' npc net' t' sc) := by
  intro sc b hmem
  have hadds : Adds (fun l => ∀ b, l ≠ .setForceSneak b) npc sc
      (applyState m w' npc net' t' sc) := by
    by_cases hconsole : m.console = true
    · refine applyState_no_sneak m w' npc net' t' sc (h.unchanged.trans (Eq.symm ?_))
      simp only [sc, play, List.foldl_append, List.foldl_cons, List.foldl_nil]
      exact applyState_prevIsSneaking m w npc net t _ hconsole
    · rw [applyState, if_pos (by simpa using hconsole)]
      exact .refl sc
  exact hadds.newLines _ hmem b rfl

theorem sneak_never_retried_crouch :
    Abandoned 5 stuckCrouch { isSneaking := 1 } { isSneaking := 1 } unmoved ∧
    ∀ b, .setForceSneak b ∉ newLines 5 stuckCrouch
      (applyState ⟨true, true, true, true, true, true⟩ unmoved 5 { isSneaking := 1 } 4
        stuckCrouch) :=
  ⟨stuckCrouch_abandoned, sneak_never_retried ⟨true, true, true, true, true, true⟩ 5
    [.cmd 5 [.setRestrained true]] [.applyState { isSneaking := 1 } 0 unmoved]
    { isSneaking := 1 } 3 unmoved { isSneaking := 1 } 4 unmoved stuckCrouch_abandoned⟩

end Fnvmp.Animation
