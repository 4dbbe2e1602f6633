import Fnvmp.PendingConflicts
import Fnvmp.UpperBody

/-!
# Upper-body commands during a sneak transition

The request to reapply the actions waits until the NPC is restrained again, so that they do
not interfere with a sneak transition. A change of the action state does not wait, nor does
a request left by the operations that end in the call that starts the transition.
-/

namespace Fnvmp.Animation

open ExactFloat Engine Protocol CommandLog

def EntityAnimState.SneakPending (st : EntityAnimState) : Prop :=
  st.pendingOps.sneakEnter = true ∨ st.pendingOps.sneakExit = true

/-- A call that ends within a sneak transition gives no upper-body command. One that finds
all operations completed and starts none gives the command for its state. -/
structure Defers (m : Module) (w : World) (npc : UInt32) (net : NetState) (t : ℚ) (sc : Scene) :
    Prop where
  quiet : (applyState m w npc net t sc).st.SneakPending →
    upperBody npc (applyState m w npc net t sc).acts = upperBody npc sc.acts
  resumes : completes m w npc t sc = true → ¬ (applyState m w npc net t sc).st.SneakPending →
    sc.st.attackAnimEndTime ≤ t →
    upperBody npc (applyState m w npc net t sc).acts = upperBody npc sc.acts ++
      (actionLines net.actionState net.isWeaponOut).toList

/-- Outside an attack window, with a command to give: the action state changes, or everything
pending has been carried out, while a sneak transition goes on or starts. It is settled by the
state before the call, what the network says, the time and the answers to the polls. -/
structure Disturbs (m : Module) (w : World) (npc : UInt32) (net : NetState) (t : ℚ) (sc : Scene) :
    Prop where
  console : m.console = true
  outside : sc.st.attackAnimEndTime ≤ t
  shows : actionLines net.actionState net.isWeaponOut ≠ none
  due : net.actionState ≠ sc.st.prevActionState ∨ Completes m w npc t sc
  sneaks : StillEnters m w npc t sc ∨ StillExits m w npc t sc ∨
    net.isSneaking ≠ sc.st.prevIsSneaking

variable (m : Module) (w : World) (npc : UInt32)

/-- A call ends within a sneak transition if one is not carried out yet or it starts one. -/
theorem applyState_sneakPending (hconsole : m.console = true) (net : NetState) (t : ℚ)
    {sc : Scene} (hfreed : Freed sc) : (applyState m w npc net t sc).st.SneakPending ↔
      StillEnters m w npc t sc ∨ StillExits m w npc t sc ∨
        net.isSneaking ≠ sc.st.prevIsSneaking := by
  rw [← hfreed.polled_enter, ← hfreed.polled_exit]
  have hbits := applyState_sneakBits m w npc hconsole net t sc
  rw [EntityAnimState.sneakBits, EntityAnimState.sneakBits, Prod.mk.injEq] at hbits
  rw [EntityAnimState.SneakPending, hbits.1, hbits.2, applySneak, pollUnrestrain_prevIsSneaking]
  split
  next hsame => simp [hsame]
  next hchanged =>
    split
    · simp [hchanged]
    · simp [hchanged]

/-- Without the console interface a run does nothing. -/
theorem play_off (hconsole : m.console = false) (calls : List Call) (sc : Scene) :
    play m npc calls sc = sc := by
  refine play_invariant (fun s => s = sc) (fun c s hs => ?_) calls rfl
  subst hs
  cases c with
  | applyState net t w => rw [Call.run, applyState, if_pos hconsole]
  | applyFire t => rw [Call.run, applyFire, if_pos hconsole]

/-- A call in a run leaves sneak transitions undisturbed exactly when it does not change or
reapply, outside an attack window, an action that shows while one goes on or starts. -/
theorem defers_iff (acts : List Act) (calls : List Call) (net : NetState) (t : ℚ) :
    Defers m w npc net t (play m npc calls ⟨{}, acts⟩) ↔
      ¬ Disturbs m w npc net t (play m npc calls ⟨{}, acts⟩) := by
  by_cases hconsole : m.console = true
  · have hreapply : (play m npc calls ⟨{}, acts⟩).st.forceReapplyActions = false := play_invariant
      (fun sc => sc.st.forceReapplyActions = false)
      (fun c _ hsc => call_reapply m npc hconsole c hsc) calls rfl
    obtain ⟨hone, hfreed⟩ := play_handled m npc acts calls
    generalize play m npc calls ⟨{}, acts⟩ = sc at hreapply hone hfreed ⊢
    have hstep := applyState_upperBody m w npc hconsole net t hreapply
    have hsneaks := applyState_sneakPending m w npc hconsole net t hfreed
    have hcompletes : completes m w npc t sc = true ↔ Completes m w npc t sc :=
      hone.completes_iff t
    constructor
    · rintro hdefers ⟨-, houtside, hshows, hdue, hstarts⟩
      have hquiet := hdefers.quiet (hsneaks.mpr hstarts)
      rw [← hcompletes] at hdue
      rw [hstep, if_neg (not_lt.mpr houtside), if_pos hdue] at hquiet
      exact hshows (by simpa using hquiet)
    · intro hcalm
      refine ⟨fun hpending => ?_, fun hdone _ houtside => ?_⟩
      · rw [hstep]
        split
        next => exact List.append_nil _
        next hinside =>
          split
          next hdue =>
            rw [hcompletes] at hdue
            have hnone : actionLines net.actionState net.isWeaponOut = none := by
              by_contra hshows
              exact hcalm ⟨hconsole, not_lt.mp hinside, hshows, hdue, hsneaks.mp hpending⟩
            rw [hnone]
            exact List.append_nil _
          next => exact List.append_nil _
      · rw [hstep, if_neg (not_lt.mpr houtside), if_pos (.inr hdone)]
  · have hoff : m.console = false := by simpa using hconsole
    rw [play_off m npc hoff]
    refine iff_of_true ⟨fun _ => ?_, fun hdone => ?_⟩ fun h => hconsole h.console
    · rw [applyState, if_pos hoff]
    · simp [completes] at hdone

/-- In a run every call leaves sneak transitions undisturbed exactly when none meets the
condition. -/
theorem sneak_undisturbed_iff (acts : List Act) (calls : List Call) :
    (∀ before net t w after, calls = before ++ .applyState net t w :: after →
        Defers m w npc net t (play m npc before ⟨{}, acts⟩)) ↔
      ∀ before net t w after, calls = before ++ .applyState net t w :: after →
        ¬ Disturbs m w npc net t (play m npc before ⟨{}, acts⟩) := by
  simp only [defers_iff]

/-- The NPC begins to aim while it crouches down, or when it starts to. -/
theorem sneak_disturbed :
    ¬ ∀ (m : Module) (w : World) (npc : UInt32) (acts : List Act) (calls : List Call)
      (net : NetState) (t : ℚ), InOrder (calls ++ [.applyState net t w]) →
      Defers m w npc net t (play m npc calls ⟨{}, acts⟩) := by
  intro h
  have hquiet := (h ⟨true, true, true, true, true, true⟩ unmoved 5 [.cmd 5 [.setRestrained true]]
    [.applyState { isSneaking := 1 } 0 unmoved] { isSneaking := 1, actionState := 4 } 1
    (by decide)).quiet (.inl (by decide +kernel))
  revert hquiet
  decide +kernel

end Fnvmp.Animation
