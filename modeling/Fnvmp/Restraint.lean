import Fnvmp.AnimationEffects

/-!
# The restraint flag and the engine agree

An NPC is restrained except while an operation is pending. The flag, the pending bits
and the last `SetRestrained` command say the same at the end of every call, and the
commands that need a free NPC are only given to one.
-/

namespace Fnvmp.Animation

open ExactFloat Engine Protocol CommandLog

/-- What a line makes of the restraint. -/
def Line.restrained : Line → Option Bool
  | .setRestrained on => some on
  | _ => none

/-- The commands a restrained NPC would not carry out. -/
def Line.needsFree : Line → Bool
  | .setForceSneak _ => true
  | .setWeaponOut _ => true
  | .setAlert _ => true
  | _ => false

def Allowed (before : List Line) (l : Line) : Prop :=
  Line.needsFree l = true → latest Line.restrained before = some false

/-- The lines put on an NPC agree with the flag, and were all allowed. -/
structure Coupled (lines : List Line) (free : Bool) : Prop where
  engine : latest Line.restrained lines = some (!free)
  careful : Guarded Allowed lines

theorem Coupled.quiet {lines more : List Line} {free : Bool} (h : Coupled lines free)
    (hrestrained : ∀ l ∈ more, Line.restrained l = none)
    (hfree : ∀ l ∈ more, Line.needsFree l = false) : Coupled (lines ++ more) free where
  engine := by rw [latest_silent _ _ _ hrestrained, h.engine]
  careful := h.careful.append_free fun l hl _ hneeds => by simp [hfree l hl] at hneeds

theorem Coupled.restrain {lines : List Line} {free : Bool} (h : Coupled lines free) (on : Bool) :
    Coupled (lines ++ [.setRestrained on]) (!on) where
  engine := by simp [latest_snoc, Line.restrained]
  careful := (guarded_snoc _ _).mpr ⟨h.careful, fun hneeds => by simp [Line.needsFree] at hneeds⟩

/-- A free NPC may be given any command. -/
theorem Coupled.command {lines : List Line} (h : Coupled lines true) (more : List Line)
    (hmore : ∀ l ∈ more, Line.restrained l = none) : Coupled (lines ++ more) true := by
  induction more using List.reverseRecOn with
  | nil => simpa using h
  | append_singleton rest l ih =>
    obtain ⟨hengine, hcareful⟩ := ih fun a ha => hmore a (List.mem_append_left _ ha)
    rw [← List.append_assoc]
    refine ⟨?_, (guarded_snoc _ _).mpr ⟨hcareful, fun _ => hengine⟩⟩
    rw [latest_snoc, hmore l (by simp), Option.none_or, hengine]

/-- Between two calls the flag also tells whether an operation is pending. -/
structure Settled (npc : UInt32) (sc : Scene) : Prop where
  coupled : Coupled (linesTo npc sc.acts) sc.st.isUnrestrained
  pending : sc.st.isUnrestrained = true ↔ sc.st.pendingOps ≠ {}

/-- Animation groups and sounds change nothing of this. -/
theorem Settled.animate {npc : UInt32} {sc sc' : Scene} (h : Settled npc sc)
    (hadds : Adds Line.IsAnimation npc sc sc')
    (hflag : sc'.st.isUnrestrained = sc.st.isUnrestrained)
    (hops : sc'.st.pendingOps = sc.st.pendingOps) : Settled npc sc' := by
  obtain ⟨more, hlines, hmore⟩ := hadds.lines
  refine ⟨?_, by rw [hflag, hops]; exact h.pending⟩
  rw [hlines, hflag]
  refine h.coupled.quiet (fun l hl => ?_) (fun l hl => ?_)
  · rcases hmore l hl with rfl | ⟨_, _, rfl⟩ <;> rfl
  · rcases hmore l hl with rfl | ⟨_, _, rfl⟩ <;> rfl

variable (m : Module) (w : World) (npc : UInt32)

theorem unrestrain_coupled (currentTime : ℚ) {sc : Scene}
    (h : Coupled (linesTo npc sc.acts) sc.st.isUnrestrained) :
    Coupled (linesTo npc (unrestrain npc currentTime sc).acts) true := by
  unfold unrestrain
  split
  · rename_i hfree
    rw [← hfree]
    exact h
  · change Coupled (linesTo npc (runCmd npc [.setRestrained false] sc).acts) (!false)
    rw [runCmd_lines]
    exact h.restrain false

/-- A transition frees the NPC, gives its command and leaves one bit set. -/
theorem Settled.start {npc : UInt32} {sc : Scene} (h : Settled npc sc) (currentTime : ℚ)
    (lines : List Line) (hlines : ∀ l ∈ lines, Line.restrained l = none) (st : EntityAnimState)
    (hflag : st.isUnrestrained = (unrestrain npc currentTime sc).st.isUnrestrained)
    (hops : st.pendingOps ≠ {}) :
    Settled npc ⟨st, (runCmd npc lines (unrestrain npc currentTime sc)).acts⟩ := by
  have hfree : st.isUnrestrained = true := by rw [hflag, unrestrain_st]
  refine ⟨?_, by simp [hfree, hops]⟩
  change Coupled (linesTo npc (runCmd npc lines (unrestrain npc currentTime sc)).acts) _
  rw [runCmd_lines, hfree]
  exact (unrestrain_coupled npc currentTime h.coupled).command lines hlines

theorem pollUnrestrain_settled (currentTime : ℚ) {sc : Scene} (h : Settled npc sc) :
    Settled npc (pollUnrestrain m w npc currentTime sc) := by
  have restrained : ∀ (sc : Scene) (st : EntityAnimState),
      Coupled (linesTo npc sc.acts) sc.st.isUnrestrained → st.isUnrestrained = false →
      st.pendingOps = {} →
      Settled npc ⟨st, (runCmd npc [.setRestrained true] sc).acts⟩ := by
    intro sc st hcoupled hflag hops
    refine ⟨?_, by simp [hflag, hops]⟩
    change Coupled (linesTo npc (runCmd npc [.setRestrained true] sc).acts) st.isUnrestrained
    rw [runCmd_lines, hflag]
    exact hcoupled.restrain true
  have hwatch := pollPending_watches m w npc sc
  have hpolled : Coupled (linesTo npc (pollPending m w npc sc).acts)
      (pollPending m w npc sc).st.isUnrestrained := by
    rw [hwatch.polls.polls_lines, hwatch.isUnrestrained]
    exact h.coupled
  obtain ⟨-, heq⟩ | ⟨-, -, heq⟩ | ⟨hfree, -, mid, rfl, ⟨hops, heq⟩ | ⟨hops, heq⟩⟩ :=
    pollUnrestrain_cases m w npc currentTime sc <;> rw [heq]
  · exact h
  · exact restrained sc _ h.coupled rfl rfl
  · exact ⟨hpolled, by simp [hwatch.isUnrestrained, hfree, hops]⟩
  · exact restrained _ _ hpolled rfl hops

theorem applySneak_settled (isSneaking : UInt8) (currentTime : ℚ) {sc : Scene}
    (h : Settled npc sc) : Settled npc (applySneak npc isSneaking currentTime sc) := by
  unfold applySneak
  split
  · exact h
  · split
    · exact h.start currentTime [.setForceSneak true] (by simp [Line.restrained]) _ rfl
        (by simp)
    · exact h.start currentTime [.setForceSneak false] (by simp [Line.restrained]) _ rfl
        (by simp)

theorem applyWeapon_settled (netIsWeaponOut : UInt8) (currentTime : ℚ) {sc : Scene}
    (h : Settled npc sc) : Settled npc (applyWeapon m w npc netIsWeaponOut currentTime sc) := by
  have hwatch := weaponFallback_watches m w npc sc
  have hmid : Settled npc (weaponFallback m w npc sc) := by
    refine ⟨?_, ?_⟩
    · rw [hwatch.polls.polls_lines, hwatch.isUnrestrained]
      exact h.coupled
    · rw [hwatch.isUnrestrained, weaponFallback_ops]
      exact h.pending
  obtain ⟨-, heq⟩ | ⟨-, -, mid, rfl, ⟨-, heq⟩ | ⟨-, -, heq⟩ | ⟨-, -, heq⟩⟩ :=
    applyWeapon_cases m w npc netIsWeaponOut currentTime sc <;> rw [heq]
  · exact h
  · exact hmid
  · exact hmid.start currentTime [.setWeaponOut true, .setAlert true]
      (by simp [Line.restrained]) _ rfl (by simp)
  · exact hmid.start currentTime [.setWeaponOut false, .setAlert false]
      (by simp [Line.restrained]) _ rfl (by simp)

theorem applyState_settled (net : NetState) (currentTime : ℚ) {sc : Scene} (h : Settled npc sc) :
    Settled npc (applyState m w npc net currentTime sc) := by
  unfold applyState
  split
  · exact h
  · have hpoll := pollUnrestrain_settled m w npc currentTime h
    have hsneak := applySneak_settled npc net.isSneaking currentTime hpoll
    have hweapon := applyWeapon_settled m w npc net.isWeaponOut currentTime hsneak
    have hmove := hweapon.animate
      (applyLocomotion_adds npc net.moveDirection net.isRunning currentTime _) (by simp) (by simp)
    have hact := hmove.animate
      (applyActions_adds npc net.actionState net.isWeaponOut currentTime _)
      (by rw [applyActions_st]) (by rw [applyActions_st])
    exact ⟨hact.coupled, hact.pending⟩

theorem applyFire_settled (currentTime : ℚ) {sc : Scene} (h : Settled npc sc) :
    Settled npc (applyFire m npc currentTime sc) := by
  obtain ⟨t, hst⟩ := applyFire_st m npc currentTime sc
  exact h.animate (applyFire_adds m npc currentTime sc) (by rw [hst]) (by rw [hst])

theorem call_settled (c : Call) {sc : Scene} (h : Settled npc sc) :
    Settled npc (c.run m npc sc) := by
  cases c with
  | applyState net currentTime w => exact applyState_settled m w npc net currentTime h
  | applyFire currentTime => exact applyFire_settled m npc currentTime h

/-- From a freshly spawned NPC on, whatever the network and the polls bring, the flag, the
pending bits and the last `SetRestrained` command agree at the end of every call, and no
command that needs a free NPC is given to a restrained one. -/
theorem restraint_matches_engine (acts : List Act) (calls : List Call)
    (hspawned : latest Line.restrained (linesTo npc acts) = some true)
    (hfresh : ∀ l ∈ linesTo npc acts, Line.needsFree l = false) :
    let sc := play m npc calls ⟨{}, acts⟩
    (sc.st.isUnrestrained = true ↔ sc.st.pendingOps ≠ {}) ∧
    (sc.st.pendingOps ≠ {} ↔ latest Line.restrained (linesTo npc sc.acts) = some false) ∧
    ∀ before l after, linesTo npc sc.acts = before ++ l :: after → Line.needsFree l = true →
      latest Line.restrained before = some false := by
  have hcareful : Guarded Allowed (linesTo npc acts) := by
    have hnil : Guarded Allowed [] := guarded_nil
    simpa using hnil.append_free fun l hl _ hneeds => by simp [hfresh l hl] at hneeds
  have hstart : Settled npc ⟨{}, acts⟩ := ⟨⟨hspawned, hcareful⟩, by simp⟩
  have h := play_invariant (Settled npc) (fun c _ hsc => call_settled m npc c hsc) calls hstart
  refine ⟨h.pending, ?_, h.coupled.careful⟩
  rw [← h.pending, h.coupled.engine]
  simp

/-- An NPC that is told to sneak and does so. -/
theorem restraint_matches_engine_sneak :
    let m : Module := ⟨true, true, true, true, true, true⟩
    let w : World := ⟨true, 1, fun _ _ => true, fun _ _ _ => some (.fin 1), fun _ => .failed⟩
    let sc := play m 5 [.applyState { isSneaking := 1 } 0 w, .applyState { isSneaking := 1 } 1 w]
      ⟨{}, [.cmd 5 [.setRestrained true]]⟩
    (sc.st.isUnrestrained = true ↔ sc.st.pendingOps ≠ {}) ∧
    (sc.st.pendingOps ≠ {} ↔ latest Line.restrained (linesTo 5 sc.acts) = some false) ∧
    (∀ before l after, linesTo 5 sc.acts = before ++ l :: after → Line.needsFree l = true →
      latest Line.restrained before = some false) ∧
    (linesTo 5 sc.acts).any Line.needsFree = true := by
  intro m w sc
  obtain ⟨hflag, hcommand, hcareful⟩ := restraint_matches_engine m 5 [.cmd 5 [.setRestrained true]]
    [.applyState { isSneaking := 1 } 0 w, .applyState { isSneaking := 1 } 1 w]
    (by decide) (by decide)
  exact ⟨hflag, hcommand, hcareful, by decide +kernel⟩

end Fnvmp.Animation
