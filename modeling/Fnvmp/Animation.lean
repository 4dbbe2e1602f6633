import Fnvmp.Engine
import Fnvmp.Protocol

/-!
# Animating a remote NPC

The per-entity animation state and the functions that drive it, one definition for
each function and each `if` of the polling function. A `Scene` is that state together
with the trace of what was done to the engine.
-/

namespace Fnvmp.Animation

open ExactFloat Engine Protocol

def unrestrainTimeout : ℚ := 2
def meleeAnimDuration : ℚ := 8 / 10
def thrownAnimDuration : ℚ := 8 / 10

/-- The `PendingOp` bitmask, bit by bit; `PENDING_NONE` is the empty mask. -/
structure PendingOps where
  weaponDraw : Bool := false
  weaponHolster : Bool := false
  sneakEnter : Bool := false
  sneakExit : Bool := false
  deriving DecidableEq, Repr

structure EntityAnimState where
  prevMoveDirection : UInt8 := 0
  prevIsRunning : UInt8 := 0
  prevActionState : UInt8 := 0
  prevIsSneaking : UInt8 := 0
  pendingOps : PendingOps := {}
  isUnrestrained : Bool := false
  unrestrainStartTime : ℚ := 0
  cachedWeaponType : Int := -1
  npcWeaponOut : Bool := false
  weaponAnimSeen : Bool := false
  forceReapplyActions : Bool := false
  attackAnimEndTime : ℚ := 0
  deriving DecidableEq

/-- The module's pointers: which interfaces are set and which expressions compiled. -/
structure Module where
  script : Bool := false
  console : Bool := false
  exprIsWeaponOut : Bool := false
  exprIsSneaking : Bool := false
  exprGetAnimAction : Bool := false
  exprGetEquippedWeaponType : Bool := false
  deriving DecidableEq

/-- `Animation_Init`, where `compiles` says what `CompileExpression` succeeds on. -/
def init (m : Module) (script console : Bool) (compiles : Script → Bool) : Module :=
  let m := { m with script := script, console := console }
  if script = false then m
  else { m with
    exprIsWeaponOut := compiles .isWeaponOut
    exprIsSneaking := compiles .isSneaking
    exprGetAnimAction := compiles .getAnimAction
    exprGetEquippedWeaponType := compiles .getEquippedWeaponType }

/-- `Animation_Shutdown`. -/
def shutdown (m : Module) : Module :=
  { m with
    exprIsWeaponOut := false
    exprIsSneaking := false
    exprGetAnimAction := false
    exprGetEquippedWeaponType := false }

/-- The state of a remote entity that the network sets, in the order of the parameters
of `Animation_ApplyState`. -/
structure NetState where
  moveDirection : UInt8 := 0
  isRunning : UInt8 := 0
  isWeaponOut : UInt8 := 0
  actionState : UInt8 := 0
  isSneaking : UInt8 := 0
  deriving DecidableEq, Repr

structure Scene where
  st : EntityAnimState
  acts : List Act

variable (m : Module) (w : World) (npc : UInt32)

/-! ## Helpers -/

/-- `compiled` says that the expression is not null. A failed call counts as 0. -/
def pollNumber (compiled : Bool) (script : Script) (sc : Scene) : FloatVal × Scene :=
  if compiled && m.script then
    let answer := w.call sc.acts npc script
    (answer.getD (.fin 0), { sc with acts := sc.acts ++ [.poll npc script answer] })
  else (.fin 0, sc)

def runCmd (lines : List Line) (sc : Scene) : Scene :=
  { sc with acts := runLine sc.acts npc lines }

/-- `s_exprGetAnimAction ? (int)PollNumber(s_exprGetAnimAction, npc) : -1`. -/
def pollAnimAction (sc : Scene) : Int × Scene :=
  if m.exprGetAnimAction then
    let r := pollNumber m w npc m.exprGetAnimAction .getAnimAction sc
    (r.1.toInt32, r.2)
  else (-1, sc)

/-- `if (s_exprGetEquippedWeaponType) st.cachedWeaponType = (int)PollNumber(..)`. -/
def refreshWeaponType (sc : Scene) : Scene :=
  if m.exprGetEquippedWeaponType then
    let r := pollNumber m w npc m.exprGetEquippedWeaponType .getEquippedWeaponType sc
    { r.2 with st := { r.2.st with cachedWeaponType := r.1.toInt32 } }
  else sc

/-- The opening shared by the four transitions. -/
def unrestrain (currentTime : ℚ) (sc : Scene) : Scene :=
  if sc.st.isUnrestrained then sc
  else
    let sc := runCmd npc [.setRestrained false] sc
    { sc with st := { sc.st with isUnrestrained := true, unrestrainStartTime := currentTime } }

/-! ## Locomotion -/

/-- The `switch` of `ApplyLocomotion`; it has no case for an undefined direction. -/
def locomotion (moveDir isRunning : UInt8) : Option (List Line) :=
  let pick (fast slow : AnimGroup) : Line := .playGroup (if isRunning ≠ 0 then fast else slow) 1
  match MoveDirection.ofCode moveDir with
  | some .none => some [.playGroup .idle 1]
  | some .forward => some [pick .fastForward .forward]
  | some .backward => some [pick .fastBackward .backward]
  | some .left => some [pick .fastLeft .left]
  | some .right => some [pick .fastRight .right]
  | some .forwardLeft => some [pick .fastForward .forward, pick .fastLeft .left]
  | some .forwardRight => some [pick .fastForward .forward, pick .fastRight .right]
  | some .backwardLeft => some [pick .fastBackward .backward, pick .fastLeft .left]
  | some .backwardRight => some [pick .fastBackward .backward, pick .fastRight .right]
  | some .turnLeft => some [.playGroup .turnLeft 1]
  | some .turnRight => some [.playGroup .turnRight 1]
  | none => none

def applyLocomotion (moveDir isRunning : UInt8) (currentTime : ℚ) (sc : Scene) : Scene :=
  if currentTime < sc.st.attackAnimEndTime then sc
  else if moveDir = sc.st.prevMoveDirection ∧ isRunning = sc.st.prevIsRunning then sc
  else match locomotion moveDir isRunning with
    | some lines => runCmd npc lines sc
    | none => sc

/-! ## Sneak transitions -/

def applySneak (isSneaking : UInt8) (currentTime : ℚ) (sc : Scene) : Scene :=
  if isSneaking = sc.st.prevIsSneaking then sc
  else if isSneaking ≠ 0 then
    let sc := runCmd npc [.setForceSneak true] (unrestrain npc currentTime sc)
    { sc with st := { sc.st with pendingOps := { sc.st.pendingOps with sneakEnter := true } } }
  else
    let sc := runCmd npc [.setForceSneak false] (unrestrain npc currentTime sc)
    { sc with st := { sc.st with pendingOps := { sc.st.pendingOps with sneakExit := true } } }

/-! ## Weapon draw and holster -/

/-- The `IsWeaponOut` fallback: the tracked state follows the polled one. -/
def weaponFallback (sc : Scene) : Scene :=
  if m.exprIsWeaponOut then
    let r := pollNumber m w npc m.exprIsWeaponOut .isWeaponOut sc
    let actual := r.1.ge (.fin 1)
    if actual ≠ r.2.st.npcWeaponOut then
      let sc := { r.2 with st := { r.2.st with npcWeaponOut := actual } }
      if actual then refreshWeaponType m w npc sc else sc
    else r.2
  else sc

def drawWeapon (currentTime : ℚ) (sc : Scene) : Scene :=
  let sc := runCmd npc [.setWeaponOut true, .setAlert true] (unrestrain npc currentTime sc)
  { sc with st := { sc.st with
    pendingOps := { sc.st.pendingOps with weaponDraw := true }
    weaponAnimSeen := false
    cachedWeaponType := -1 } }

def holsterWeapon (currentTime : ℚ) (sc : Scene) : Scene :=
  let sc := runCmd npc [.setWeaponOut false, .setAlert false] (unrestrain npc currentTime sc)
  { sc with st := { sc.st with
    pendingOps := { sc.st.pendingOps with weaponHolster := true }
    weaponAnimSeen := false
    cachedWeaponType := -1 } }

def applyWeapon (netIsWeaponOut : UInt8) (currentTime : ℚ) (sc : Scene) : Scene :=
  if sc.st.pendingOps.weaponDraw || sc.st.pendingOps.weaponHolster then sc
  else
    let sc := weaponFallback m w npc sc
    let desiredWeaponOut := decide (netIsWeaponOut ≠ 0)
    if sc.st.npcWeaponOut = desiredWeaponOut then sc
    else if desiredWeaponOut then drawWeapon npc currentTime sc
    else holsterWeapon npc currentTime sc

/-! ## Polling the pending operations -/

def pollDraw (sc : Scene) : Scene :=
  if sc.st.pendingOps.weaponDraw then
    let r := pollAnimAction m w npc sc
    let sc := if r.1 = 0 then { r.2 with st := { r.2.st with weaponAnimSeen := true } } else r.2
    if sc.st.weaponAnimSeen ∧ r.1 ≠ 0 then
      refreshWeaponType m w npc { sc with st := { sc.st with
        pendingOps := { sc.st.pendingOps with weaponDraw := false }
        weaponAnimSeen := false
        npcWeaponOut := true } }
    else sc
  else sc

def pollHolster (sc : Scene) : Scene :=
  if sc.st.pendingOps.weaponHolster then
    let r := pollAnimAction m w npc sc
    let sc := if r.1 = 1 then { r.2 with st := { r.2.st with weaponAnimSeen := true } } else r.2
    if sc.st.weaponAnimSeen ∧ r.1 ≠ 1 then
      { sc with st := { sc.st with
        pendingOps := { sc.st.pendingOps with weaponHolster := false }
        weaponAnimSeen := false
        npcWeaponOut := false } }
    else sc
  else sc

def pollSneakEnter (sc : Scene) : Scene :=
  if sc.st.pendingOps.sneakEnter then
    let r := pollNumber m w npc m.exprIsSneaking .isSneaking sc
    if r.1.ge (.fin 1) then
      { r.2 with st := { r.2.st with pendingOps := { r.2.st.pendingOps with sneakEnter := false } } }
    else r.2
  else sc

def pollSneakExit (sc : Scene) : Scene :=
  if sc.st.pendingOps.sneakExit then
    let r := pollNumber m w npc m.exprIsSneaking .isSneaking sc
    if r.1 < .fin 1 then
      { r.2 with st := { r.2.st with pendingOps := { r.2.st.pendingOps with sneakExit := false } } }
    else r.2
  else sc

/-- The last `if`: with nothing pending the NPC is restrained again. -/
def settle (sc : Scene) : Scene :=
  if sc.st.pendingOps = {} then
    let sc := runCmd npc [.setRestrained true] sc
    { sc with st := { sc.st with isUnrestrained := false, forceReapplyActions := true } }
  else sc

/-- The four polls in program order. -/
def pollPending (sc : Scene) : Scene :=
  pollSneakExit m w npc (pollSneakEnter m w npc (pollHolster m w npc (pollDraw m w npc sc)))

def pollUnrestrain (currentTime : ℚ) (sc : Scene) : Scene :=
  if sc.st.isUnrestrained = false then sc
  else if currentTime - sc.st.unrestrainStartTime > unrestrainTimeout then
    let sc := runCmd npc [.setRestrained true] sc
    { sc with st := { sc.st with isUnrestrained := false, pendingOps := {} } }
  else settle npc (pollPending m w npc sc)

/-! ## Upper-body actions -/

def actionLines (actionState isWeaponOut : UInt8) : Option (List Line) :=
  if actionState &&& actionReloading ≠ 0 then some [.playGroup .reloadA 1]
  else if actionState &&& actionAimingIS ≠ 0 then some [.playGroup .aimIS 1]
  else if isWeaponOut ≠ 0 then some [.playGroup .aim 1]
  else none

def applyActions (actionState isWeaponOut : UInt8) (currentTime : ℚ) (sc : Scene) : Scene :=
  if currentTime < sc.st.attackAnimEndTime then
    { sc with st := { sc.st with prevActionState := actionState, forceReapplyActions := false } }
  else
    let stateChanged := decide (actionState ≠ sc.st.prevActionState) || sc.st.forceReapplyActions
    let sc := { sc with st := { sc.st with forceReapplyActions := false } }
    if stateChanged = false then sc
    else match actionLines actionState isWeaponOut with
      | some lines => runCmd npc lines sc
      | none => sc

/-! ## The two entry points -/

/-- `Animation_ApplyFire`. -/
def applyFire (currentTime : ℚ) (sc : Scene) : Scene :=
  if m.console = false then sc
  else
    let wtype := sc.st.cachedWeaponType
    if 3 ≤ wtype ∧ wtype ≤ 9 then
      let sc :=
        if sc.st.prevActionState &&& actionAimingIS ≠ 0 then
          runCmd npc [.playGroup .attackLeftIS 1, .playGroup .aimIS 0] sc
        else runCmd npc [.playGroup .attackLeft 1] sc
      runCmd npc [.playWeaponSound] sc
    else if 0 ≤ wtype ∧ wtype ≤ 2 then
      let sc := runCmd npc [.playGroup .attackRight 1] sc
      { sc with st := { sc.st with attackAnimEndTime := currentTime + meleeAnimDuration } }
    else if 10 ≤ wtype ∧ wtype ≤ 13 then
      let sc := runCmd npc [.playGroup .attackThrow6 1] sc
      { sc with st := { sc.st with attackAnimEndTime := currentTime + thrownAnimDuration } }
    else runCmd npc [.playGroup .attackLeft 1] sc

/-- The last four assignments of `Animation_ApplyState`. -/
def storePrev (net : NetState) (sc : Scene) : Scene :=
  { sc with st := { sc.st with
    prevMoveDirection := net.moveDirection
    prevIsRunning := net.isRunning
    prevIsSneaking := net.isSneaking
    prevActionState := net.actionState } }

/-- `Animation_ApplyState`. -/
def applyState (net : NetState) (currentTime : ℚ) (sc : Scene) : Scene :=
  if m.console = false then sc
  else
    let sc := pollUnrestrain m w npc currentTime sc
    let sc := applySneak npc net.isSneaking currentTime sc
    let sc := applyWeapon m w npc net.isWeaponOut currentTime sc
    let sc := applyLocomotion npc net.moveDirection net.isRunning currentTime sc
    let sc := applyActions npc net.actionState net.isWeaponOut currentTime sc
    storePrev net sc

/-! ## What the helpers leave alone -/

@[simp] theorem pollNumber_st (compiled : Bool) (script : Script) (sc : Scene) :
    (pollNumber m w npc compiled script sc).2.st = sc.st := by
  unfold pollNumber
  split <;> rfl

@[simp] theorem pollAnimAction_st (sc : Scene) : (pollAnimAction m w npc sc).2.st = sc.st := by
  unfold pollAnimAction
  split <;> simp

/-- A poll of the weapon type sets nothing but the cached type. -/
theorem refreshWeaponType_st (sc : Scene) : ∃ wtype,
    (refreshWeaponType m w npc sc).st = { sc.st with cachedWeaponType := wtype } := by
  unfold refreshWeaponType
  split
  · refine ⟨(pollNumber m w npc m.exprGetEquippedWeaponType
      .getEquippedWeaponType sc).1.toInt32, ?_⟩
    simp only [pollNumber_st]
  · exact ⟨sc.st.cachedWeaponType, rfl⟩

@[simp] theorem refreshWeaponType_pendingOps (sc : Scene) :
    (refreshWeaponType m w npc sc).st.pendingOps = sc.st.pendingOps := by
  obtain ⟨wtype, hst⟩ := refreshWeaponType_st m w npc sc
  rw [hst]

@[simp] theorem runCmd_lines (lines : List Line) (sc : Scene) :
    linesTo npc (runCmd npc lines sc).acts = linesTo npc sc.acts ++ lines := by
  simp [runCmd, runLine]

end Fnvmp.Animation
