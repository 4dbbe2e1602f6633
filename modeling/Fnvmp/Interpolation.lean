import Fnvmp.OrderedMap
import Fnvmp.Protocol
import Mathlib.Algebra.Order.Ring.Rat
import Mathlib.Data.Fin.Basic
import Mathlib.Data.Rat.Cast.Defs
import Mathlib.Logic.Function.Basic

/-!
# Interpolation of remote positions

For each entity a ring buffer of the last five samples and a velocity estimate. The
code is generic in the type of its `float`s; times are the client's own clock. `none`
stands for a loop that has not ended within the given number of passes.
-/

namespace Fnvmp.Interp

/-- `INTERP_DELAY` and `EXTRAP_TIMEOUT`. -/
def interpDelay : ℚ := 2 / 30
def extrapTimeout : ℚ := 1 / 2

/-- `3.14159265f`, the binary32 number nearest to that decimal. -/
def pi : ℚ := 13176795 / 4194304

abbrev bufferSize : Nat := 5

variable {F : Type}

structure SnapshotSample (F : Type) where
  posX : F
  posY : F
  posZ : F
  rotZ : F
  timestamp : ℚ
  deriving DecidableEq

/-- Slots that were never written hold the zeros the map puts there. -/
structure EntityInterpState (F : Type) where
  samples : Fin bufferSize → SnapshotSample F
  count : Nat
  writeIdx : Fin bufferSize
  velX : F
  velY : F
  velZ : F

structure Pose (F : Type) where
  posX : F
  posY : F
  posZ : F
  rotZ : F
  deriving DecidableEq

def SnapshotSample.pose (s : SnapshotSample F) : Pose F := ⟨s.posX, s.posY, s.posZ, s.rotZ⟩

/-- `g_interpStates`. -/
abbrev InterpStates (F : Type) := OrderedMap UInt32 (EntityInterpState F)

/-- The slot of a logical index: 0 is the oldest sample, `count - 1` the newest. -/
def slot (state : EntityInterpState F) (logicalIdx : Nat) : Fin bufferSize :=
  let oldest := (state.writeIdx.val + bufferSize - state.count) % bufferSize
  ⟨(oldest + logicalIdx) % bufferSize, Nat.mod_lt _ (by decide)⟩

def getSample (state : EntityInterpState F) (logicalIdx : Nat) : SnapshotSample F :=
  state.samples (slot state logicalIdx)

variable [Add F] [Sub F] [Mul F] [Div F] [RatCast F] [LT F] [DecidableLT F]

/-! ## Angles -/

/-- `while (diff > PI) diff -= 2.0f * PI`. -/
def unwindDown : Nat → F → Option F
  | 0, diff => if (pi : F) < diff then none else some diff
  | fuel + 1, diff =>
    if (pi : F) < diff then unwindDown fuel (diff - ((2 : ℚ) : F) * (pi : F)) else some diff

/-- `while (diff < -PI) diff += 2.0f * PI`. -/
def unwindUp : Nat → F → Option F
  | 0, diff => if diff < ((-pi : ℚ) : F) then none else some diff
  | fuel + 1, diff =>
    if diff < ((-pi : ℚ) : F) then unwindUp fuel (diff + ((2 : ℚ) : F) * (pi : F)) else some diff

def lerpAngle (fuel : Nat) (a b t : F) : Option F :=
  (unwindDown fuel (b - a)).bind fun diff => (unwindUp fuel diff).map fun diff => a + t * diff

/-! ## The buffer -/

def emptyState : EntityInterpState F where
  samples := fun _ => ⟨((0 : ℚ) : F), ((0 : ℚ) : F), ((0 : ℚ) : F), ((0 : ℚ) : F), 0⟩
  count := 0
  writeIdx := 0
  velX := ((0 : ℚ) : F)
  velY := ((0 : ℚ) : F)
  velZ := ((0 : ℚ) : F)

/-- The velocity update: the slope from the newest sample, if it is old enough. -/
def updateVelocity (state : EntityInterpState F) (x y z : F) (localTime : ℚ) :
    EntityInterpState F :=
  if state.count > 0 then
    let prev := getSample state (state.count - 1)
    let dt := localTime - prev.timestamp
    if dt > 1 / 1000 then
      { state with
        velX := (x - prev.posX) / (dt : F)
        velY := (y - prev.posY) / (dt : F)
        velZ := (z - prev.posZ) / (dt : F) }
    else state
  else state

def writeSample (state : EntityInterpState F) (sample : SnapshotSample F) : EntityInterpState F :=
  { state with
    samples := Function.update state.samples state.writeIdx sample
    writeIdx := state.writeIdx + 1
    count := if state.count < bufferSize then state.count + 1 else state.count }

/-- The index operator of the map: an absent entity gets an empty state first. -/
def pushSnapshot (states : InterpStates F) (entityId : UInt32) (x y z rotZ : F) (localTime : ℚ) :
    InterpStates F :=
  let state := (states.find? entityId).getD emptyState
  states.insert entityId
    (writeSample (updateVelocity state x y z localTime) ⟨x, y, z, rotZ, localTime⟩)

/-- The `for` loop over neighbouring samples, from index `i` with `n` pairs left. -/
def findBracket (state : EntityInterpState F) (renderTime : ℚ) :
    Nat → Nat → Option (SnapshotSample F × SnapshotSample F)
  | _, 0 => none
  | i, n + 1 =>
    let a := getSample state i
    let b := getSample state (i + 1)
    if renderTime ≥ a.timestamp ∧ renderTime ≤ b.timestamp then some (a, b)
    else findBracket state renderTime (i + 1) n

def interpolate (fuel : Nat) (a b : SnapshotSample F) (renderTime : ℚ) : Option (Pose F) :=
  let dt := b.timestamp - a.timestamp
  let t : F := if dt > 1 / 10000 then (((renderTime - a.timestamp) / dt : ℚ) : F)
    else ((0 : ℚ) : F)
  (lerpAngle fuel a.rotZ b.rotZ t).map fun rotZ =>
    ⟨a.posX + t * (b.posX - a.posX), a.posY + t * (b.posY - a.posY),
      a.posZ + t * (b.posZ - a.posZ), rotZ⟩

/-- Beyond the newest sample: follow the velocity, or freeze after the timeout. -/
def extrapolate (state : EntityInterpState F) (newest : SnapshotSample F)
    (renderTime currentTime : ℚ) : Pose F :=
  let timeSinceNewest := currentTime - newest.timestamp
  if timeSinceNewest > extrapTimeout then newest.pose
  else
    let dt : F := ((renderTime - newest.timestamp : ℚ) : F)
    ⟨newest.posX + state.velX * dt, newest.posY + state.velY * dt,
      newest.posZ + state.velZ * dt, newest.rotZ⟩

/-- The outer `none` is a loop that runs on, the inner one the result `false`. -/
def getState (fuel : Nat) (states : InterpStates F) (entityId : UInt32)
    (renderTime currentTime : ℚ) : Option (Option (Pose F)) :=
  match states.find? entityId with
  | none => some none
  | some state =>
    if state.count = 0 then some none
    else
      let oldest := getSample state 0
      let newest := getSample state (state.count - 1)
      if state.count = 1 ∨ renderTime ≤ oldest.timestamp then some (some oldest.pose)
      else
        match if renderTime ≤ newest.timestamp then findBracket state renderTime 0 (state.count - 1)
          else none with
        | some (a, b) => (interpolate fuel a b renderTime).map some
        | none => some (some (extrapolate state newest renderTime currentTime))

def removeEntity (states : InterpStates F) (entityId : UInt32) : InterpStates F :=
  states.erase entityId

def clear : InterpStates F := ∅

end Fnvmp.Interp
