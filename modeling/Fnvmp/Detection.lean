import Fnvmp.ClientLoop

/-!
# What a client reports about its own player

The main loop after the entity manager has ticked. Every frame polls the player's action
for the begin of an attack; once in each interval a snapshot of the player is sent.
-/

namespace Fnvmp.Detection

open ExactFloat Engine Protocol Net

/-! ## Movement direction -/

/-- The functions of the C library that are called. -/
structure Libm (F : Type) where
  sqrtf : F → F
  atan2f : F → F → F

/-- `3.14159f`, `6.28318f` and `PI_8`, the binary32 numbers nearest to these decimals. -/
def halfTurn : ℚ := 823549 / 262144
def fullTurn : ℚ := 823549 / 131072
def pi8 : ℚ := 1647099 / 4194304

def idleThreshold : ℚ := 1

/-- `0.01f`. -/
def turnThreshold : ℚ := 5368709 / 536870912

/-- The player as the last snapshot showed it. -/
structure Previous (F : Type) where
  prevPosX : F
  prevPosY : F
  prevPosZ : F
  prevRotZ : F
  prevPosValid : Bool

section direction

variable {F : Type} [Add F] [Sub F] [Mul F] [RatCast F] [LT F] [DecidableLT F] [LE F]
  [DecidableLE F]

/-- One turn less if above half a turn, then one more if below minus half a turn. -/
def normalize (angle : F) : F :=
  let angle := if (halfTurn : F) < angle then angle - (fullTurn : F) else angle
  if angle < ((-halfTurn : ℚ) : F) then angle + (fullTurn : F) else angle

def turnInPlace (rotDelta : F) : MoveDirection :=
  let rotDelta := normalize rotDelta
  if (turnThreshold : F) < rotDelta then .turnLeft
  else if rotDelta < ((-turnThreshold : ℚ) : F) then .turnRight
  else .none

/-- The 45-degree sectors, in the order of the tests. -/
def sector (relAngle : F) : MoveDirection :=
  if ((-pi8 : ℚ) : F) ≤ relAngle ∧ relAngle < (pi8 : F) then .forward
  else if (pi8 : F) ≤ relAngle ∧ relAngle < ((3 * pi8 : ℚ) : F) then .forwardLeft
  else if ((3 * pi8 : ℚ) : F) ≤ relAngle ∧ relAngle < ((5 * pi8 : ℚ) : F) then .left
  else if ((5 * pi8 : ℚ) : F) ≤ relAngle ∧ relAngle < ((7 * pi8 : ℚ) : F) then .backwardLeft
  else if ((-3 * pi8 : ℚ) : F) ≤ relAngle ∧ relAngle < ((-pi8 : ℚ) : F) then .forwardRight
  else if ((-5 * pi8 : ℚ) : F) ≤ relAngle ∧ relAngle < ((-3 * pi8 : ℚ) : F) then .right
  else if ((-7 * pi8 : ℚ) : F) ≤ relAngle ∧ relAngle < ((-5 * pi8 : ℚ) : F) then .backwardRight
  else .backward

def computeMoveDirection (libm : Libm F) (p : Previous F) (curX curY curZ curRotZ : F) :
    Previous F × MoveDirection :=
  if p.prevPosValid = false then (⟨curX, curY, curZ, curRotZ, true⟩, .none)
  else
    let dx := curX - p.prevPosX
    let dy := curY - p.prevPosY
    let magnitude := libm.sqrtf (dx * dx + dy * dy)
    (⟨curX, curY, curZ, curRotZ, true⟩,
      if magnitude < (idleThreshold : F) then turnInPlace (curRotZ - p.prevRotZ)
      else sector (normalize (libm.atan2f dx dy - curRotZ)))

end direction

/-! ## Polling the player -/

/-- Which detection expressions compiled; `script` is the interface. -/
structure Expressions where
  script : Bool
  isRunning : Bool
  isSneaking : Bool
  isWeaponOut : Bool
  getAnimAction : Bool
  isAiming : Bool

/-- The places in the loop where the player is polled, each at most once a frame. -/
inductive Site where
  | frameAction | weaponOut | running | sneaking | action | aiming
  deriving DecidableEq, Repr

/-- The expression that is polled there. -/
def Expressions.compiled (x : Expressions) : Site → Bool
  | .frameAction => x.getAnimAction
  | .weaponOut => x.isWeaponOut
  | .running => x.isRunning
  | .sneaking => x.isSneaking
  | .action => x.getAnimAction
  | .aiming => x.isAiming

/-- The player during a frame, and the answer to each poll of it (`none` when the call
failed). Whether there is one, and its cell, is in the `World`. -/
structure Player where
  posX : FloatBits
  posY : FloatBits
  posZ : FloatBits
  rotZ : FloatBits
  answer : Site → Option FloatVal

/-- `PollNumber`: a failed call counts as 0. -/
def pollNumber (x : Expressions) (player : Player) (site : Site) : FloatVal :=
  if x.compiled site && x.script then (player.answer site).getD (.fin 0) else .fin 0

/-- `(uint8_t)` of a number: the low byte of its 32-bit conversion. -/
def toUInt8 (v : FloatVal) : UInt8 := UInt8.ofInt v.toInt32

/-- The globals of the detection and of the sending. -/
structure Sender where
  prev : Previous FloatVal := ⟨.fin 0, .fin 0, .fin 0, .fin 0, false⟩
  prevAnimAction : Int := -1
  isWeaponOut : Bool := false
  snapshotAccum : ℚ := 0

/-- Attack, FollowThrough, ThrowAttach and ThrowRelease. -/
def isAttackAction (animAction : Int) : Bool :=
  decide (2 ≤ animAction ∧ animAction ≤ 6 ∧ animAction ≠ 4)

variable (x : Expressions) (net : NetClient) (w : World) (player : Player)

/-- The part of the loop that runs every frame. -/
def detectAction (s : Sender) : Sender × List Sent :=
  if w.thePlayer && x.getAnimAction then
    let animAction := (pollNumber x player .frameAction).toInt32
    let s' := if animAction = 0 ∧ s.prevAnimAction ≠ 0 then { s with isWeaponOut := true } else s
    let s' := if animAction = 1 ∧ s.prevAnimAction ≠ 1 then { s' with isWeaponOut := false } else s'
    let sent :=
      if isAttackAction animAction && !isAttackAction s.prevAnimAction && net.connected then
        sendFireEvent net net.netEntityId
      else []
    ({ s' with prevAnimAction := animAction }, sent)
  else (s, [])

/-- The `IsWeaponOut` fallback. -/
def weaponFallback (s : Sender) : Sender :=
  if x.isWeaponOut then
    { s with isWeaponOut := (pollNumber x player .weaponOut).ge (.fin 1) }
  else s

def actionState : UInt8 :=
  (if (pollNumber x player .action).toInt32 = 9 then actionReloading else 0) |||
    (if x.isAiming && (pollNumber x player .aiming).ge (.fin 1) then actionAimingIS else 0)

/-- The snapshot that is sent; `msgType` and `sequence` are filled in by the client. -/
def playerSnapshot (moveDirection : MoveDirection) (isWeaponOut : Bool) : MsgPlayerSnapshot where
  msgType := 0
  sequence := 0
  netEntityId := net.netEntityId
  cellId := w.playerCell
  posX := player.posX
  posY := player.posY
  posZ := player.posZ
  rotZ := player.rotZ
  moveDirection := moveDirection.code
  isRunning := toUInt8 (pollNumber x player .running)
  isSneaking := toUInt8 (pollNumber x player .sneaking)
  isWeaponOut := if isWeaponOut then 1 else 0
  actionState := actionState x player

/-- The part of the loop that runs while a savegame is loaded: one snapshot at most. -/
def sendSnapshot (libm : Libm FloatVal) (dt : ℚ) (s : Sender) : Sender × NetClient × List Sent :=
  if net.connected && w.thePlayer && w.playerCell ≠ 0 then
    let accum := s.snapshotAccum + dt
    if snapshotSendInterval ≤ accum then
      let s := weaponFallback x player { s with snapshotAccum := accum - snapshotSendInterval }
      let (prev, direction) := computeMoveDirection libm s.prev (.ofBits player.posX)
        (.ofBits player.posY) (.ofBits player.posZ) (.ofBits player.rotZ)
      ({ s with prev := prev },
        sendPlayerSnapshot net (playerSnapshot x net w player direction s.isWeaponOut))
    else ({ s with snapshotAccum := accum }, net, [])
  else (s, net, [])

/-- What a frame gives to these two parts. -/
structure Moment where
  world : World
  player : Player
  dt : ℚ

/-- The loop after the entity manager has ticked. -/
def sendFrame (libm : Libm FloatVal) (state : NetClient × Sender) (t : Moment) :
    (NetClient × Sender) × List Sent :=
  let (s, fires) := detectAction x state.1 t.world t.player state.2
  let (s, net, snapshots) := sendSnapshot x state.1 t.world t.player libm t.dt s
  ((net, s), fires ++ snapshots)

/-! ## The main loop -/

/-- The plugin with its sender. -/
structure Game where
  plugin : Client.Plugin
  sender : Sender := {}

structure Tick where
  frame : Client.Frame
  player : Player

def Tick.moment (t : Tick) : Moment := ⟨t.frame.world, t.player, t.frame.dt⟩

/-- `kMessage_MainGameLoop`, once the clock has been started. -/
def mainGameLoop (libm : Libm FloatVal) (g : Game) (t : Tick) : Option (Game × List Sent) :=
  (Client.frame g.plugin t.frame).map fun (plugin, received) =>
    let ((net, sender), sent) := sendFrame x libm (plugin.net, g.sender) t.moment
    (⟨{ plugin with net := net }, sender⟩, received ++ sent)

/-- A frame of the client, then one of the sender. -/
theorem mainGameLoop_cases {libm : Libm FloatVal} {g g' : Game} {t : Tick} {sent : List Sent}
    (h : mainGameLoop x libm g t = some (g', sent)) : ∃ plugin received,
      Client.frame g.plugin t.frame = some (plugin, received) ∧
      (g'.plugin.net, g'.sender) = (sendFrame x libm (plugin.net, g.sender) t.moment).1 ∧
      sent = received ++ (sendFrame x libm (plugin.net, g.sender) t.moment).2 := by
  obtain ⟨⟨plugin, received⟩, hframe, heq⟩ := Option.map_eq_some_iff.mp h
  simp only [Prod.mk.injEq] at heq
  obtain ⟨rfl, rfl⟩ := heq
  exact ⟨plugin, received, hframe, rfl, rfl⟩

end Fnvmp.Detection
