import Fnvmp.OrderedMap
import Fnvmp.EventRun
import Fnvmp.Protocol
import Fnvmp.Rounding
import Mathlib.Algebra.Order.Floor.Semiring
import Mathlib.Data.Rat.Floor

/-!
# The relay server

The global state of the server process, its handlers, and one step for each thing
the main loop does: a CONNECT, RECEIVE or DISCONNECT event of the host, a timeout
sweep and the broadcast step. Every handler returns what it did in program order.
`none` is an access outside a packet or outside the broadcast buffer.
-/

namespace Fnvmp.Server

open PackedCodec Protocol

/-- An `ENetPeer*`: the server uses its identity and its order as a map key. -/
abbrev Peer := Nat

structure PlayerInfo where
  netEntityId : UInt32
  lastHeartbeat : ℚ
  hasSnapshot : Bool := false
  lastSequence : UInt16 := 0
  cellId : UInt32 := 0
  posX : FloatBits := 0
  posY : FloatBits := 0
  posZ : FloatBits := 0
  rotZ : FloatBits := 0
  moveDirection : UInt8 := 0
  isRunning : UInt8 := 0
  isSneaking : UInt8 := 0
  isWeaponOut : UInt8 := 0
  actionState : UInt8 := 0
  deriving DecidableEq

abbrev Players := OrderedMap Peer PlayerInfo

/-- `registered` and `removed` are the writes to the player table itself: an
assignment through the index operator and an `erase`. -/
inductive Action where
  | registered (peer : Peer) (netEntityId : UInt32)
  | removed (peer : Peer) (netEntityId : UInt32)
  | send (peer : Peer) (channel : Channel) (data : List UInt8) (flag : PacketFlag)
  | peerDisconnect (peer : Peer)
  deriving DecidableEq

/-! ## Time -/

/-- The rate of `clock`: the Microsoft library counts milliseconds. -/
def clocksPerSec : ℚ := 1000

/-- The ticks `t` seconds after the start, and -1 from the first that does not fit a
`clock_t`. -/
def clock (t : ℚ) : ℤ :=
  if ⌊t * clocksPerSec⌋ < 2 ^ 31 then ⌊t * clocksPerSec⌋ else -1

def getTime (t : ℚ) : ℚ := Rounding.div (clock t) clocksPerSec

/-! ## Send helpers -/

def sendConnectAck (peer : Peer) (netEntityId : UInt32) : List Action :=
  [.send peer .system (msgEntity.encode ⟨MessageType.connectAck.code, netEntityId⟩) .reliable]

/-- The loop shared by all event broadcasts: one reliable packet to every entry of the
table but `exclude`. -/
def broadcastEntity (t : MessageType) (players : Players) (netEntityId : UInt32) (exclude : Peer) :
    List Action :=
  (players.keys.filter (fun q => q ≠ exclude)).map fun q =>
    .send q .gameEvents (msgEntity.encode ⟨t.code, netEntityId⟩) .reliable

def broadcastPlayerConnect : Players → UInt32 → Peer → List Action :=
  broadcastEntity .playerConnect

def broadcastPlayerDisconnect : Players → UInt32 → Peer → List Action :=
  broadcastEntity .playerDisconnect

/-- The relay loop of a fire event. -/
def relayFire : Players → UInt32 → Peer → List Action :=
  broadcastEntity .remoteFire

def PlayerInfo.entityState (pi : PlayerInfo) : EntityState where
  netEntityId := pi.netEntityId
  cellId := pi.cellId
  posX := pi.posX
  posY := pi.posY
  posZ := pi.posZ
  rotZ := pi.rotZ
  moveDirection := pi.moveDirection
  isRunning := pi.isRunning
  isSneaking := pi.isSneaking
  isWeaponOut := pi.isWeaponOut
  actionState := pi.actionState

/-- `sizeof(buf)`: the header and `MAX_PLAYERS` entity states. -/
def bufSize : Nat := msgWorldSnapshotHeader.size + maxPlayers * entityState.size

/-- The header in front of the buffer while `entityCount` states are filled in. -/
def header (entityCount : UInt16) : List UInt8 :=
  msgWorldSnapshotHeader.encode ⟨MessageType.worldSnapshot.code, entityCount⟩

/-- The inner loop: append the state of every other player that has a snapshot. -/
def fillStates (recipient : Peer) :
    List (Peer × PlayerInfo) → UInt16 → List UInt8 → Option (UInt16 × List UInt8)
  | [], entityCount, buf => some (entityCount, buf)
  | (other, pi) :: rest, entityCount, buf =>
    if other = recipient then fillStates recipient rest entityCount buf
    else if pi.hasSnapshot = false then fillStates recipient rest entityCount buf
    else
      (writeAt buf (msgWorldSnapshotHeader.size + entityCount.toNat * entityState.size)
        (entityState.encode pi.entityState)).bind fun buf =>
      (writeAt buf 0 (header (entityCount + 1))).bind fun buf =>
      fillStates recipient rest (entityCount + 1) buf

/-- One pass of the outer loop: the packets for one recipient, and the buffer it leaves. -/
def snapshotFor (players : Players) (recipient : Peer) (buf : List UInt8) :
    Option (List Action × List UInt8) :=
  (writeAt buf 0 (header 0)).bind fun buf =>
  (fillStates recipient players.entries 0 buf).map fun (entityCount, buf) =>
    if entityCount = 0 then ([], buf)
    else
      let totalLen := msgWorldSnapshotHeader.size + entityCount.toNat * entityState.size
      ([.send recipient .unreliable (buf.take totalLen) .unsequenced], buf)

def snapshotLoop (players : Players) : List Peer → List UInt8 → Option (List Action)
  | [], _ => some []
  | recipient :: rest, buf =>
    (snapshotFor players recipient buf).bind fun (acts, buf) =>
    (snapshotLoop players rest buf).map (acts ++ ·)

/-- The stack buffer is written before it is read, so its first bytes are taken as zero. -/
def broadcastWorldSnapshots (players : Players) : Option (List Action) :=
  if players.size < 2 then some []
  else snapshotLoop players players.keys (List.replicate bufSize 0)

/-! ## Receive handler -/

def handleHeartbeat (now : ℚ) (peer : Peer) (players : Players) : Players × List Action :=
  (players.modify peer (fun info => { info with lastHeartbeat := now }), [])

def handleDisconnect (peer : Peer) (players : Players) : Players × List Action :=
  match players.find? peer with
  | none => (players, [])
  | some info =>
    (players.erase peer,
      broadcastPlayerDisconnect players info.netEntityId peer ++
        [.removed peer info.netEntityId, .peerDisconnect peer])

/-- Copy the fields of an accepted snapshot into the table entry. -/
def PlayerInfo.accept (pi : PlayerInfo) (snap : MsgPlayerSnapshot) : PlayerInfo :=
  { pi with
    hasSnapshot := true
    lastSequence := snap.sequence
    cellId := snap.cellId
    posX := snap.posX
    posY := snap.posY
    posZ := snap.posZ
    rotZ := snap.rotZ
    moveDirection := snap.moveDirection
    isRunning := snap.isRunning
    isSneaking := snap.isSneaking
    isWeaponOut := snap.isWeaponOut
    actionState := snap.actionState }

def handlePlayerSnapshot (peer : Peer) (data : List UInt8) (players : Players) :
    Option (Players × List Action) :=
  if data.length < msgPlayerSnapshot.size then some (players, [])
  else match players.find? peer with
    | none => some (players, [])
    | some info =>
      (readAt msgPlayerSnapshot data 0).map fun snap =>
        if snap.netEntityId ≠ info.netEntityId then (players, [])
        else (players.modify peer (fun pi => pi.accept snap), [])

def handlePlayerFire (peer : Peer) (data : List UInt8) (players : Players) :
    Option (Players × List Action) :=
  if data.length < msgEntity.size then some (players, [])
  else match players.find? peer with
    | none => some (players, [])
    | some info =>
      (readAt msgEntity data 0).map fun msg =>
        if msg.netEntityId ≠ info.netEntityId then (players, [])
        else (players, relayFire players msg.netEntityId peer)

def handleReceive (now : ℚ) (peer : Peer) (data : List UInt8) (players : Players) :
    Option (Players × List Action) :=
  if data.length < 1 then some (players, [])
  else (readAt Codec.u8 data 0).bind fun msgType =>
    match MessageType.ofCode msgType with
    | some .heartbeat => some (handleHeartbeat now peer players)
    | some .disconnect => some (handleDisconnect peer players)
    | some .playerSnapshot => handlePlayerSnapshot peer data players
    | some .playerFire => handlePlayerFire peer data players
    | _ => some (players, [])

/-! ## Timeouts -/

/-- The sweep from the iterator onwards. `erase` invalidates no other iterator, so the
keys still to visit are those the table had when the sweep began. -/
def checkTimeoutsFrom (now : ℚ) : List Peer → Players → Players × List Action
  | [], players => (players, [])
  | peer :: rest, players =>
    match players.find? peer with
    | none => checkTimeoutsFrom now rest players
    | some info =>
      if Rounding.sub now info.lastHeartbeat > heartbeatTimeout then
        let r := checkTimeoutsFrom now rest (players.erase peer)
        (r.1, broadcastPlayerDisconnect players info.netEntityId peer ++
          [.peerDisconnect peer, .removed peer info.netEntityId] ++ r.2)
      else checkTimeoutsFrom now rest players

def checkTimeouts (now : ℚ) (players : Players) : Players × List Action :=
  checkTimeoutsFrom now players.keys players

/-- The rule of the sweep: what holds when nobody is timed out, and still holds when one
more player is timed out first, holds of the sweep. -/
theorem checkTimeoutsFrom_rule (R : Players → Players × List Action → Prop)
    (hnone : ∀ players, R players (players, []))
    (hout : ∀ players p info r, players.find? p = some info → R (players.erase p) r →
      R players (r.1, broadcastPlayerDisconnect players info.netEntityId p ++
        [.peerDisconnect p, .removed p info.netEntityId] ++ r.2))
    (now : ℚ) (keys : List Peer) (players : Players) :
    R players (checkTimeoutsFrom now keys players) := by
  induction keys generalizing players with
  | nil => exact hnone players
  | cons p rest ih =>
    simp only [checkTimeoutsFrom]
    split
    · exact ih players
    · rename_i info hp
      split
      · exact hout players p info _ hp (ih (players.erase p))
      · exact ih players

/-! ## Main loop -/

structure State where
  nextEntityId : UInt32 := 1
  players : Players := ∅
  lastBroadcastTime : ℚ := 0
  broadcastAccum : ℚ := 0
  deriving DecidableEq

/-- Before the first event: an empty table and the broadcast clock just read. -/
def start (now : ℚ) : State := { lastBroadcastTime := now }

/-- The `while` loop of the broadcast step, with its number of passes as fuel. -/
def broadcastLoop (players : Players) : Nat → ℚ → Option (ℚ × List Action)
  | 0, accum => some (accum, [])
  | n + 1, accum =>
    if snapshotSendInterval ≤ accum then
      (broadcastWorldSnapshots players).bind fun acts =>
      (broadcastLoop players n (accum - snapshotSendInterval)).map fun r => (r.1, acts ++ r.2)
    else some (accum, [])

/-- The sums of the clock are exact here. The source adds up doubles, so its accumulator can fall
short of an interval that has just ended. -/
def broadcastStep (now : ℚ) (s : State) : Option (State × List Action) :=
  let accum := s.broadcastAccum + (now - s.lastBroadcastTime)
  (broadcastLoop s.players ⌊accum / snapshotSendInterval⌋₊ accum).map fun r =>
    ({ s with lastBroadcastTime := now, broadcastAccum := r.1 }, r.2)

def handleConnect (now : ℚ) (peer : Peer) (s : State) : State × List Action :=
  let id := s.nextEntityId
  let players := s.players.insert peer { netEntityId := id, lastHeartbeat := now }
  ({ s with nextEntityId := id + 1, players := players },
    .registered peer id :: sendConnectAck peer id ++ broadcastPlayerConnect players id peer)

/-- `ENET_EVENT_TYPE_DISCONNECT`: as `handleDisconnect`, with no `enet_peer_disconnect`. -/
def handlePeerGone (peer : Peer) (players : Players) : Players × List Action :=
  match players.find? peer with
  | none => (players, [])
  | some info =>
    (players.erase peer,
      broadcastPlayerDisconnect players info.netEntityId peer ++ [.removed peer info.netEntityId])

/-- What the main loop can do next, with the value the clock shows. -/
inductive Event where
  | connect (peer : Peer) (now : ℚ)
  | receive (peer : Peer) (data : List UInt8) (now : ℚ)
  | disconnect (peer : Peer)
  | checkTimeouts (now : ℚ)
  | broadcast (now : ℚ)
  deriving DecidableEq

def step (s : State) : Event → Option (State × List Action)
  | .connect peer now => some (handleConnect now peer s)
  | .receive peer data now =>
    (handleReceive now peer data s.players).map fun r => ({ s with players := r.1 }, r.2)
  | .disconnect peer =>
    let r := handlePeerGone peer s.players
    some ({ s with players := r.1 }, r.2)
  | .checkTimeouts now =>
    let r := checkTimeouts now s.players
    some ({ s with players := r.1 }, r.2)
  | .broadcast now => broadcastStep now s

abbrev run : State → List Event → Option (State × List Action) := EventRun.exec step

theorem step_receive {now : ℚ} {p : Peer} {data : List UInt8} {s s' : State}
    {acts : List Action} (hs : step s (.receive p data now) = some (s', acts)) :
    ∃ players', handleReceive now p data s.players = some (players', acts) ∧
      s' = { s with players := players' } := by
  obtain ⟨⟨players', acts'⟩, hr, heq⟩ := Option.map_eq_some_iff.mp hs
  cases heq
  exact ⟨players', hr, rfl⟩

/-- The broadcast step only reads the table, and restarts the broadcast clock. -/
theorem step_broadcast {now : ℚ} {s s' : State} {acts : List Action}
    (hs : step s (.broadcast now) = some (s', acts)) :
    ∃ n accum rest, broadcastLoop s.players n accum = some (rest, acts) ∧
      s' = { s with lastBroadcastTime := now, broadcastAccum := rest } := by
  obtain ⟨⟨rest, acts'⟩, hloop, heq⟩ := Option.map_eq_some_iff.mp hs
  cases heq
  exact ⟨_, _, rest, hloop, rfl⟩

/-- The rule of the broadcast loop: its actions are those of its passes, in a row. -/
theorem broadcastLoop_rule {players : Players} (R : List Action → Prop) (hnil : R [])
    (hpass : ∀ out acts, broadcastWorldSnapshots players = some out → R acts → R (out ++ acts))
    (n : Nat) {accum rest : ℚ} {acts : List Action}
    (hs : broadcastLoop players n accum = some (rest, acts)) : R acts := by
  induction n generalizing accum acts with
  | zero =>
    cases hs
    exact hnil
  | succ n ih =>
    simp only [broadcastLoop] at hs
    split at hs
    · simp only [Option.bind_eq_some_iff, Option.map_eq_some_iff, Prod.exists, Prod.mk.injEq] at hs
      obtain ⟨out, hout, rest', more, hmore, rfl, rfl⟩ := hs
      exact hpass out more hout (ih hmore)
    · cases hs
      exact hnil

/-- The loop leaves less than one interval behind. -/
theorem broadcastLoop_accum (players : Players) (n : Nat) (accum : ℚ) (rest : ℚ)
    (acts : List Action) (hn : accum < (n + 1) * snapshotSendInterval)
    (h : broadcastLoop players n accum = some (rest, acts)) : rest < snapshotSendInterval := by
  induction n generalizing accum acts with
  | zero =>
    simp only [broadcastLoop, Option.some.injEq, Prod.mk.injEq] at h
    rw [← h.1]
    simpa using hn
  | succ n ih =>
    simp only [broadcastLoop] at h
    split at h
    · simp only [Option.bind_eq_some_iff, Option.map_eq_some_iff, Prod.exists, Prod.mk.injEq] at h
      obtain ⟨out, -, rest', more, hr, rfl, rfl⟩ := h
      refine ih (accum - snapshotSendInterval) more ?_ hr
      push_cast at hn
      linarith
    · rename_i hlt
      cases h
      exact not_le.mp hlt

/-- The passes counted by `broadcastStep` are enough to reach the exit of the loop. -/
theorem step_broadcast_accum {now : ℚ} {s s' : State} {acts : List Action}
    (hs : step s (.broadcast now) = some (s', acts)) : s'.broadcastAccum < snapshotSendInterval := by
  obtain ⟨⟨rest, acts'⟩, hloop, heq⟩ := Option.map_eq_some_iff.mp hs
  cases heq
  refine broadcastLoop_accum s.players _ _ rest acts' ?_ hloop
  have hpos : 0 < snapshotSendInterval := by decide +kernel
  exact (div_lt_iff₀ hpos).mp (Nat.lt_floor_add_one _)

end Fnvmp.Server
