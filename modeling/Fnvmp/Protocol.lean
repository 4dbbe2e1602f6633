import Fnvmp.PackedCodec
import Mathlib.Algebra.Order.Ring.Rat
import Mathlib.Tactic.NormNum

/-!
# The wire protocol shared by client and server

Message codes, the packed structs with their byte formats, and the timing
constants. A float on the wire is its 32-bit pattern: neither end looks inside
it before the interpolation buffer.
-/

namespace Fnvmp.Protocol

open PackedCodec

/-- The bit pattern of a 32-bit float. -/
abbrev FloatBits := UInt32

instance uint32LinearOrder : LinearOrder UInt32 where
  le_refl a := Nat.le_refl a.toNat
  le_trans a b c h h' := Nat.le_trans (m := b.toNat) h h'
  lt_iff_le_not_ge a b := Nat.lt_iff_le_and_not_ge (m := a.toNat) (n := b.toNat)
  le_antisymm a b h h' := UInt32.toNat_inj.mp (Nat.le_antisymm h h')
  le_total a b := Nat.le_total a.toNat b.toNat
  toDecidableLE := inferInstance

inductive MessageType where
  | connectAck | heartbeat | disconnect | playerSnapshot | worldSnapshot
  | playerConnect | playerDisconnect | playerFire | remoteFire
  deriving DecidableEq, Repr

def MessageType.code : MessageType → UInt8
  | .connectAck => 1
  | .heartbeat => 2
  | .disconnect => 3
  | .playerSnapshot => 4
  | .worldSnapshot => 5
  | .playerConnect => 6
  | .playerDisconnect => 7
  | .playerFire => 8
  | .remoteFire => 9

/-- The `switch` over the first byte; `none` is its `default` label. -/
def MessageType.ofCode (b : UInt8) : Option MessageType :=
  if b = 1 then some .connectAck
  else if b = 2 then some .heartbeat
  else if b = 3 then some .disconnect
  else if b = 4 then some .playerSnapshot
  else if b = 5 then some .worldSnapshot
  else if b = 6 then some .playerConnect
  else if b = 7 then some .playerDisconnect
  else if b = 8 then some .playerFire
  else if b = 9 then some .remoteFire
  else none

@[simp] theorem MessageType.ofCode_code (t : MessageType) : ofCode t.code = some t := by
  cases t <;> rfl

theorem MessageType.code_of_ofCode {b : UInt8} {t : MessageType} (h : ofCode b = some t) :
    b = t.code := by
  unfold ofCode at h
  repeat' split at h
  all_goals cases h
  all_goals assumption

inductive MoveDirection where
  | none | forward | backward | left | right | forwardLeft | forwardRight
  | backwardLeft | backwardRight | turnLeft | turnRight
  deriving DecidableEq, Repr

def MoveDirection.code : MoveDirection → UInt8
  | .none => 0
  | .forward => 1
  | .backward => 2
  | .left => 3
  | .right => 4
  | .forwardLeft => 5
  | .forwardRight => 6
  | .backwardLeft => 7
  | .backwardRight => 8
  | .turnLeft => 9
  | .turnRight => 10

def MoveDirection.ofCode (b : UInt8) : Option MoveDirection :=
  if b = 0 then some .none
  else if b = 1 then some .forward
  else if b = 2 then some .backward
  else if b = 3 then some .left
  else if b = 4 then some .right
  else if b = 5 then some .forwardLeft
  else if b = 6 then some .forwardRight
  else if b = 7 then some .backwardLeft
  else if b = 8 then some .backwardRight
  else if b = 9 then some .turnLeft
  else if b = 10 then some .turnRight
  else Option.none

@[simp] theorem MoveDirection.ofCode_code (d : MoveDirection) :
    MoveDirection.ofCode d.code = some d := by
  cases d <;> rfl

/-- Bits of the `actionState` byte. -/
def actionReloading : UInt8 := 2
def actionAimingIS : UInt8 := 4

/-- ENet channel assignments. -/
inductive Channel where
  | unreliable | gameEvents | system
  deriving DecidableEq, Repr

/-- `ENET_PACKET_FLAG_RELIABLE` and `ENET_PACKET_FLAG_UNSEQUENCED`. -/
inductive PacketFlag where
  | reliable | unsequenced
  deriving DecidableEq, Repr

/-- `MsgHeartbeat` and `MsgDisconnect`: nothing but the message type. -/
structure MsgBare where
  msgType : UInt8
  deriving DecidableEq, Repr

/-- `MsgConnectAck`, `MsgPlayerConnect`, `MsgPlayerDisconnect`, `MsgPlayerFire` and
`MsgRemoteFire`: a message type and one entity id. -/
structure MsgEntity where
  msgType : UInt8
  netEntityId : UInt32
  deriving DecidableEq, Repr

structure MsgPlayerSnapshot where
  msgType : UInt8
  sequence : UInt16
  netEntityId : UInt32
  cellId : UInt32
  posX : FloatBits
  posY : FloatBits
  posZ : FloatBits
  rotZ : FloatBits
  moveDirection : UInt8
  isRunning : UInt8
  isSneaking : UInt8
  isWeaponOut : UInt8
  actionState : UInt8
  deriving DecidableEq, Repr

/-- The packet of a player that stands still at the origin of a cell. -/
def MsgPlayerSnapshot.still (sequence : UInt16) (netEntityId cellId : UInt32) :
    MsgPlayerSnapshot :=
  ⟨MessageType.playerSnapshot.code, sequence, netEntityId, cellId, 0, 0, 0, 0, 0, 0, 0, 0, 0⟩

/-- Per-entity state inside a world snapshot. -/
structure EntityState where
  netEntityId : UInt32
  cellId : UInt32
  posX : FloatBits
  posY : FloatBits
  posZ : FloatBits
  rotZ : FloatBits
  moveDirection : UInt8
  isRunning : UInt8
  isSneaking : UInt8
  isWeaponOut : UInt8
  actionState : UInt8
  deriving DecidableEq, Repr

structure MsgWorldSnapshotHeader where
  msgType : UInt8
  entityCount : UInt16
  deriving DecidableEq, Repr

open Codec in
def msgBare : Codec MsgBare :=
  u8.iso MsgBare.mk MsgBare.msgType (fun _ => rfl) (fun _ => rfl)

open Codec in
def msgEntity : Codec MsgEntity :=
  (u8.pair u32).iso (fun p => ⟨p.1, p.2⟩) (fun m => (m.msgType, m.netEntityId))
    (fun _ => rfl) (fun _ => rfl)

open Codec in
def msgPlayerSnapshot : Codec MsgPlayerSnapshot :=
  (u8.pair <| u16.pair <| u32.pair <| u32.pair <| u32.pair <| u32.pair <| u32.pair <| u32.pair <|
    u8.pair <| u8.pair <| u8.pair <| u8.pair u8).iso
    (fun (t, seq, id, cell, x, y, z, r, dir, run, sneak, weapon, action) =>
      ⟨t, seq, id, cell, x, y, z, r, dir, run, sneak, weapon, action⟩)
    (fun m => (m.msgType, m.sequence, m.netEntityId, m.cellId, m.posX, m.posY, m.posZ, m.rotZ,
      m.moveDirection, m.isRunning, m.isSneaking, m.isWeaponOut, m.actionState))
    (fun _ => rfl) (fun _ => rfl)

open Codec in
def entityState : Codec EntityState :=
  (u32.pair <| u32.pair <| u32.pair <| u32.pair <| u32.pair <| u32.pair <|
    u8.pair <| u8.pair <| u8.pair <| u8.pair u8).iso
    (fun (id, cell, x, y, z, r, dir, run, sneak, weapon, action) =>
      ⟨id, cell, x, y, z, r, dir, run, sneak, weapon, action⟩)
    (fun e => (e.netEntityId, e.cellId, e.posX, e.posY, e.posZ, e.rotZ,
      e.moveDirection, e.isRunning, e.isSneaking, e.isWeaponOut, e.actionState))
    (fun _ => rfl) (fun _ => rfl)

open Codec in
def msgWorldSnapshotHeader : Codec MsgWorldSnapshotHeader :=
  (u8.pair u16).iso (fun p => ⟨p.1, p.2⟩) (fun h => (h.msgType, h.entityCount))
    (fun _ => rfl) (fun _ => rfl)

/-- `sizeof` of the packed structs. -/
@[simp] theorem msgBare_size : msgBare.size = 1 := rfl
@[simp] theorem msgEntity_size : msgEntity.size = 5 := rfl
@[simp] theorem msgPlayerSnapshot_size : msgPlayerSnapshot.size = 32 := rfl
@[simp] theorem entityState_size : entityState.size = 29 := rfl
@[simp] theorem msgWorldSnapshotHeader_size : msgWorldSnapshotHeader.size = 3 := rfl

/-- The first byte of an encoded message is its type. -/
theorem msgEntity_encode (m : MsgEntity) :
    msgEntity.encode m = m.msgType :: Codec.u32.encode m.netEntityId := by
  have h : Codec.u8.encode m.msgType = [m.msgType] := by
    simp [Codec.u8, Codec.word, leBytes]
  change Codec.u8.encode m.msgType ++ Codec.u32.encode m.netEntityId = _
  rw [h]
  rfl

theorem msgWorldSnapshotHeader_encode (h : MsgWorldSnapshotHeader) :
    msgWorldSnapshotHeader.encode h = h.msgType :: Codec.u16.encode h.entityCount := by
  have ht : Codec.u8.encode h.msgType = [h.msgType] := by
    simp [Codec.u8, Codec.word, leBytes]
  change Codec.u8.encode h.msgType ++ Codec.u16.encode h.entityCount = _
  rw [ht]
  rfl

/-- A complete message of a server-to-client type, with its decoded fields. -/
inductive ServerMessage where
  | connectAck (netEntityId : UInt32)
  | disconnect
  | worldSnapshot (entities : List EntityState)
  | playerConnect (netEntityId : UInt32)
  | playerDisconnect (netEntityId : UInt32)
  | remoteFire (netEntityId : UInt32)
  deriving DecidableEq, Repr

/-- The format: a type byte, at least the bytes of its struct, and for a world
snapshot as many entity states as the header counts. -/
def ServerMessage.parse (data : List UInt8) : Option ServerMessage :=
  let entity (f : UInt32 → ServerMessage) : Option ServerMessage :=
    if msgEntity.size ≤ data.length then some (f (msgEntity.decode data).netEntityId) else none
  match data.head?.bind MessageType.ofCode with
  | some .connectAck => entity .connectAck
  | some .disconnect => some .disconnect
  | some .worldSnapshot =>
    let count := (msgWorldSnapshotHeader.decode data).entityCount.toNat
    if msgWorldSnapshotHeader.size + count * entityState.size ≤ data.length then
      some (.worldSnapshot (entityState.decodeMany count (data.drop msgWorldSnapshotHeader.size)))
    else none
  | some .playerConnect => entity .playerConnect
  | some .playerDisconnect => entity .playerDisconnect
  | some .remoteFire => entity .remoteFire
  | _ => none

/-- What a receiver reads in a message made of a type and one id. -/
def ServerMessage.ofEntity (t : MessageType) (netEntityId : UInt32) : Option ServerMessage :=
  match t with
  | .connectAck => some (.connectAck netEntityId)
  | .playerConnect => some (.playerConnect netEntityId)
  | .playerDisconnect => some (.playerDisconnect netEntityId)
  | .remoteFire => some (.remoteFire netEntityId)
  | _ => none

theorem ServerMessage.parse_entity (t : MessageType) (netEntityId : UInt32)
    (h : t ≠ .disconnect ∧ t ≠ .worldSnapshot) :
    parse (msgEntity.encode ⟨t.code, netEntityId⟩) = ofEntity t netEntityId := by
  have hlen : (msgEntity.encode ⟨t.code, netEntityId⟩).length = 5 := by simp
  have hhead : (msgEntity.encode ⟨t.code, netEntityId⟩).head? = some t.code := by
    simp [msgEntity_encode]
  unfold parse
  rw [hhead]
  cases t <;> simp_all [ofEntity]

theorem ServerMessage.parse_worldSnapshot (entities : List EntityState)
    (h : entities.length < 2 ^ 16) :
    parse (msgWorldSnapshotHeader.encode
      ⟨MessageType.worldSnapshot.code, UInt16.ofNat entities.length⟩ ++
        entityState.encodeMany entities) = some (.worldSnapshot entities) := by
  have hcount : (UInt16.ofNat entities.length).toNat = entities.length := by
    simpa using Nat.mod_eq_of_lt h
  have hhead : (msgWorldSnapshotHeader.encode
      ⟨MessageType.worldSnapshot.code, UInt16.ofNat entities.length⟩ ++
        entityState.encodeMany entities).head? = some MessageType.worldSnapshot.code := by
    rw [msgWorldSnapshotHeader_encode]
    rfl
  have hdrop : (msgWorldSnapshotHeader.encode
      ⟨MessageType.worldSnapshot.code, UInt16.ofNat entities.length⟩ ++
        entityState.encodeMany entities).drop msgWorldSnapshotHeader.size =
      entityState.encodeMany entities := by
    rw [List.drop_append_of_le_length (by simp)]
    simp
  have hmany := entityState.decodeMany_encodeMany entities []
  rw [List.append_nil] at hmany
  unfold parse
  rw [hhead, hdrop]
  simp [hcount, hmany]

def heartbeatInterval : ℚ := 2
def heartbeatTimeout : ℚ := 10

def maxPlayers : Nat := 8

def snapshotSendRate : ℚ := 30
def snapshotSendInterval : ℚ := 1 / snapshotSendRate

end Fnvmp.Protocol
