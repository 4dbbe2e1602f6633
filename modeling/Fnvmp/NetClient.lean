import Fnvmp.Protocol

/-!
# The network client

The state of one `NetClient` and its operations on an open connection. Packets it
sends are returned in program order; `none` is a read past the end of a packet.
-/

namespace Fnvmp.Net

open PackedCodec Protocol

/-- `client` and `peer` say that `m_client` and `m_peer` are not null. -/
structure NetClient where
  client : Bool := false
  peer : Bool := false
  connected : Bool := false
  netEntityId : UInt32 := 0
  heartbeatAccum : ℚ := 0
  snapshotSeq : UInt16 := 0
  hasNewWorldSnapshot : Bool := false
  worldEntities : List EntityState := []
  disconnectedEntities : List UInt32 := []
  fireEvents : List UInt32 := []
  deriving DecidableEq

/-- A packet handed to the peer. -/
structure Sent where
  channel : Channel
  data : List UInt8
  flag : PacketFlag
  deriving DecidableEq, Repr

def send (c : NetClient) (data : List UInt8) (channel : Channel) (reliable : Bool) : List Sent :=
  if c.peer then [⟨channel, data, if reliable then .reliable else .unsequenced⟩] else []

def sendHeartbeat (c : NetClient) : List Sent :=
  send c (msgBare.encode ⟨MessageType.heartbeat.code⟩) .system true

/-- The `MSG_CONNECT_ACK` case: take the id, restart the heartbeat clock, answer at once. -/
def onConnectAck (c : NetClient) (ack : MsgEntity) : NetClient × List Sent :=
  let c := { c with netEntityId := ack.netEntityId, connected := true, heartbeatAccum := 0 }
  (c, sendHeartbeat c)

def handleWorldSnapshot (c : NetClient) (data : List UInt8) : Option (NetClient × List Sent) :=
  if data.length < msgWorldSnapshotHeader.size then some (c, [])
  else (readAt msgWorldSnapshotHeader data 0).bind fun hdr =>
    let expectedLen := msgWorldSnapshotHeader.size + hdr.entityCount.toNat * entityState.size
    if data.length < expectedLen then some (c, [])
    else (readManyAt entityState data msgWorldSnapshotHeader.size hdr.entityCount.toNat).map
      fun entities => ({ c with worldEntities := entities, hasNewWorldSnapshot := true }, [])

/-- The cases of a message with one id: check the length, copy the struct, act on it. -/
def handleEntity (c : NetClient) (data : List UInt8) (act : MsgEntity → NetClient × List Sent) :
    Option (NetClient × List Sent) :=
  if data.length < msgEntity.size then some (c, [])
  else (readAt msgEntity data 0).map act

def handleReceive (c : NetClient) (data : List UInt8) : Option (NetClient × List Sent) :=
  if data.length < 1 then some (c, [])
  else (readAt Codec.u8 data 0).bind fun msgType =>
    match MessageType.ofCode msgType with
    | some .connectAck => handleEntity c data (onConnectAck c)
    | some .disconnect => some ({ c with connected := false, netEntityId := 0 }, [])
    | some .worldSnapshot => handleWorldSnapshot c data
    | some .playerConnect => handleEntity c data fun _ => (c, [])
    | some .playerDisconnect => handleEntity c data fun msg =>
      ({ c with disconnectedEntities := c.disconnectedEntities ++ [msg.netEntityId] }, [])
    | some .remoteFire => handleEntity c data fun msg =>
      ({ c with fireEvents := c.fireEvents ++ [msg.netEntityId] }, [])
    | _ => some (c, [])

/-- An event of the client's host. -/
inductive HostEvent where
  | connect
  | receive (data : List UInt8)
  | disconnect
  deriving DecidableEq, Repr

def handleEvent (c : NetClient) : HostEvent → Option (NetClient × List Sent)
  | .connect => some (c, [])
  | .receive data => handleReceive c data
  | .disconnect => some ({ c with connected := false, netEntityId := 0, peer := false }, [])

/-- The service loop of `Poll` over the events that are waiting. -/
def drain : NetClient → List HostEvent → Option (NetClient × List Sent)
  | c, [] => some (c, [])
  | c, e :: es =>
    (handleEvent c e).bind fun r => (drain r.1 es).map fun r' => (r'.1, r.2 ++ r'.2)

def poll (c : NetClient) (dt : ℚ) (waiting : List HostEvent) : Option (NetClient × List Sent) :=
  if c.client = false then some (c, [])
  else (drain c waiting).map fun (c, sent) =>
    if c.connected then
      let accum := c.heartbeatAccum + dt
      if heartbeatInterval ≤ accum then
        let c := { c with heartbeatAccum := accum - heartbeatInterval }
        (c, sent ++ sendHeartbeat c)
      else ({ c with heartbeatAccum := accum }, sent)
    else (c, sent)

/-- `msgType` and `sequence` are filled in here. -/
def sendPlayerSnapshot (c : NetClient) (snapshot : MsgPlayerSnapshot) : NetClient × List Sent :=
  if c.connected then
    ({ c with snapshotSeq := c.snapshotSeq + 1 },
      send c (msgPlayerSnapshot.encode { snapshot with
        msgType := MessageType.playerSnapshot.code, sequence := c.snapshotSeq }) .unreliable false)
  else (c, [])

def sendFireEvent (c : NetClient) (netEntityId : UInt32) : List Sent :=
  if c.connected then
    send c (msgEntity.encode ⟨MessageType.playerFire.code, netEntityId⟩) .gameEvents true
  else []

def takeDisconnectEvents (c : NetClient) : NetClient × List UInt32 :=
  ({ c with disconnectedEntities := [] }, c.disconnectedEntities)

def takeFireEvents (c : NetClient) : NetClient × List UInt32 :=
  ({ c with fireEvents := [] }, c.fireEvents)

def clearWorldSnapshot (c : NetClient) : NetClient :=
  { c with hasNewWorldSnapshot := false }

/-- What a complete message does to the client. -/
def apply (c : NetClient) : ServerMessage → NetClient × List Sent
  | .connectAck id => onConnectAck c ⟨MessageType.connectAck.code, id⟩
  | .disconnect => ({ c with connected := false, netEntityId := 0 }, [])
  | .worldSnapshot entities =>
    ({ c with worldEntities := entities, hasNewWorldSnapshot := true }, [])
  | .playerConnect _ => (c, [])
  | .playerDisconnect id =>
    ({ c with disconnectedEntities := c.disconnectedEntities ++ [id] }, [])
  | .remoteFire id => ({ c with fireEvents := c.fireEvents ++ [id] }, [])

theorem handleEntity_eq (c : NetClient) (data : List UInt8)
    (act : MsgEntity → NetClient × List Sent) :
    handleEntity c data act =
      some (if msgEntity.size ≤ data.length then act (msgEntity.decode data) else (c, [])) := by
  unfold handleEntity
  by_cases h : msgEntity.size ≤ data.length
  · rw [if_neg (not_lt.mpr h), readAt_start _ h, if_pos h]
    rfl
  · rw [if_pos (not_le.mp h), if_neg h]

theorem handleWorldSnapshot_eq (c : NetClient) (data : List UInt8) :
    handleWorldSnapshot c data =
      let count := (msgWorldSnapshotHeader.decode data).entityCount.toNat
      some (if msgWorldSnapshotHeader.size + count * entityState.size ≤ data.length then
        apply c (.worldSnapshot
          (entityState.decodeMany count (data.drop msgWorldSnapshotHeader.size))) else (c, [])) := by
  simp only [handleWorldSnapshot]
  by_cases hhdr : data.length < msgWorldSnapshotHeader.size
  · rw [if_pos hhdr, if_neg (by omega)]
  · rw [if_neg hhdr, readAt_start _ (not_lt.mp hhdr), Option.bind_some]
    by_cases h : msgWorldSnapshotHeader.size +
        (msgWorldSnapshotHeader.decode data).entityCount.toNat * entityState.size ≤ data.length
    · rw [if_neg (not_lt.mpr h), readManyAt, if_pos h, Option.map_some, if_pos h]
      rfl
    · rw [if_pos (not_le.mp h), if_neg h]

/-- A packet is either a complete message, which acts as its decoded fields say, or it
changes nothing; either way nothing past its end is read. -/
theorem handleReceive_eq (c : NetClient) (data : List UInt8) :
    handleReceive c data = some (((ServerMessage.parse data).map (apply c)).getD (c, [])) := by
  cases data with
  | nil => rfl
  | cons b rest =>
    have hlen : ¬ (b :: rest).length < 1 := by simp
    rw [handleReceive, if_neg hlen, readAt_first, Option.bind_some]
    simp only [ServerMessage.parse, List.head?_cons, Option.bind_some]
    cases ht : MessageType.ofCode b with
    | none => rfl
    | some t =>
      cases t with
      | connectAck | playerConnect | playerDisconnect | remoteFire =>
        simp only [handleEntity_eq]
        split <;> rfl
      | worldSnapshot =>
        simp only [handleWorldSnapshot_eq]
        split <;> rfl
      | disconnect | heartbeat | playerSnapshot | playerFire => rfl

/-- A world snapshot packet replaces the pending entities by exactly its own. -/
theorem handleReceive_worldSnapshot (c : NetClient) (entities : List EntityState)
    (h : entities.length < 2 ^ 16) :
    handleReceive c (msgWorldSnapshotHeader.encode
        ⟨MessageType.worldSnapshot.code, UInt16.ofNat entities.length⟩ ++
          entityState.encodeMany entities) =
      some ({ c with worldEntities := entities, hasNewWorldSnapshot := true }, []) := by
  rw [handleReceive_eq, ServerMessage.parse_worldSnapshot entities h]
  rfl

end Fnvmp.Net
