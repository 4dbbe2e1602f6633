import Fnvmp.NetClient

/-!
# Receiving a packet

A packet of any bytes and length either begins with a complete message of the server or it
does not. In the first case the client does what the fields of that message say, in the
second nothing. A read at or past the end of the packet would be `none`.
-/

namespace Fnvmp.Net

open PackedCodec Protocol

/-- The packet begins with the bytes of this message; what follows them does not matter. -/
inductive Carries (data : List UInt8) : ServerMessage → Prop where
  | entity {t : MessageType} {netEntityId : UInt32} {msg : ServerMessage} (rest : List UInt8)
      (hmsg : ServerMessage.ofEntity t netEntityId = some msg)
      (hdata : data = msgEntity.encode ⟨t.code, netEntityId⟩ ++ rest) : Carries data msg
  | disconnect (rest : List UInt8)
      (hdata : data = msgBare.encode ⟨MessageType.disconnect.code⟩ ++ rest) :
      Carries data .disconnect
  | worldSnapshot {entityCount : UInt16} {entities : List EntityState} (rest : List UInt8)
      (hcount : entities.length = entityCount.toNat)
      (hdata : data = msgWorldSnapshotHeader.encode
        ⟨MessageType.worldSnapshot.code, entityCount⟩ ++ (entityState.encodeMany entities ++ rest)) :
      Carries data (.worldSnapshot entities)

/-- The first byte is that of a message from the server, and all bytes of it are there. -/
def Complete (data : List UInt8) : Prop :=
  match data.head?.bind MessageType.ofCode with
  | some .connectAck | some .playerConnect | some .playerDisconnect | some .remoteFire =>
    msgEntity.size ≤ data.length
  | some .disconnect => msgBare.size ≤ data.length
  | some .worldSnapshot => msgWorldSnapshotHeader.size ≤ data.length ∧
    msgWorldSnapshotHeader.size +
      (msgWorldSnapshotHeader.decode data).entityCount.toNat * entityState.size ≤ data.length
  | _ => False

/-- What the fields of a message prescribe: the client after it, field by field, and what is
sent. Only a ConnectAck is answered, with one heartbeat. -/
def prescribed (c : NetClient) : ServerMessage → NetClient × List Sent
  | .connectAck id =>
    ({ c with netEntityId := id, connected := true, heartbeatAccum := 0 },
      if c.peer then [⟨.system, [MessageType.heartbeat.code], .reliable⟩] else [])
  | .disconnect => ({ c with connected := false, netEntityId := 0 }, [])
  | .worldSnapshot entities =>
    ({ c with worldEntities := entities, hasNewWorldSnapshot := true }, [])
  | .playerConnect _ => (c, [])
  | .playerDisconnect id =>
    ({ c with disconnectedEntities := c.disconnectedEntities ++ [id] }, [])
  | .remoteFire id => ({ c with fireEvents := c.fireEvents ++ [id] }, [])

theorem apply_prescribed (c : NetClient) (msg : ServerMessage) : apply c msg = prescribed c msg := by
  cases msg with
  | connectAck id =>
    have hbare : msgBare.encode ⟨MessageType.heartbeat.code⟩ = [MessageType.heartbeat.code] := rfl
    simp only [apply, onConnectAck, sendHeartbeat, send, prescribed, hbare, if_true]
  | disconnect | worldSnapshot | playerConnect | playerDisconnect | remoteFire => rfl

/-- A type and an id are five bytes, the id's lowest byte first. -/
theorem entity_bytes (bs : List UInt8) (b : UInt8) (id : UInt32) :
    bs = msgEntity.encode ⟨b, id⟩ ↔ ∃ b₀ b₁ b₂ b₃ : UInt8, bs = [b, b₀, b₁, b₂, b₃] ∧
      id.toNat = b₀.toNat + 2 ^ 8 * b₁.toNat + 2 ^ 16 * b₂.toNat + 2 ^ 24 * b₃.toNat := by
  have hvalue (b₀ b₁ b₂ b₃ : UInt8) : leNat [b₀, b₁, b₂, b₃] =
      b₀.toNat + 2 ^ 8 * b₁.toNat + 2 ^ 16 * b₂.toNat + 2 ^ 24 * b₃.toNat := by
    simp only [leNat]
    omega
  rw [msgEntity_encode]
  constructor
  · rintro rfl
    refine ⟨_, _, _, _, rfl, ?_⟩
    rw [← hvalue]
    exact (Nat.mod_eq_of_lt id.toNat_lt).symm.trans (leNat_leBytes 4 id.toNat).symm
  · rintro ⟨b₀, b₁, b₂, b₃, rfl, hid⟩
    have hbytes := leBytes_leNat [b₀, b₁, b₂, b₃]
    rw [hvalue, ← hid] at hbytes
    exact congrArg (b :: ·) hbytes.symm

theorem Carries.parse {data : List UInt8} {msg : ServerMessage} (h : Carries data msg) :
    ServerMessage.parse data = some msg := by
  cases h with
  | @entity t id _ rest hmsg hdata =>
    subst hdata
    have hhead : (msgEntity.encode ⟨t.code, id⟩ ++ rest).head? = some t.code := by
      simp [msgEntity_encode]
    rw [← hmsg, ServerMessage.parse, hhead]
    cases t with
    | heartbeat | disconnect | playerSnapshot | worldSnapshot | playerFire => cases hmsg
    | connectAck | playerConnect | playerDisconnect | remoteFire => simp [ServerMessage.ofEntity]
  | disconnect rest hdata =>
    subst hdata
    rfl
  | @worldSnapshot count entities rest hcount hdata =>
    subst hdata
    have hhead : (msgWorldSnapshotHeader.encode ⟨MessageType.worldSnapshot.code, count⟩ ++
        (entityState.encodeMany entities ++ rest)).head? = some MessageType.worldSnapshot.code := by
      simp [msgWorldSnapshotHeader_encode]
    have hmany := entityState.decodeMany_encodeMany entities rest
    rw [hcount] at hmany
    rw [ServerMessage.parse, hhead]
    simp [hcount, hmany]

/-- A packet long enough for a type and an id begins with their encoding. -/
theorem entity_split {data : List UInt8} {t : MessageType} (hhead : data.head? = some t.code)
    (hlen : msgEntity.size ≤ data.length) : ∃ id rest,
      data = msgEntity.encode ⟨t.code, id⟩ ++ rest := by
  have hsplit := msgEntity.encode_decode_drop data hlen
  have hfirst : (msgEntity.decode data).msgType = t.code := by
    rw [← hsplit, msgEntity_encode] at hhead
    exact Option.some.inj hhead
  exact ⟨(msgEntity.decode data).netEntityId, data.drop msgEntity.size, by
    rw [← hfirst]
    exact hsplit.symm⟩

/-- A packet long enough for its header and the states it counts begins with their encoding. -/
theorem worldSnapshot_split {data : List UInt8} {t : MessageType} (hhead : data.head? = some t.code)
    (hlen : msgWorldSnapshotHeader.size ≤ data.length)
    (hall : msgWorldSnapshotHeader.size +
      (msgWorldSnapshotHeader.decode data).entityCount.toNat * entityState.size ≤ data.length) :
    ∃ count entities rest, entities.length = UInt16.toNat count ∧
      data = msgWorldSnapshotHeader.encode ⟨t.code, count⟩ ++
        (entityState.encodeMany entities ++ rest) := by
  have hsplit := msgWorldSnapshotHeader.encode_decode_drop data hlen
  have hheader : msgWorldSnapshotHeader.decode data =
      ⟨t.code, (msgWorldSnapshotHeader.decode data).entityCount⟩ := by
    rw [← hsplit, msgWorldSnapshotHeader_encode] at hhead
    rw [← Option.some.inj hhead]
  have hmany := entityState.encodeMany_decodeMany_drop
    (msgWorldSnapshotHeader.decode data).entityCount.toNat
    (data.drop msgWorldSnapshotHeader.size) (by rw [List.length_drop]; omega)
  rw [← hmany, hheader] at hsplit
  exact ⟨_, _, _, entityState.decodeMany_length _ _, hsplit.symm⟩

/-- A complete packet carries a message. -/
theorem Complete.carries {data : List UInt8} (h : Complete data) : ∃ msg, Carries data msg := by
  unfold Complete at h
  cases htype : data.head?.bind MessageType.ofCode with
  | none =>
    rw [htype] at h
    exact h.elim
  | some t =>
    obtain ⟨b, hb, ht⟩ := Option.bind_eq_some_iff.mp htype
    have hhead : data.head? = some t.code := by rw [hb, MessageType.code_of_ofCode ht]
    rw [htype] at h
    cases t with
    | connectAck | playerConnect | playerDisconnect | remoteFire =>
      obtain ⟨id, rest, hdata⟩ := entity_split hhead h
      exact ⟨_, .entity rest rfl hdata⟩
    | disconnect =>
      obtain ⟨rest, hdata⟩ := List.head?_eq_some_iff.mp hhead
      exact ⟨_, .disconnect rest hdata⟩
    | worldSnapshot =>
      obtain ⟨count, entities, rest, hcount, hdata⟩ := worldSnapshot_split hhead h.1 h.2
      exact ⟨_, .worldSnapshot rest hcount hdata⟩
    | heartbeat | playerSnapshot | playerFire => exact h.elim

/-- What can be parsed is complete. -/
theorem complete_of_parse {data : List UInt8} {msg : ServerMessage}
    (h : ServerMessage.parse data = some msg) : Complete data := by
  unfold Complete
  rw [ServerMessage.parse] at h
  cases htype : data.head?.bind MessageType.ofCode with
  | none =>
    rw [htype] at h
    cases h
  | some t =>
    rw [htype] at h
    cases t with
    | connectAck | playerConnect | playerDisconnect | remoteFire =>
      exact (Option.ite_none_right_eq_some.mp h).1
    | disconnect =>
      cases data with
      | nil => cases htype
      | cons b rest => simp
    | worldSnapshot =>
      have hall := (Option.ite_none_right_eq_some.mp h).1
      exact ⟨le_trans (Nat.le_add_right _ _) hall, hall⟩
    | heartbeat | playerSnapshot | playerFire => cases h

/-- A message with one id, byte by byte. -/
theorem carries_entity {t : MessageType} {id : UInt32} {msg : ServerMessage}
    (hmsg : ServerMessage.ofEntity t id = some msg) (data : List UInt8) :
    Carries data msg ↔ ∃ b₀ b₁ b₂ b₃ rest, data = t.code :: b₀ :: b₁ :: b₂ :: b₃ :: rest ∧
      id.toNat = b₀.toNat + 2 ^ 8 * b₁.toNat + 2 ^ 16 * b₂.toNat + 2 ^ 24 * b₃.toNat := by
  constructor
  · intro h
    cases h with
    | @entity t' id' _ rest hmsg' hdata =>
      have hsame : t' = t ∧ id' = id := by
        cases t <;> cases t' <;> cases hmsg <;> cases hmsg' <;> exact ⟨rfl, rfl⟩
      obtain ⟨rfl, rfl⟩ := hsame
      obtain ⟨b₀, b₁, b₂, b₃, hbytes, hid⟩ := (entity_bytes _ t'.code id').mp rfl
      exact ⟨b₀, b₁, b₂, b₃, rest, by rw [hdata, hbytes]; rfl, hid⟩
    | disconnect | worldSnapshot => cases t <;> cases hmsg
  · rintro ⟨b₀, b₁, b₂, b₃, rest, rfl, hid⟩
    refine .entity rest hmsg ?_
    rw [← (entity_bytes [t.code, b₀, b₁, b₂, b₃] t.code id).mpr ⟨b₀, b₁, b₂, b₃, rfl, hid⟩]
    rfl

/-- Every packet is read within its bounds. The client does what a complete one prescribes,
field by field, and an incomplete or foreign one changes nothing and sends nothing; ids stand
in the four bytes behind the type. -/
theorem receive_exact (c : NetClient) (data : List UInt8) :
    (Complete data ↔ ∃ msg, Carries data msg) ∧
    (∀ msg, Carries data msg → handleReceive c data = some (prescribed c msg)) ∧
    (¬ Complete data → handleReceive c data = some (c, [])) ∧
    ∀ t id msg, ServerMessage.ofEntity t id = some msg →
      (Carries data msg ↔ ∃ b₀ b₁ b₂ b₃ rest, data = t.code :: b₀ :: b₁ :: b₂ :: b₃ :: rest ∧
        id.toNat = b₀.toNat + 2 ^ 8 * b₁.toNat + 2 ^ 16 * b₂.toNat + 2 ^ 24 * b₃.toNat) := by
  refine ⟨⟨Complete.carries, fun ⟨_, h⟩ => complete_of_parse h.parse⟩, fun msg h => ?_,
    fun h => ?_, fun t id msg hmsg => carries_entity hmsg data⟩
  · rw [handleReceive_eq, h.parse, ← apply_prescribed]
    rfl
  · rw [handleReceive_eq]
    cases hparse : ServerMessage.parse data with
    | none => rfl
    | some msg => exact absurd (complete_of_parse hparse) h

end Fnvmp.Net
