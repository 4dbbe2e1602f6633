import Fnvmp.Reception
import Fnvmp.SnapshotPacket
import Fnvmp.Isolation

/-!
# The language of the wire

What either end accepts is exactly the encodings of its messages with anything behind
them, so no bytes can be read as two messages. Both receive handlers do what the message they
read is for, and nothing without one.
-/

namespace Fnvmp.Protocol

open PackedCodec

/-! ## Messages of the server -/

def ServerMessage.type : ServerMessage → MessageType
  | .connectAck _ => .connectAck
  | .disconnect => .disconnect
  | .worldSnapshot _ => .worldSnapshot
  | .playerConnect _ => .playerConnect
  | .playerDisconnect _ => .playerDisconnect
  | .remoteFire _ => .remoteFire

def ServerMessage.encode (m : ServerMessage) : List UInt8 :=
  match m with
  | .connectAck id | .playerConnect id | .playerDisconnect id | .remoteFire id =>
    msgEntity.encode ⟨m.type.code, id⟩
  | .disconnect => msgBare.encode ⟨m.type.code⟩
  | .worldSnapshot entities =>
    msgWorldSnapshotHeader.encode ⟨m.type.code, UInt16.ofNat entities.length⟩ ++
      entityState.encodeMany entities

/-- The entity count has sixteen bits. -/
def ServerMessage.Fits : ServerMessage → Prop
  | .worldSnapshot entities => entities.length < 2 ^ 16
  | _ => True

theorem msgBare_encode (m : MsgBare) : msgBare.encode m = [m.msgType] := by
  change Codec.u8.encode m.msgType = _
  simp [Codec.u8, Codec.word, leBytes]

theorem msgPlayerSnapshot_encode (m : MsgPlayerSnapshot) :
    ∃ rest, msgPlayerSnapshot.encode m = m.msgType :: rest := by
  change ∃ rest, Codec.u8.encode m.msgType ++ _ = m.msgType :: rest
  have h : Codec.u8.encode m.msgType = [m.msgType] := by
    simp [Codec.u8, Codec.word, leBytes]
  rw [h]
  exact ⟨_, rfl⟩

/-- The first byte of every message is its type. -/
theorem ServerMessage.encode_head (m : ServerMessage) : ∃ rest, m.encode = m.type.code :: rest := by
  cases m with
  | connectAck id | playerConnect id | playerDisconnect id | remoteFire id =>
    exact ⟨_, msgEntity_encode _⟩
  | disconnect => exact ⟨_, msgBare_encode _⟩
  | worldSnapshot entities =>
    exact ⟨Codec.u16.encode _ ++ entityState.encodeMany entities, by
      rw [ServerMessage.encode, msgWorldSnapshotHeader_encode]
      rfl⟩

theorem packed_entity {t : MessageType} {id : UInt32} {data : List UInt8}
    (h : data.head? = some t.code) :
    msgEntity.size ≤ data.length ∧ (msgEntity.decode data).netEntityId = id ↔
      msgEntity.encode ⟨t.code, id⟩ <+: data := by
  rw [← Codec.decode_iff]
  refine and_congr_right fun hlen => ⟨fun hid => ?_, fun hdecode => by rw [hdecode]⟩
  have htype : (msgEntity.decode data).msgType = t.code := by
    obtain ⟨rest, hrest⟩ := (Codec.decode_iff msgEntity data _).mp ⟨hlen, rfl⟩
    rw [msgEntity_encode] at hrest
    rw [← hrest] at h
    exact Option.some.inj h
  rw [← htype, ← hid]

theorem packed_world {entities : List EntityState} {data : List UInt8}
    (h : data.head? = some MessageType.worldSnapshot.code) :
    msgWorldSnapshotHeader.size + (msgWorldSnapshotHeader.decode data).entityCount.toNat *
          entityState.size ≤ data.length ∧
        entityState.decodeMany (msgWorldSnapshotHeader.decode data).entityCount.toNat
          (data.drop msgWorldSnapshotHeader.size) = entities ↔
      entities.length < 2 ^ 16 ∧
        msgWorldSnapshotHeader.encode
            ⟨MessageType.worldSnapshot.code, UInt16.ofNat entities.length⟩ ++
          entityState.encodeMany entities <+: data := by
  constructor
  · rintro ⟨hlen, rfl⟩
    have hcount := UInt16.toNat_lt (msgWorldSnapshotHeader.decode data).entityCount
    have hheader := msgWorldSnapshotHeader.encode_decode_drop data (by omega)
    have hmany := entityState.encodeMany_decodeMany_drop
      (msgWorldSnapshotHeader.decode data).entityCount.toNat
      (data.drop msgWorldSnapshotHeader.size) (by rw [List.length_drop]; omega)
    have htype : (msgWorldSnapshotHeader.decode data).msgType = MessageType.worldSnapshot.code := by
      rw [← hheader, msgWorldSnapshotHeader_encode] at h
      exact Option.some.inj h
    refine ⟨by rwa [Codec.decodeMany_length],
      (data.drop msgWorldSnapshotHeader.size).drop
        ((msgWorldSnapshotHeader.decode data).entityCount.toNat * entityState.size), ?_⟩
    rw [Codec.decodeMany_length, UInt16.ofNat_toNat, ← htype, List.append_assoc, hmany]
    exact hheader
  · rintro ⟨hfits, rest, rfl⟩
    have hcount : (UInt16.ofNat entities.length).toNat = entities.length := by
      simpa using Nat.mod_eq_of_lt hfits
    have hdrop : (msgWorldSnapshotHeader.encode
        ⟨MessageType.worldSnapshot.code, UInt16.ofNat entities.length⟩ ++
          entityState.encodeMany entities ++ rest).drop msgWorldSnapshotHeader.size =
        entityState.encodeMany entities ++ rest := by
      rw [List.append_assoc, List.drop_append_of_le_length (by simp)]
      simp
    rw [hdrop]
    simp only [List.append_assoc, Codec.decode_encode, hcount, Codec.decodeMany_encodeMany,
      and_true, List.length_append, Codec.encode_length, Codec.encodeMany_length]
    omega

/-- The client accepts the encodings of the server's messages, with anything behind, and
nothing else. -/
theorem ServerMessage.parse_iff (data : List UInt8) (m : ServerMessage) :
    parse data = some m ↔ m.Fits ∧ m.encode <+: data := by
  cases data with
  | nil =>
    obtain ⟨rest, hrest⟩ := m.encode_head
    simp [parse, hrest]
  | cons b rest =>
    by_cases htype : MessageType.ofCode b = some m.type
    swap
    · -- another type byte
      refine iff_of_false (fun h => ?_) fun h => ?_
      · unfold parse at h
        simp only [List.head?_cons, Option.bind_some] at h
        split at h <;> first
          | (split at h <;> cases h; rename_i ht _; exact htype ht)
          | (cases h; rename_i ht; exact htype ht)
          | cases h
      · obtain ⟨-, hprefix⟩ := h
        obtain ⟨more, hmore⟩ := m.encode_head
        rw [hmore, List.cons_prefix_cons] at hprefix
        rw [← hprefix.1, MessageType.ofCode_code] at htype
        exact htype rfl
    have hb := MessageType.code_of_ofCode htype
    have hhead : (b :: rest).head? = some m.type.code := by rw [hb]; rfl
    have hentity : ∀ (t : MessageType) (id : UInt32), m.type = t →
        (msgEntity.size ≤ (b :: rest).length ∧ (msgEntity.decode (b :: rest)).netEntityId = id ↔
          msgEntity.encode ⟨t.code, id⟩ <+: b :: rest) :=
      fun t id ht => packed_entity (ht ▸ hhead)
    unfold parse
    simp only [List.head?_cons, Option.bind_some, htype]
    cases m with
    | connectAck id | playerConnect id | playerDisconnect id | remoteFire id =>
      simp only [type, Option.ite_none_right_eq_some, Option.some.injEq, connectAck.injEq,
        playerConnect.injEq, playerDisconnect.injEq, remoteFire.injEq]
      exact (hentity _ id rfl).trans (and_iff_right trivial).symm
    | disconnect =>
      simp only [type, Fits, encode, true_and, msgBare_encode, List.cons_prefix_cons]
      simp only [List.nil_prefix, and_true, true_iff]
      exact hb.symm
    | worldSnapshot entities =>
      simp only [type, Option.ite_none_right_eq_some, Option.some.injEq, worldSnapshot.injEq]
      exact packed_world (hb ▸ rfl)

/-! ## Messages of a client -/

/-- A complete message of a client-to-server type. -/
inductive ClientMessage where
  | heartbeat
  | disconnect
  | playerSnapshot (snapshot : MsgPlayerSnapshot)
  | playerFire (netEntityId : UInt32)
  deriving DecidableEq, Repr

def ClientMessage.type : ClientMessage → MessageType
  | .heartbeat => .heartbeat
  | .disconnect => .disconnect
  | .playerSnapshot _ => .playerSnapshot
  | .playerFire _ => .playerFire

def ClientMessage.encode (m : ClientMessage) : List UInt8 :=
  match m with
  | .heartbeat | .disconnect => msgBare.encode ⟨m.type.code⟩
  | .playerSnapshot snapshot => msgPlayerSnapshot.encode snapshot
  | .playerFire id => msgEntity.encode ⟨m.type.code, id⟩

/-- A snapshot carries its own type. -/
def ClientMessage.Fits : ClientMessage → Prop
  | .playerSnapshot snapshot => snapshot.msgType = MessageType.playerSnapshot.code
  | _ => True

/-- The cases of the server's `switch` that check a length, and those that do not. -/
def ClientMessage.parse (data : List UInt8) : Option ClientMessage :=
  match data.head?.bind MessageType.ofCode with
  | some .heartbeat => some .heartbeat
  | some .disconnect => some .disconnect
  | some .playerSnapshot =>
    if msgPlayerSnapshot.size ≤ data.length then some (.playerSnapshot (msgPlayerSnapshot.decode data))
    else none
  | some .playerFire =>
    if msgEntity.size ≤ data.length then some (.playerFire (msgEntity.decode data).netEntityId)
    else none
  | _ => none

theorem packed_snapshot {snapshot : MsgPlayerSnapshot} {data : List UInt8}
    (h : data.head? = some MessageType.playerSnapshot.code) :
    msgPlayerSnapshot.size ≤ data.length ∧ msgPlayerSnapshot.decode data = snapshot ↔
      snapshot.msgType = MessageType.playerSnapshot.code ∧
        msgPlayerSnapshot.encode snapshot <+: data := by
  rw [Codec.decode_iff]
  refine ⟨fun hprefix => ⟨?_, hprefix⟩, And.right⟩
  obtain ⟨more, hmore⟩ := msgPlayerSnapshot_encode snapshot
  obtain ⟨rest, rfl⟩ := hprefix
  rw [hmore] at h
  exact Option.some.inj h

theorem ClientMessage.encode_head (m : ClientMessage) (hfits : m.Fits) :
    ∃ rest, m.encode = m.type.code :: rest := by
  cases m with
  | heartbeat | disconnect => exact ⟨_, msgBare_encode _⟩
  | playerSnapshot snapshot =>
    obtain ⟨rest, hrest⟩ := msgPlayerSnapshot_encode snapshot
    exact ⟨rest, hrest.trans (by rw [show snapshot.msgType = _ from hfits]; rfl)⟩
  | playerFire id => exact ⟨_, msgEntity_encode _⟩

/-- The server accepts the encodings of a client's messages, with anything behind, and
nothing else. -/
theorem ClientMessage.parse_iff (data : List UInt8) (m : ClientMessage) :
    parse data = some m ↔ m.Fits ∧ m.encode <+: data := by
  cases data with
  | nil =>
    refine iff_of_false nofun fun ⟨hfits, hprefix⟩ => ?_
    obtain ⟨rest, hrest⟩ := m.encode_head hfits
    rw [hrest] at hprefix
    cases List.prefix_nil.mp hprefix
  | cons b rest =>
    by_cases htype : MessageType.ofCode b = some m.type
    swap
    · -- another type byte
      refine iff_of_false (fun h => ?_) fun ⟨hfits, hprefix⟩ => ?_
      · unfold parse at h
        simp only [List.head?_cons, Option.bind_some] at h
        split at h <;> first
          | (split at h <;> cases h; rename_i ht _; exact htype ht)
          | (cases h; rename_i ht; exact htype ht)
          | cases h
      · obtain ⟨more, hmore⟩ := m.encode_head hfits
        rw [hmore, List.cons_prefix_cons] at hprefix
        rw [← hprefix.1, MessageType.ofCode_code] at htype
        exact htype rfl
    have hb := MessageType.code_of_ofCode htype
    unfold parse
    simp only [List.head?_cons, Option.bind_some, htype]
    cases m with
    | heartbeat | disconnect =>
      simp only [type, Fits, encode, true_and, msgBare_encode, List.cons_prefix_cons]
      simp only [List.nil_prefix, and_true, true_iff]
      exact hb.symm
    | playerSnapshot snapshot =>
      simp only [type, Option.ite_none_right_eq_some, Option.some.injEq, playerSnapshot.injEq]
      exact packed_snapshot (hb ▸ rfl)
    | playerFire id =>
      simp only [type, Option.ite_none_right_eq_some, Option.some.injEq, playerFire.injEq]
      exact (packed_entity (hb ▸ rfl)).trans (and_iff_right trivial).symm

theorem ServerMessage.parse_type {data : List UInt8} {m : ServerMessage} (h : parse data = some m) :
    data.head? = some m.type.code := by
  obtain ⟨rest, hrest⟩ := m.encode_head
  obtain ⟨more, rfl⟩ := ((parse_iff data m).mp h).2
  rw [hrest]
  rfl

theorem ClientMessage.parse_type {data : List UInt8} {m : ClientMessage} (h : parse data = some m) :
    data.head? = some m.type.code := by
  obtain ⟨hfits, more, rfl⟩ := (parse_iff data m).mp h
  obtain ⟨rest, hrest⟩ := m.encode_head hfits
  rw [hrest]
  rfl

theorem MessageType.code_injective : Function.Injective MessageType.code := by
  intro t t' h
  have hcode := congrArg MessageType.ofCode h
  simpa using hcode

/-- No bytes are a message in both directions but a MSG_DISCONNECT. -/
theorem parse_both {data : List UInt8} {m : ServerMessage} {m' : ClientMessage}
    (hm : ServerMessage.parse data = some m) (hm' : ClientMessage.parse data = some m') :
    m = .disconnect ∧ m' = .disconnect := by
  have htype : m.type = m'.type := MessageType.code_injective
    (Option.some.inj ((ServerMessage.parse_type hm).symm.trans (ClientMessage.parse_type hm')))
  cases m <;> cases m' <;> first | exact ⟨rfl, rfl⟩ | cases htype

end Fnvmp.Protocol

/-! ## The action of a message -/

namespace Fnvmp.Server

open PackedCodec Protocol

/-- What a complete message of a client does at the server. -/
def act (now : ℚ) (peer : Peer) (players : Players) : ClientMessage → Players × List Action
  | .heartbeat => handleHeartbeat now peer players
  | .disconnect => handleDisconnect peer players
  | .playerSnapshot snapshot =>
    match players.find? peer with
    | none => (players, [])
    | some info =>
      if snapshot.netEntityId ≠ info.netEntityId then (players, [])
      else (players.modify peer fun pi => pi.accept snapshot, [])
  | .playerFire id =>
    match players.find? peer with
    | none => (players, [])
    | some info =>
      if id ≠ info.netEntityId then (players, []) else (players, relayFire players id peer)

/-- The receive handler acts as the message it reads says, if there is one. -/
theorem handleReceive_acts (now : ℚ) (peer : Peer) (data : List UInt8) (players : Players) :
    handleReceive now peer data players =
      some (((ClientMessage.parse data).map (act now peer players)).getD (players, [])) := by
  cases data with
  | nil => rfl
  | cons b rest =>
    have hlen : ¬ (b :: rest).length < 1 := by simp
    rw [handleReceive, if_neg hlen, readAt_first, Option.bind_some]
    simp only [ClientMessage.parse, List.head?_cons, Option.bind_some]
    cases ht : MessageType.ofCode b with
    | none => rfl
    | some t =>
      cases t with
      | heartbeat | disconnect => rfl
      | playerSnapshot =>
        simp only [handlePlayerSnapshot]
        by_cases hsize : msgPlayerSnapshot.size ≤ (b :: rest).length
        · rw [if_neg hsize.not_gt, if_pos hsize, Option.map_some, Option.getD_some, act]
          cases players.find? peer with
          | none => rfl
          | some info =>
            simp only [readAt_start _ hsize, Option.map_some]
        · rw [if_pos (not_le.mp hsize), if_neg hsize]
          rfl
      | playerFire =>
        simp only [handlePlayerFire]
        by_cases hsize : msgEntity.size ≤ (b :: rest).length
        · rw [if_neg hsize.not_gt, if_pos hsize, Option.map_some, Option.getD_some, act]
          cases players.find? peer with
          | none => rfl
          | some info =>
            simp only [readAt_start _ hsize, Option.map_some]
        · rw [if_pos (not_le.mp hsize), if_neg hsize]
          rfl
      | connectAck | worldSnapshot | playerConnect | playerDisconnect | remoteFire => rfl

/-- A reliable packet with this message to every player of the table but `peer`. -/
def toOthers (players : Players) (peer : Peer) (m : ServerMessage) : List Action :=
  (players.keys.filter fun q => q ≠ peer).map fun q => .send q .gameEvents m.encode .reliable

/-- What a message of `peer` is for: a heartbeat restarts the clock of its entry, a goodbye
takes the entry out, tells the others and closes the connection, and a snapshot or a shot
counts only under the player's own id. A peer without an entry has no effect, and no other
entry ever changes. -/
def Effect (now : ℚ) (peer : Peer) (players players' : Players) (acts : List Action)
    (m : ClientMessage) : Prop :=
  (∀ q, q ≠ peer → players'.find? q = players.find? q) ∧
    match players.find? peer, m with
    | none, _ => players'.find? peer = none ∧ acts = []
    | some info, .heartbeat =>
      players'.find? peer = some { info with lastHeartbeat := now } ∧ acts = []
    | some info, .disconnect =>
      players'.find? peer = none ∧
        acts = toOthers players peer (.playerDisconnect info.netEntityId) ++
          [.removed peer info.netEntityId, .peerDisconnect peer]
    | some info, .playerSnapshot snap =>
      acts = [] ∧ players'.find? peer = some (
        if snap.netEntityId = info.netEntityId then
          { netEntityId := info.netEntityId
            lastHeartbeat := info.lastHeartbeat
            hasSnapshot := true
            lastSequence := snap.sequence
            cellId := snap.cellId
            posX := snap.posX
            posY := snap.posY
            posZ := snap.posZ
            rotZ := snap.rotZ
            moveDirection := snap.moveDirection
            isRunning := snap.isRunning
            isSneaking := snap.isSneaking
            isWeaponOut := snap.isWeaponOut
            actionState := snap.actionState }
        else info)
    | some info, .playerFire id =>
      players'.find? peer = some info ∧
        acts = if id = info.netEntityId then toOthers players peer (.remoteFire id) else []

/-- The handlers do what the messages are for. -/
theorem act_effect (now : ℚ) (peer : Peer) (players : Players) (m : ClientMessage) :
    Effect now peer players (act now peer players m).1 (act now peer players m).2 m := by
  have hsame : ∀ f : PlayerInfo → PlayerInfo, ∀ q, q ≠ peer →
      (players.modify peer f).find? q = players.find? q := fun f q hq => by
    rw [OrderedMap.find?_modify, if_neg hq]
  have hself : ∀ f : PlayerInfo → PlayerInfo,
      (players.modify peer f).find? peer = (players.find? peer).map f := fun f => by
    rw [OrderedMap.find?_modify, if_pos rfl]
  cases hp : players.find? peer with
  | none =>
    cases m with
    | heartbeat =>
      simp only [Effect, act, handleHeartbeat, hp, hself, Option.map_none, and_true]
      exact hsame _
    | disconnect | playerSnapshot | playerFire => simp [Effect, act, handleDisconnect, hp]
  | some info =>
    cases m with
    | heartbeat =>
      simp only [Effect, act, handleHeartbeat, hp, hself, Option.map_some, and_true]
      exact hsame _
    | disconnect =>
      simp only [Effect, act, handleDisconnect, hp, OrderedMap.find?_erase_self, true_and]
      refine ⟨fun q hq => ?_, rfl⟩
      rw [OrderedMap.find?_erase, if_neg hq]
    | playerSnapshot snap =>
      by_cases hid : snap.netEntityId = info.netEntityId
      · simp only [Effect, act, hp, hid, ne_eq, not_true_eq_false, if_false, if_true, hself]
        exact ⟨hsame _, trivial, rfl⟩
      · simp [Effect, act, hp, hid]
    | playerFire id =>
      by_cases hid : id = info.netEntityId
      · simp only [Effect, act, hp, hid, ne_eq, not_true_eq_false, if_false, if_true]
        exact ⟨fun _ _ => trivial, trivial, rfl⟩
      · simp [Effect, act, hp, hid]

/-- A packet does what the one message that stands at its front is for; without one it does
nothing. -/
theorem handleReceive_exact (now : ℚ) (peer : Peer) (data : List UInt8) (players : Players) :
    ∃ players' acts, handleReceive now peer data players = some (players', acts) ∧
      ((∃ m : ClientMessage, m.Fits ∧ m.encode <+: data ∧
          Effect now peer players players' acts m) ∨
        (∀ m : ClientMessage, m.Fits → ¬m.encode <+: data) ∧
          players' = players ∧ acts = []) := by
  rw [handleReceive_acts]
  cases hparse : ClientMessage.parse data with
  | none =>
    refine ⟨players, [], rfl, .inr ⟨fun m hfits hprefix => ?_, rfl, rfl⟩⟩
    rw [(ClientMessage.parse_iff data m).mpr ⟨hfits, hprefix⟩] at hparse
    cases hparse
  | some m =>
    obtain ⟨hfits, hprefix⟩ := (ClientMessage.parse_iff data m).mp hparse
    exact ⟨_, _, rfl, .inl ⟨m, hfits, hprefix, act_effect now peer players m⟩⟩

end Fnvmp.Server

/-! ## Both ends -/

namespace Fnvmp.Protocol

/-- Each end acts on the encodings of the other end's messages with anything behind them, as
the message prescribes, and on nothing else; only a MSG_DISCONNECT reads the same both ways. -/
theorem wire_language (data : List UInt8) :
    (∀ m, ServerMessage.parse data = some m ↔ m.Fits ∧ m.encode <+: data) ∧
      (∀ m, ClientMessage.parse data = some m ↔ m.Fits ∧ m.encode <+: data) ∧
      (∀ c, Net.handleReceive c data =
        some (((ServerMessage.parse data).map (Net.prescribed c)).getD (c, []))) ∧
      (∀ now peer players, ∃ players' acts,
        Server.handleReceive now peer data players = some (players', acts) ∧
          ((ClientMessage.parse data).elim (players' = players ∧ acts = [])
            (Server.Effect now peer players players' acts))) ∧
      ∀ m m', ServerMessage.parse data = some m → ClientMessage.parse data = some m' →
        m = .disconnect ∧ m' = .disconnect := by
  refine ⟨ServerMessage.parse_iff data, ClientMessage.parse_iff data, fun c => ?_,
    fun now peer players => ?_, fun m m' hm hm' => parse_both hm hm'⟩
  · rw [Net.handleReceive_eq, show Net.apply c = Net.prescribed c from
      funext (Net.apply_prescribed c)]
  · rw [Server.handleReceive_acts]
    cases ClientMessage.parse data with
    | none => exact ⟨players, [], rfl, rfl, rfl⟩
    | some m => exact ⟨_, _, rfl, Server.act_effect now peer players m⟩

end Fnvmp.Protocol
