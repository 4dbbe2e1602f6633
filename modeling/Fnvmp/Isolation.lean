import Fnvmp.Server

/-!
# A packet acts for its own player only

Whatever bytes a peer sends, the receive handler stays inside the packet, touches no
other player's entry, speaks to others in the name of that peer alone, and drops
every packet that is not a complete message under the peer's own id.
-/

namespace Fnvmp.Server

open PackedCodec Protocol

/-- The struct behind each label of the server's `switch`; `none` falls to `default`. -/
def structSize : MessageType → Option Nat
  | .heartbeat => some msgBare.size
  | .disconnect => some msgBare.size
  | .playerSnapshot => some msgPlayerSnapshot.size
  | .playerFire => some msgEntity.size
  | _ => none

def packetType (data : List UInt8) : Option MessageType := data.head?.bind MessageType.ofCode

/-- The id a packet claims to speak for, where its struct has such a field. -/
def carriedId (data : List UInt8) : Option UInt32 :=
  match packetType data with
  | some .playerSnapshot => some (msgPlayerSnapshot.decode data).netEntityId
  | some .playerFire => some (msgEntity.decode data).netEntityId
  | _ => none

/-- The ways a packet fails to be a message of a registered player. -/
inductive Refused (players : Players) (peer : Peer) (data : List UInt8) : Prop where
  | unregistered (h : players.find? peer = none)
  | empty (h : data = [])
  | unknown (h : (packetType data).bind structSize = none)
  | short (n : Nat) (h : (packetType data).bind structSize = some n) (hlt : data.length < n)
  | foreign (info : PlayerInfo) (id : UInt32) (h : players.find? peer = some info)
      (hid : carriedId data = some id) (hne : id ≠ info.netEntityId)

/-- What is wrong with a refused packet whose type the server knows. -/
theorem Refused.of_type {players : Players} {peer : Peer} {data : List UInt8} {t : MessageType}
    {n : Nat} (ht : packetType data = some t) (hn : structSize t = some n)
    (h : Refused players peer data) :
    players.find? peer = none ∨ data.length < n ∨
      ∃ info id, players.find? peer = some info ∧ carriedId data = some id ∧
        id ≠ info.netEntityId := by
  cases h with
  | unregistered h => exact .inl h
  | empty h => simp [h, packetType] at ht
  | unknown h => simp [ht, hn] at h
  | short m h hlt =>
    simp only [ht, Option.bind_some, hn, Option.some.injEq] at h
    exact .inr (.inl (h ▸ hlt))
  | foreign info id h hid hne => exact .inr (.inr ⟨info, id, h, hid, hne⟩)

theorem not_refused {players : Players} {peer : Peer} {data : List UInt8} {t : MessageType}
    {n : Nat} {info : PlayerInfo} (ht : packetType data = some t) (hn : structSize t = some n)
    (hlen : n ≤ data.length) (hp : players.find? peer = some info)
    (hid : ∀ id, carriedId data = some id → id = info.netEntityId) :
    ¬ Refused players peer data := by
  intro h
  rcases h.of_type ht hn with hnone | hshort | ⟨info', id, hp', hcarried, hne⟩
  · rw [hp] at hnone
    cases hnone
  · exact absurd hlen (not_le.mpr hshort)
  · rw [hp] at hp'
    cases hp'
    exact hne (hid id hcarried)

/-- A packet that has a type has a first byte. -/
theorem one_le_length {data : List UInt8} {t : MessageType} (ht : packetType data = some t) :
    1 ≤ data.length := by
  cases data with
  | nil => cases ht
  | cons b rest => simp

/-- Everything the handler can do with a packet. -/
inductive Handled (now : ℚ) (players : Players) (peer : Peer) (data : List UInt8) :
    Players → List Action → Prop where
  | refused (h : Refused players peer data) : Handled now players peer data players []
  | heartbeat {info : PlayerInfo} (ht : packetType data = some .heartbeat)
      (hp : players.find? peer = some info) :
      Handled now players peer data (handleHeartbeat now peer players).1 []
  | disconnect {info : PlayerInfo} (ht : packetType data = some .disconnect)
      (hp : players.find? peer = some info) :
      Handled now players peer data (players.erase peer)
        (broadcastPlayerDisconnect players info.netEntityId peer ++
          [.removed peer info.netEntityId, .peerDisconnect peer])
  | snapshot {info : PlayerInfo} (ht : packetType data = some .playerSnapshot)
      (hlen : msgPlayerSnapshot.size ≤ data.length) (hp : players.find? peer = some info)
      (hid : (msgPlayerSnapshot.decode data).netEntityId = info.netEntityId) :
      Handled now players peer data
        (players.modify peer (fun pi => pi.accept (msgPlayerSnapshot.decode data))) []
  | fire {info : PlayerInfo} (ht : packetType data = some .playerFire)
      (hlen : msgEntity.size ≤ data.length) (hp : players.find? peer = some info)
      (hid : (msgEntity.decode data).netEntityId = info.netEntityId) :
      Handled now players peer data players (relayFire players info.netEntityId peer)

theorem handlePlayerSnapshot_handled (now : ℚ) (players : Players) (peer : Peer)
    {data : List UInt8} (ht : packetType data = some .playerSnapshot) :
    ∃ players' acts, handlePlayerSnapshot peer data players = some (players', acts) ∧
      Handled now players peer data players' acts := by
  unfold handlePlayerSnapshot
  split
  · rename_i hlt
    exact ⟨players, [], rfl, .refused (.short _ (by rw [ht]; rfl) hlt)⟩
  · rename_i hlen
    split
    · rename_i hp
      exact ⟨players, [], rfl, .refused (.unregistered hp)⟩
    · rename_i info hp
      rw [readAt_start _ (not_lt.mp hlen), Option.map_some]
      split
      · rename_i hid
        exact ⟨players, [], rfl, .refused (.foreign info _ hp (by rw [carriedId, ht]) hid)⟩
      · rename_i hid
        exact ⟨_, [], rfl, .snapshot ht (not_lt.mp hlen) hp (not_not.mp hid)⟩

theorem handlePlayerFire_handled (now : ℚ) (players : Players) (peer : Peer)
    {data : List UInt8} (ht : packetType data = some .playerFire) :
    ∃ players' acts, handlePlayerFire peer data players = some (players', acts) ∧
      Handled now players peer data players' acts := by
  unfold handlePlayerFire
  split
  · rename_i hlt
    exact ⟨players, [], rfl, .refused (.short _ (by rw [ht]; rfl) hlt)⟩
  · rename_i hlen
    split
    · rename_i hp
      exact ⟨players, [], rfl, .refused (.unregistered hp)⟩
    · rename_i info hp
      rw [readAt_start _ (not_lt.mp hlen), Option.map_some]
      split
      · rename_i hid
        exact ⟨players, [], rfl, .refused (.foreign info _ hp (by rw [carriedId, ht]) hid)⟩
      · rename_i hid
        have heq : (msgEntity.decode data).netEntityId = info.netEntityId := not_not.mp hid
        rw [heq]
        exact ⟨players, _, rfl, .fire ht (not_lt.mp hlen) hp heq⟩

/-- The handler reads inside the packet, and does one of the things it can do. -/
theorem handleReceive_handled (now : ℚ) (players : Players) (peer : Peer) (data : List UInt8) :
    ∃ players' acts, handleReceive now peer data players = some (players', acts) ∧
      Handled now players peer data players' acts := by
  cases data with
  | nil => exact ⟨players, [], rfl, .refused (.empty rfl)⟩
  | cons b rest =>
    have hlen : ¬ (b :: rest).length < 1 := by simp
    rw [handleReceive, if_neg hlen, readAt_first, Option.bind_some]
    cases ht : MessageType.ofCode b with
    | none => exact ⟨players, [], rfl, .refused (.unknown (by simp [packetType, ht]))⟩
    | some t =>
      have htype : packetType (b :: rest) = some t := ht
      cases t with
      | heartbeat =>
        cases hp : players.find? peer with
        | none =>
          refine ⟨players, [], ?_, .refused (.unregistered hp)⟩
          simp only [handleHeartbeat, players.modify_absent peer _ hp]
        | some info => exact ⟨_, [], rfl, .heartbeat htype hp⟩
      | disconnect =>
        cases hp : players.find? peer with
        | none => exact ⟨players, [], by simp [handleDisconnect, hp], .refused (.unregistered hp)⟩
        | some info => exact ⟨_, _, by simp [handleDisconnect, hp], .disconnect htype hp⟩
      | playerSnapshot => exact handlePlayerSnapshot_handled now players peer htype
      | playerFire => exact handlePlayerFire_handled now players peer htype
      | connectAck | worldSnapshot | playerConnect | playerDisconnect | remoteFire =>
        exact ⟨players, [], rfl, .refused (.unknown (by rw [htype]; rfl))⟩

theorem handleReceive_cases {now : ℚ} {peer : Peer} {data : List UInt8}
    {players players' : Players} {acts : List Action}
    (hs : handleReceive now peer data players = some (players', acts)) :
    Handled now players peer data players' acts := by
  obtain ⟨players'', acts', hs', h⟩ := handleReceive_handled now players peer data
  cases hs.symm.trans hs'
  exact h

theorem mem_broadcastEntity {t : MessageType} {players : Players} {id : UInt32}
    {exclude q : Peer} {ch : Channel} {data : List UInt8} {flag : PacketFlag}
    (h : .send q ch data flag ∈ broadcastEntity t players id exclude) :
    q ≠ exclude ∧ data = msgEntity.encode ⟨t.code, id⟩ := by
  simp only [broadcastEntity, List.mem_map, List.mem_filter, decide_eq_true_eq,
    Action.send.injEq] at h
  obtain ⟨r, ⟨-, hr⟩, rfl, -, rfl, -⟩ := h
  exact ⟨hr, rfl⟩

section Effects

variable {now : ℚ} {players players' : Players} {peer : Peer} {data : List UInt8}
  {acts : List Action}

/-- No entry but the sender's is touched. -/
theorem Handled.frame (h : Handled now players peer data players' acts) {q : Peer}
    (hq : q ≠ peer) : players'.find? q = players.find? q := by
  cases h with
  | refused _ => rfl
  | heartbeat _ _ => simp [handleHeartbeat, OrderedMap.find?_modify, hq]
  | disconnect _ _ => simp [OrderedMap.find?_erase, hq]
  | snapshot _ _ _ _ => simp [OrderedMap.find?_modify, hq]
  | fire _ _ _ _ => rfl

/-- Whatever is sent goes to others and bears the sender's own id. -/
theorem Handled.ownName (h : Handled now players peer data players' acts) {q : Peer}
    {ch : Channel} {bytes : List UInt8} {flag : PacketFlag} (hmem : .send q ch bytes flag ∈ acts) :
    q ≠ peer ∧ ∃ info t, players.find? peer = some info ∧
      bytes = msgEntity.encode ⟨MessageType.code t, info.netEntityId⟩ := by
  cases h with
  | refused _ => cases hmem
  | heartbeat _ _ => cases hmem
  | disconnect ht hp =>
    rename_i info
    have hsend : .send q ch bytes flag ∈
        broadcastPlayerDisconnect players info.netEntityId peer := by
      simpa using hmem
    obtain ⟨hne, hbytes⟩ := mem_broadcastEntity hsend
    exact ⟨hne, info, _, hp, hbytes⟩
  | snapshot _ _ _ _ => cases hmem
  | fire _ _ hp _ =>
    obtain ⟨hne, hbytes⟩ := mem_broadcastEntity hmem
    exact ⟨hne, _, _, hp, hbytes⟩

/-- A refused packet does nothing. -/
theorem Handled.unchanged (h : Handled now players peer data players' acts)
    (hrefused : Refused players peer data) : players' = players ∧ acts = [] := by
  cases h with
  | refused _ => exact ⟨rfl, rfl⟩
  | heartbeat ht hp =>
    exact absurd hrefused (not_refused ht rfl (one_le_length ht) hp (by simp [carriedId, ht]))
  | disconnect ht hp =>
    exact absurd hrefused (not_refused ht rfl (one_le_length ht) hp (by simp [carriedId, ht]))
  | snapshot ht hlen hp hid =>
    exact absurd hrefused (not_refused ht rfl hlen hp (by simp [carriedId, ht, hid]))
  | fire ht hlen hp hid =>
    exact absurd hrefused (not_refused ht rfl hlen hp (by simp [carriedId, ht, hid]))

end Effects

/-- For every table, peer and byte string: the handler reads inside the packet, leaves
every other entry alone, sends only to others and only under the sender's own id, and
ignores every packet that is refused. -/
theorem handleReceive_isolated (now : ℚ) (players : Players) (peer : Peer) (data : List UInt8) :
    ∃ players' acts, handleReceive now peer data players = some (players', acts) ∧
      (∀ q, q ≠ peer → players'.find? q = players.find? q) ∧
      (∀ q ch bytes flag, .send q ch bytes flag ∈ acts → q ≠ peer ∧
        ∃ info t, players.find? peer = some info ∧
          bytes = msgEntity.encode ⟨MessageType.code t, info.netEntityId⟩) ∧
      (Refused players peer data → players' = players ∧ acts = []) := by
  obtain ⟨players', acts, hs, h⟩ := handleReceive_handled now players peer data
  exact ⟨players', acts, hs, fun q hq => h.frame hq, fun q ch bytes flag hmem => h.ownName hmem,
    h.unchanged⟩

end Fnvmp.Server
