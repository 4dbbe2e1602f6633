import Fnvmp.FireOrder

/-!
# Shots in every run

With at most 2 ^ 32 CONNECTs no id is given out twice, and every connection hears each
shot once and in order. The next CONNECT starts over with the id of the first player.
-/

namespace Fnvmp.FireRelay

open PackedCodec Protocol Server Net Delivery

variable {l : System} {p : Peer} {id : UInt32}

theorem run_sound {now : ℚ} (hrun : Relation.ReflTransGen Step (start now) l)
    (hids : l.ids.length ≤ 2 ^ 32) : Sound l := by
  induction hrun with
  | refl => exact sound_start now
  | tail _ hs ih =>
    have hbefore := ih (hs.ids.length_le.trans hids)
    exact hbefore.step (hbefore.nodup (hs.ids.length_le.trans hids)) hs

/-- In every run with at most 2 ^ 32 CONNECTs the relay is faithful on every connection. -/
theorem shots_relayed (now : ℚ) (l : System) (hrun : Relation.ReflTransGen Step (start now) l)
    (hids : l.ids.length ≤ 2 ^ 32) : ∀ b s, l.sessions b = some s → Faithful l s := by
  have hsound := run_sound hrun hids
  exact fun b s hs => hsound.faithful (hsound.nodup hids) hs

/-- A client that has polled its ConnectAck. -/
def greeted (id : UInt32) : NetClient :=
  { client := true, peer := true, connected := true, netEntityId := id }

theorem poll_connectAck (id : UInt32) :
    ∃ sent, Net.poll { client := true, peer := true } 0
      [.receive (msgEntity.encode ⟨MessageType.connectAck.code, id⟩)] =
        some (greeted id, sent) := by
  have hinterval : ¬ heartbeatInterval ≤ 0 := by decide +kernel
  have hparse := ServerMessage.parse_entity .connectAck id (by decide)
  refine ⟨sendHeartbeat (greeted id), ?_⟩
  simp [Net.poll, drain, handleEvent, handleReceive_eq, hparse, ServerMessage.ofEntity, apply,
    onConnectAck, hinterval, greeted]

/-- A player joins, polls its ConnectAck, fires once, and the server handles it. -/
theorem joins_and_fires (hfree : l.sessions p = none) (hid : l.server.nextEntityId = id) :
    ∃ l', Relation.ReflTransGen Step l l' ∧ l'.ids = l.ids ++ [id] ∧
      ∀ q s, q ≠ p → q ∈ l.server.players.keys → l.sessions q = some s →
        l'.sessions q = some { s with
          sent := s.sent ++
            [(.gameEvents, msgEntity.encode ⟨MessageType.playerConnect.code, id⟩),
             (.gameEvents, msgEntity.encode ⟨MessageType.remoteFire.code, id⟩)]
          shots := s.shots ++ [⟨l.ids.length, 0⟩] } := by
  have hjoin := Relation.ReflTransGen.single (Step.connect 0 hfree)
  have hack : packetsTo p (handleConnect 0 p l.server).2 =
      [(.system, msgEntity.encode ⟨MessageType.connectAck.code, id⟩)] := by
    rw [packetsTo_connect, if_pos rfl, hid]
  have hfresh : deliver (handleConnect 0 p l.server).2
      (Function.update l.sessions p (some { player := l.ids.length })) p =
        some { player := l.ids.length,
               sent := [(.system, msgEntity.encode ⟨MessageType.connectAck.code, id⟩)] } := by
    simp [deliver, hack]
  obtain ⟨sent, hpolled⟩ := poll_connectAck id
  have harrive : Delivers [(.system, msgEntity.encode ⟨MessageType.connectAck.code, id⟩)]
      ([] ++ [(.system, msgEntity.encode ⟨MessageType.connectAck.code, id⟩)]) :=
    ⟨fun _ _ => List.prefix_refl _, List.Subperm.refl _⟩
  have hpoll := hjoin.tail (Step.poll hfresh harrive rfl hpolled)
  have hfire := hpoll.tail (Step.fire id (Function.update_self _ _ _))
  obtain ⟨players, acts, hreceive, -⟩ := handleReceive_handled 0
    (handleConnect 0 p l.server).1.players p (playerFire id)
  have hstep : Server.step (handleConnect 0 p l.server).1 (.receive p (playerFire id) 0) =
      some ({ (handleConnect 0 p l.server).1 with players := players }, acts) :=
    Option.map_eq_some_iff.mpr ⟨_, hreceive, rfl⟩
  obtain ⟨hserver, hacts⟩ := step_playerFire hstep
  have hseat : idsOf (handleConnect 0 p l.server).1.players p = some id := by
    rw [handleConnect_players, idsOf_insert, Function.update_self, ← hid]
    rfl
  rw [if_pos hseat] at hacts
  rw [hserver, hacts] at hstep
  have hfired : ([] ++ (sendFireEvent (greeted id) id).map Sent.data)[0]? =
      some (playerFire id) := rfl
  have hhandle := hfire.tail (Step.handle (Function.update_self _ _ _) hfired hstep)
  refine ⟨_, hhandle, by rw [← hid]; rfl, fun q s hne hq hs => ?_⟩
  have hkeys : q ∈ (handleConnect 0 p l.server).1.players.keys := by
    rw [handleConnect_players, OrderedMap.mem_keys_insert]
    exact .inr hq
  have hheard := packetsTo_broadcastEntity .remoteFire (handleConnect 0 p l.server).1.players id p q
  rw [if_pos ⟨hne, hkeys⟩] at hheard
  have hannounced := packetsTo_connect 0 p q l.server
  rw [if_neg hne, if_pos hq, hid] at hannounced
  simp [deliver, note, System.put, hne, hs, hkeys, hannounced, relayFire, hheard, shotOf_playerFire,
    hseat, Session.played]

/-- The server after `n` more CONNECTs than that of pointer 1, the only one registered. -/
def alone (n : Nat) : State :=
  { nextEntityId := UInt32.ofNat (n + 2)
    players := (∅ : Players).insert 1 { netEntityId := 1, lastHeartbeat := 0 } }

/-- Pointer 1 stays, and another one comes and goes `n` times. -/
theorem counted_up (n : Nat) : ∃ l, Relation.ReflTransGen Step (start 0) l ∧ l.server = alone n ∧
    l.sessions 2 = none ∧ l.sessions 3 = none ∧ l.ids.length = n + 1 ∧ l.ids[0]? = some 1 := by
  induction n with
  | zero =>
    exact ⟨_, .single (.connect (p := 1) 0 rfl), rfl, rfl, rfl, rfl, rfl⟩
  | succ n ih =>
    obtain ⟨l, hrun, hserver, hfree, hother, hlength, hfirst⟩ := ih
    have hconnect := hrun.tail (.connect 0 hfree)
    have hleave := hconnect.tail (.disconnect (p := 2) rfl)
    refine ⟨_, hleave, ?_, ?_, ?_, ?_, ?_⟩
    · rw [System.join_server, hserver]
      change State.mk (UInt32.ofNat (n + 2) + 1) _ _ _ = State.mk _ _ _ _
      rw [UInt32.ofNat_add (n + 2) 1]
      rfl
    · simp [deliver]
    · simp [deliver, hother]
    · simp [hlength]
    · exact getElem?_extend (List.prefix_append _ _) hfirst

/-- A connection on which one newcomer was announced and has fired since. -/
def hearing (player : Nat) (acked id : UInt32) (shot : Shot) : Session :=
  { player := player
    sent := [(.system, msgEntity.encode ⟨MessageType.connectAck.code, acked⟩),
      (.gameEvents, msgEntity.encode ⟨MessageType.playerConnect.code, id⟩),
      (.gameEvents, msgEntity.encode ⟨MessageType.remoteFire.code, id⟩)]
    shots := [shot] }

theorem hearing_heard (player : Nat) (acked id : UInt32) (shot : Shot) :
    (hearing player acked id shot).heard = [id] := by
  simp [hearing, Session.heard, Session.inFlight, on, fireOf_entity]

/-- Pointer `p` joins, and then `q` joins and fires. -/
theorem joins_and_hears {p q : Peer} (hne : p ≠ q) (hp : l.sessions p = none)
    (hq : l.sessions q = none) {acked : UInt32} (hacked : l.server.nextEntityId = acked)
    (hid : acked + 1 = id) : ∃ l', Relation.ReflTransGen Step l l' ∧
      l'.ids = l.ids ++ [acked, id] ∧
      l'.sessions p = some (hearing l.ids.length acked id ⟨l.ids.length + 1, 0⟩) := by
  have hnext : (l.join p 0).server.nextEntityId = id := by
    rw [← hid, ← hacked]
    rfl
  have hfree : (l.join p 0).sessions q = none := by
    simp [deliver, Ne.symm hne, hq]
  obtain ⟨l', hrun, hids, hsessions⟩ := joins_and_fires hfree hnext
  refine ⟨l', .head (.connect 0 hp) hrun, by simpa [hacked] using hids, ?_⟩
  have hkeys : p ∈ (handleConnect 0 p l.server).1.players.keys := by
    rw [handleConnect_players, OrderedMap.mem_keys_insert]
    exact .inl rfl
  have hpackets := packetsTo_connect 0 p p l.server
  rw [if_pos rfl, hacked] at hpackets
  refine (hsessions p _ hne hkeys (by simp [deliver, hpackets]; rfl)).trans ?_
  simp [hearing]

/-- The id of a player that is still there is given out a second time, and a third player
hears a shot under it that the first one never fired. -/
theorem shot_under_reused_id : ∃ l s, Relation.ReflTransGen Step (start 0) l ∧
    l.sessions 3 = some s ∧ l.ids[0]? = some 1 ∧ s.heard = [1] ∧ positions 0 s.shots = [] ∧
      ¬ Faithful l s := by
  obtain ⟨l, hrun, hserver, hfree, hother, hlength, hfirst⟩ := counted_up (2 ^ 32 - 2)
  have hnext : l.server.nextEntityId = 0 := by
    rw [hserver]
    rfl
  have hid : (0 : UInt32) + 1 = 1 := rfl
  obtain ⟨l', hrun', hids, hs⟩ := joins_and_hears (by decide) hother hfree hnext hid
  have hfirst' : l'.ids[0]? = some 1 := by
    rw [hids]
    exact getElem?_extend (List.prefix_append _ _) hfirst
  have hnone : positions 0 (hearing l.ids.length 0 1 ⟨l.ids.length + 1, 0⟩).shots = [] := rfl
  refine ⟨l', _, hrun.trans hrun', hs, hfirst', hearing_heard _ _ _ _, hnone, fun hfaithful => ?_⟩
  have hexact := hfaithful.exact 0 1 hfirst'
  rw [hearing_heard, hnone] at hexact
  cases hexact

/-- Pointer 1 hears the shot of pointer 2. -/
theorem shots_relayed_two : ∃ l s, Relation.ReflTransGen Step (start 0) l ∧
    l.sessions 1 = some s ∧ s.heard = [2] ∧ Faithful l s := by
  obtain ⟨l, hrun, hids, hs⟩ := joins_and_hears (l := start 0) (p := 1) (q := 2) (by decide)
    rfl rfl rfl rfl
  have hfew : l.ids.length ≤ 2 ^ 32 := by
    rw [hids]
    decide
  exact ⟨l, _, hrun, hs, hearing_heard _ _ _ _, shots_relayed 0 l hrun hfew 1 _ hs⟩

end Fnvmp.FireRelay
