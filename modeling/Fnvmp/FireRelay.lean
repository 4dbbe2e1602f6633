import Fnvmp.Departures
import Fnvmp.Delivery
import Fnvmp.Speech
import Mathlib.Logic.Relation

/-!
# Shots on their way from player to player

Any number of clients around one server. Each connection is two channels and two queues:
what its client fired and the server has yet to handle, what the server sent and the
client has yet to poll, and the fire events that are polled but not taken. The players are
counted by their CONNECTs, so that an id given out twice does not make two players one.
-/

namespace Fnvmp.FireRelay

open PackedCodec Protocol Server Net Delivery Membership

/-- A shot: its player and how many shots of that player were sent before. -/
structure Shot where
  player : Nat
  position : Nat
  deriving DecidableEq

/-- One connection. `fired` is all its client put on the game event channel, `sent` all
the server handed to the host for it and `got` what of that has arrived; `shots` notes the
shots of others that were handled while both ends were registered. -/
structure Session where
  player : Nat
  net : NetClient := { client := true, peer := true }
  fired : List (List UInt8) := []
  handled : Nat := 0
  sent : List (Channel × List UInt8) := []
  got : List (Channel × List UInt8) := []
  taken : List UInt32 := []
  shots : List Shot := []

/-- `ids` are the ids given out, one for each CONNECT so far. -/
structure System where
  server : State
  ids : List UInt32
  sessions : Peer → Option Session

def start (now : ℚ) : System := ⟨Server.start now, [], fun _ => none⟩

def playerFire (id : UInt32) : List UInt8 := msgEntity.encode ⟨MessageType.playerFire.code, id⟩

/-- The id of a MSG_REMOTE_FIRE. -/
def fireOf (data : List UInt8) : Option UInt32 :=
  match ServerMessage.parse data with
  | some (.remoteFire id) => some id
  | _ => none

/-- What is on the game event channel towards the client. -/
def Session.inFlight (s : Session) : List (List UInt8) :=
  (on .gameEvents s.sent).drop (on .gameEvents s.got).length

/-- The shots the client has taken, those queued at it, and those still to arrive. -/
def Session.heard (s : Session) : List UInt32 :=
  s.taken ++ s.net.fireEvents ++ s.inFlight.filterMap fireOf

/-- The positions of a player's shots among those noted. -/
def positions (a : Nat) (shots : List Shot) : List Nat :=
  (shots.filter fun x => x.player = a).map Shot.position

/-- How many of the client's shots under an id the server has handled. -/
def Session.played (s : Session) (id : UInt32) : Nat :=
  (s.fired.take s.handled).count (playerFire id)

/-- What the server is about to handle, when it is a shot of a registered player. -/
def shotOf (players : Players) (p : Peer) (s : Session) (data : List UInt8) : Option Shot :=
  (idsOf players p).bind fun id =>
    if data = playerFire id then some ⟨s.player, s.played id⟩ else none

/-- The shot is noted for everybody registered but its own player. -/
def note (players : Players) (p : Peer) (shot : Option Shot) (sessions : Peer → Option Session) :
    Peer → Option Session := fun q =>
  (sessions q).map fun s =>
    if q ≠ p ∧ q ∈ players.keys then { s with shots := s.shots ++ shot.toList } else s

/-- What the server sends goes on the connection of its pointer. -/
def deliver (acts : List Action) (sessions : Peer → Option Session) : Peer → Option Session :=
  fun q => (sessions q).map fun s => { s with sent := s.sent ++ packetsTo q acts }

/-- What the server does beside CONNECT and DISCONNECT events and the packets of
`SendFireEvent`. -/
def Upkeep : Event → Prop
  | .receive _ data _ => packetType data ≠ some .playerFire
  | .checkTimeouts _ => True
  | .broadcast _ => True
  | .connect _ _ => False
  | .disconnect _ => False

/-- A CONNECT event on a pointer that is not in use. -/
def System.join (l : System) (p : Peer) (now : ℚ) : System :=
  let r := handleConnect now p l.server
  ⟨r.1, l.ids ++ [l.server.nextEntityId],
    deliver r.2 (Function.update l.sessions p (some { player := l.ids.length }))⟩

@[simp] theorem System.join_ids (l : System) (p : Peer) (now : ℚ) :
    (l.join p now).ids = l.ids ++ [l.server.nextEntityId] := rfl

@[simp] theorem System.join_server (l : System) (p : Peer) (now : ℚ) :
    (l.join p now).server = (handleConnect now p l.server).1 := rfl

@[simp] theorem System.join_sessions (l : System) (p : Peer) (now : ℚ) :
    (l.join p now).sessions = deliver (handleConnect now p l.server).2
      (Function.update l.sessions p (some { player := l.ids.length })) := rfl

/-- A client's own doing. -/
def System.put (l : System) (p : Peer) (s : Session) : System :=
  { l with sessions := Function.update l.sessions p (some s) }

/-- One step of the clients, the server or the transport. -/
inductive Step (l : System) : System → Prop where
  | connect {p : Peer} (now : ℚ) (hfree : l.sessions p = none) : Step l (l.join p now)
  | serve {e : Event} {server : State} {acts : List Action} (he : Upkeep e)
      (hstep : Server.step l.server e = some (server, acts)) :
      Step l ⟨server, l.ids, deliver acts l.sessions⟩
  | disconnect {p : Peer} {server : State} {acts : List Action}
      (hstep : Server.step l.server (.disconnect p) = some (server, acts)) :
      Step l ⟨server, l.ids, deliver acts (Function.update l.sessions p none)⟩
  | fire {p : Peer} {s : Session} (id : UInt32) (hs : l.sessions p = some s) :
      Step l (l.put p { s with fired := s.fired ++ (sendFireEvent s.net id).map Sent.data })
  | handle {p : Peer} {s : Session} {data : List UInt8} {now : ℚ} {server : State}
      {acts : List Action} (hs : l.sessions p = some s) (hdata : s.fired[s.handled]? = some data)
      (hstep : Server.step l.server (.receive p data now) = some (server, acts)) :
      Step l ⟨server, l.ids, deliver acts
        (note l.server.players p (shotOf l.server.players p s data)
          (Function.update l.sessions p (some { s with handled := s.handled + 1 })))⟩
  | poll {p : Peer} {s : Session} {dt : ℚ} {waiting : List Net.HostEvent}
      {arrivals : List (Channel × List UInt8)} {net : NetClient} {sent : List Sent}
      (hs : l.sessions p = some s) (harrive : Delivers s.sent (s.got ++ arrivals))
      (hwaiting : waiting.filterMap packet = arrivals.map Prod.snd)
      (hpoll : Net.poll s.net dt waiting = some (net, sent)) :
      Step l (l.put p { s with net := net, got := s.got ++ arrivals })
  | take {p : Peer} {s : Session} (hs : l.sessions p = some s) :
      Step l (l.put p { s with
        net := (takeFireEvents s.net).1
        taken := s.taken ++ (takeFireEvents s.net).2 })

/-- The relay of shots as one connection sees it: everything that went out is heard, is on
its way or was taken, in order; of each other player it is that player's shots, one message
for each, and they are consecutive. -/
structure Faithful (l : System) (s : Session) : Prop where
  order : s.heard.map some = s.shots.map fun x => l.ids[x.player]?
  exact : ∀ a id, l.ids[a]? = some id → s.heard.count id = (positions a s.shots).length
  block : ∀ a, ∃ i n, positions a s.shots = List.range' i n
  own : positions s.player s.shots = []
  silent : (on .gameEvents s.sent).Pairwise fun data later => ∀ id,
    ServerMessage.parse data = some (.playerDisconnect id) →
      ServerMessage.parse later ≠ some (.remoteFire id)

/-! ## What the packets say -/

theorem fireOf_entity {t : MessageType} (ht : t ≠ .disconnect ∧ t ≠ .worldSnapshot)
    (id : UInt32) :
    fireOf (msgEntity.encode ⟨t.code, id⟩) = if t = .remoteFire then some id else none := by
  rw [fireOf, ServerMessage.parse_entity t id ht]
  cases t <;> rfl

theorem fireOf_eq_some {data : List UInt8} {id : UInt32} :
    fireOf data = some id ↔ ServerMessage.parse data = some (.remoteFire id) := by
  unfold fireOf
  split
  · rename_i id' hparse
    rw [hparse]
    simp
  · rename_i hother
    simp only [reduceCtorEq, false_iff]
    exact hother id

/-- Shots go out on the game event channel, when one is handled. -/
theorem says_fireOf {players : Players} {e : Event} {channel : Channel} {data : List UInt8}
    (h : Says players e channel data) : fireOf data = none ∨ channel = .gameEvents ∧
      ∃ p bytes now, e = .receive p bytes now ∧ packetType bytes = some .playerFire := by
  cases h with
  | ack id => exact .inl (fireOf_entity (by decide) id)
  | joined id => exact .inl (fireOf_entity (by decide) id)
  | left id => exact .inl (fireOf_entity (by decide) id)
  | fire id he ht => exact .inr ⟨rfl, _, _, _, he, ht⟩
  | world hfit _ => simp [fireOf, parse_encodeWorld hfit]

theorem playerFire_injective : Function.Injective playerFire := by
  intro i j h
  have hdecode := congrArg msgEntity.decode h
  simpa [playerFire] using hdecode

theorem packetType_playerFire (id : UInt32) : packetType (playerFire id) = some .playerFire := by
  simp [playerFire, packetType, msgEntity_encode]

/-! ## The queues of the client -/

theorem handleReceive_fires {c c' : NetClient} {data : List UInt8} {sent : List Sent}
    (hs : handleReceive c data = some (c', sent)) :
    c'.client = c.client ∧ c'.fireEvents = c.fireEvents ++ (fireOf data).toList := by
  rw [handleReceive_eq] at hs
  unfold fireOf
  cases hparse : ServerMessage.parse data with
  | none =>
    rw [hparse] at hs
    cases hs
    simp
  | some msg =>
    rw [hparse] at hs
    have hs : apply c msg = (c', sent) := Option.some.inj hs
    cases msg <;> cases hs <;> simp

theorem drain_fires {waiting : List Net.HostEvent} {c c' : NetClient} {sent : List Sent}
    (hs : drain c waiting = some (c', sent)) : c'.client = c.client ∧
      c'.fireEvents = c.fireEvents ++ (waiting.filterMap packet).filterMap fireOf := by
  induction waiting generalizing c sent with
  | nil =>
    cases hs
    simp
  | cons e es ih =>
    simp only [drain, Option.bind_eq_some_iff, Option.map_eq_some_iff, Prod.exists,
      Prod.mk.injEq] at hs
    obtain ⟨mid, first, hfirst, c'', rest, hrest, rfl, rfl⟩ := hs
    obtain ⟨hclient, hfires⟩ := ih hrest
    cases e with
    | connect =>
      cases hfirst
      exact ⟨hclient, hfires⟩
    | receive data =>
      obtain ⟨hclient', hfires'⟩ := handleReceive_fires hfirst
      refine ⟨hclient.trans hclient', ?_⟩
      cases hdata : fireOf data <;> simp [packet, hfires, hfires', hdata]
    | disconnect =>
      cases hfirst
      exact ⟨hclient, hfires⟩

/-- A poll queues the shots among its packets. -/
theorem poll_fires {c c' : NetClient} {dt : ℚ} {waiting : List Net.HostEvent} {sent : List Sent}
    (hclient : c.client = true) (hs : Net.poll c dt waiting = some (c', sent)) :
    c'.client = true ∧
      c'.fireEvents = c.fireEvents ++ (waiting.filterMap packet).filterMap fireOf := by
  simp only [Net.poll, hclient, Bool.true_eq_false, if_false, Option.map_eq_some_iff,
    Prod.exists] at hs
  obtain ⟨mid, first, hdrain, hlast⟩ := hs
  obtain ⟨hclient', hfires⟩ := drain_fires hdrain
  rw [hclient] at hclient'
  split at hlast
  · split at hlast
    · cases hlast
      exact ⟨hclient', hfires⟩
    · cases hlast
      exact ⟨hclient', hfires⟩
  · cases hlast
    exact ⟨hclient', hfires⟩

/-! ## What a step puts on one connection -/

theorem filterMap_one {α β : Type} [DecidableEq α] (x : α) (y : β) {l : List α} (h : l.Nodup) :
    l.filterMap (fun z => if z = x then some y else none) = if x ∈ l then [y] else [] := by
  induction l with
  | nil => rfl
  | cons z l ih =>
    obtain ⟨hz, hl⟩ := List.nodup_cons.mp h
    by_cases hzx : z = x
    · subst hzx
      simp [ih hl, hz]
    · simp [ih hl, hzx, Ne.symm hzx]

/-- A broadcast is one packet for everybody registered but the one left out. -/
theorem packetsTo_broadcastEntity (t : MessageType) (players : Players) (id : UInt32)
    (exclude q : Peer) : packetsTo q (broadcastEntity t players id exclude) =
      if q ≠ exclude ∧ q ∈ players.keys then
        [(.gameEvents, msgEntity.encode ⟨t.code, id⟩)] else [] := by
  have hnodup := players.keys_nodup.filter (fun q => decide (q ≠ exclude))
  simp only [packetsTo, broadcastEntity, List.filterMap_map]
  refine (filterMap_one q _ hnodup).trans (if_congr ?_ rfl rfl)
  simp [and_comm]

/-- What a CONNECT sends to the newcomer, and to everybody else. -/
theorem packetsTo_connect (now : ℚ) (p q : Peer) (st : State) :
    packetsTo q (handleConnect now p st).2 =
      if q = p then [(.system, msgEntity.encode ⟨MessageType.connectAck.code, st.nextEntityId⟩)]
      else if q ∈ st.players.keys then
        [(.gameEvents, msgEntity.encode ⟨MessageType.playerConnect.code, st.nextEntityId⟩)]
      else [] := by
  have hothers := packetsTo_broadcastEntity .playerConnect (st.players.insert p (newcomer now st))
    st.nextEntityId p q
  have hsplit : packetsTo q (handleConnect now p st).2 =
      packetsTo q (sendConnectAck p st.nextEntityId) ++
        packetsTo q (broadcastEntity .playerConnect (st.players.insert p (newcomer now st))
          st.nextEntityId p) := by
    rw [← packetsTo_append]
    rfl
  rw [hsplit, hothers]
  by_cases hq : q = p
  · subst hq
    simp [packetsTo, sendConnectAck]
  · have hpq : p ≠ q := Ne.symm hq
    simp [packetsTo, sendConnectAck, hq, hpq, OrderedMap.mem_keys_insert]

/-- The handler relays a shot under the sender's own id and drops any other. -/
theorem step_playerFire {s s' : State} {p : Peer} {id : UInt32} {now : ℚ} {acts : List Action}
    (hs : Server.step s (.receive p (playerFire id) now) = some (s', acts)) :
    s' = s ∧ acts = if idsOf s.players p = some id then relayFire s.players id p else [] := by
  have htype := packetType_playerFire id
  have hdecode : (msgEntity.decode (playerFire id)).netEntityId = id := by simp [playerFire]
  obtain ⟨players', hr, rfl⟩ := step_receive hs
  cases handleReceive_cases hr with
  | refused hrefused =>
    refine ⟨rfl, (if_neg fun hid => ?_).symm⟩
    obtain ⟨info, hp, hid⟩ := Option.map_eq_some_iff.mp hid
    refine not_refused htype rfl (by simp [playerFire]) hp (fun id' hcarried => ?_) hrefused
    rw [carriedId, htype] at hcarried
    cases hcarried
    rw [hdecode, hid]
  | heartbeat ht _ => simp [htype] at ht
  | disconnect ht _ => simp [htype] at ht
  | snapshot ht _ _ _ => simp [htype] at ht
  | fire _ _ hp hid =>
    rw [hdecode] at hid
    rw [idsOf_eq_some hp, ← hid, if_pos rfl]
    exact ⟨rfl, rfl⟩

end Fnvmp.FireRelay
