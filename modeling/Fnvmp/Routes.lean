import Fnvmp.Lifecycle
import Fnvmp.MessageFormat
import Fnvmp.SendRate
import Fnvmp.Transport

/-!
# The route of a message

Both ends put a message on the channel of its type, with the packet flag of that channel,
and none is too large for one command of the transport.
-/

namespace Fnvmp.Protocol

open PackedCodec

/-- The number `enet_peer_send` is given for a channel, and `NUM_CHANNELS`. -/
def Channel.code : Channel → ℕ
  | .unreliable => 0
  | .gameEvents => 1
  | .system => 2

def numChannels : ℕ := 3

theorem Channel.code_lt (channel : Channel) : channel.code < numChannels := by
  cases channel <;> decide

theorem Channel.code_injective : Function.Injective Channel.code := by
  intro a b h
  cases a <;> cases b <;> first | rfl | cases h

def MessageType.channel : MessageType → Channel
  | .playerSnapshot | .worldSnapshot => .unreliable
  | .playerConnect | .playerDisconnect | .playerFire | .remoteFire => .gameEvents
  | .connectAck | .heartbeat | .disconnect => .system

def Channel.flag : Channel → PacketFlag
  | .unreliable => .unsequenced
  | .gameEvents | .system => .reliable

/-- `ENET_PROTOCOL_MINIMUM_MTU`, and the length from which `enet_peer_send` splits a packet:
less than the MTU by the two headers. -/
def minimumMtu : ℕ := 576
def fragmentLength (mtu : ℕ) : ℕ := mtu - 4 - 24

/-- A packet as either end hands it to the host. -/
structure Routed (t : MessageType) (data : List UInt8) (channel : Channel) (flag : PacketFlag) :
    Prop where
  channel : channel = t.channel
  flag : flag = t.channel.flag
  whole : data.length ≤ fragmentLength minimumMtu

end Fnvmp.Protocol

/-! ## The server -/

namespace Fnvmp.Server

open PackedCodec Protocol

/-- What the server can tell a peer while it takes an event. -/
inductive Tells (s : State) : Event → Peer → ServerMessage → Prop where
  | ack {p : Peer} {now : ℚ} : Tells s (.connect p now) p (.connectAck s.nextEntityId)
  | joined {p q : Peer} {now : ℚ} (hne : q ≠ p) :
      Tells s (.connect p now) q (.playerConnect s.nextEntityId)
  | left {e : Event} {p q : Peer} {info : PlayerInfo} (hp : s.players.find? p = some info)
      (hne : q ≠ p) : Tells s e q (.playerDisconnect info.netEntityId)
  | fire {p q : Peer} {data : List UInt8} {now : ℚ} {info : PlayerInfo}
      (hp : s.players.find? p = some info) (hne : q ≠ p) :
      Tells s (.receive p data now) q (.remoteFire info.netEntityId)
  | world {now : ℚ} {q : Peer} (hfit : (visible s.players.entries q).length ≤ maxPlayers) :
      Tells s (.broadcast now) q (.worldSnapshot (visible s.players.entries q))

/-- An action that sends nothing, or one of these on its route. -/
def Puts (s : State) (e : Event) (act : Action) : Prop :=
  ∀ q channel data flag, act = .send q channel data flag → ∃ m : ServerMessage,
    Tells s e q m ∧ m.Fits ∧ data = m.encode ∧ Routed m.type data channel flag

theorem puts_of_quiet {s : State} {e : Event} {act : Action}
    (h : ∀ q channel data flag, act ≠ .send q channel data flag) : Puts s e act :=
  fun q channel data flag heq => absurd heq (h q channel data flag)

theorem routed_entity {t : MessageType} {id : UInt32} {channel : Channel} {flag : PacketFlag}
    (hchannel : channel = t.channel) (hflag : flag = t.channel.flag) :
    Routed t (msgEntity.encode ⟨t.code, id⟩) channel flag :=
  ⟨hchannel, hflag, by rw [Codec.encode_length]; decide⟩

theorem puts_broadcastEntity {s : State} {e : Event} {t : MessageType} {id : UInt32}
    {exclude : Peer} (m : ServerMessage) (htype : m.type = t) (hfits : m.Fits)
    (hencode : m.encode = msgEntity.encode ⟨t.code, id⟩) (hchannel : t.channel = .gameEvents)
    (htells : ∀ q, q ≠ exclude → Tells s e q m) (table : Players) :
    ∀ act ∈ broadcastEntity t table id exclude, Puts s e act := by
  rintro act hact q channel data flag rfl
  obtain ⟨r, hr, heq⟩ := List.mem_map.mp hact
  obtain ⟨-, hne⟩ := List.mem_filter.mp hr
  cases heq
  refine ⟨m, htells q (by simpa using hne), hfits, hencode.symm, ?_⟩
  rw [htype]
  exact routed_entity hchannel.symm (by rw [hchannel]; rfl)

theorem puts_left {s : State} {e : Event} {p : Peer} {info : PlayerInfo}
    (hp : s.players.find? p = some info) (table : Players) :
    ∀ act ∈ broadcastPlayerDisconnect table info.netEntityId p, Puts s e act :=
  puts_broadcastEntity (.playerDisconnect info.netEntityId) rfl trivial rfl rfl
    (fun _ hne => .left hp hne) table

theorem puts_checkTimeoutsFrom (s : State) (e : Event) (now : ℚ) (keys : List Peer)
    (table : Players) (hsub : ∀ p info, table.find? p = some info → s.players.find? p = some info) :
    ∀ act ∈ (checkTimeoutsFrom now keys table).2, Puts s e act := by
  refine checkTimeoutsFrom_rule (fun table r =>
    (∀ p info, table.find? p = some info → s.players.find? p = some info) →
      ∀ act ∈ r.2, Puts s e act) (by simp) ?_ now keys table hsub
  intro table p info r hp hr hsub act hact
  simp only [List.mem_append, List.mem_cons, List.not_mem_nil, or_false] at hact
  rcases hact with (hact | rfl | rfl) | hact
  · exact puts_left (hsub p info hp) _ act hact
  · exact puts_of_quiet (by simp)
  · exact puts_of_quiet (by simp)
  · refine hr (fun q other hq => hsub q other ?_) act hact
    rw [OrderedMap.find?_erase] at hq
    split at hq
    · cases hq
    · exact hq

theorem puts_broadcastWorldSnapshots {s : State} (now : ℚ) {acts : List Action}
    (hs : broadcastWorldSnapshots s.players = some acts) :
    ∀ act ∈ acts, Puts s (.broadcast now) act := by
  rw [broadcastWorldSnapshots_eq] at hs
  split at hs
  swap
  · cases hs
  rename_i hfit
  cases hs
  intro act hact
  obtain ⟨r, hr, hact⟩ := List.mem_flatMap.mp hact
  rintro q channel data flag rfl
  unfold packetFor at hact
  split at hact
  · cases hact
  · cases List.mem_singleton.mp hact
    have hlen := hfit r hr
    have hmax : maxPlayers = 8 := rfl
    refine ⟨.worldSnapshot (visible s.players.entries r), .world hlen, ?_, rfl, rfl, rfl, ?_⟩
    · change (visible s.players.entries r).length < 2 ^ 16
      omega
    · rw [encodeWorld_length]
      unfold fragmentLength minimumMtu
      omega

/-- Every packet of a step is a message of the server on its route. -/
theorem step_puts {s s' : State} {e : Event} {acts : List Action}
    (hs : step s e = some (s', acts)) : ∀ act ∈ acts, Puts s e act := by
  cases e with
  | connect p now =>
    cases hs
    intro act hact
    simp only [sendConnectAck, List.cons_append, List.nil_append, List.mem_cons] at hact
    rcases hact with rfl | rfl | hact
    · exact puts_of_quiet (by simp)
    · rintro _ _ _ _ ⟨⟩
      exact ⟨.connectAck s.nextEntityId, .ack, trivial, rfl, routed_entity rfl rfl⟩
    · exact puts_broadcastEntity (.playerConnect s.nextEntityId) rfl trivial rfl rfl
        (fun _ hne => .joined hne) _ act hact
  | receive p data now =>
    obtain ⟨players', hr, rfl⟩ := step_receive hs
    intro act hact
    cases handleReceive_cases hr with
    | refused _ => cases hact
    | heartbeat _ _ => cases hact
    | snapshot _ _ _ _ => cases hact
    | disconnect _ hp =>
      simp only [List.mem_append, List.mem_cons, List.not_mem_nil, or_false] at hact
      rcases hact with hact | rfl | rfl
      · exact puts_left hp _ act hact
      · exact puts_of_quiet (by simp)
      · exact puts_of_quiet (by simp)
    | fire _ _ hp _ =>
      exact puts_broadcastEntity (.remoteFire _) rfl trivial rfl rfl (fun _ hne => .fire hp hne) _
        act hact
  | disconnect p =>
    cases hs
    intro act hact
    simp only [handlePeerGone] at hact
    split at hact
    · cases hact
    · rename_i info hp
      rcases List.mem_append.mp hact with hact | hact
      · exact puts_left hp _ act hact
      · rw [List.mem_singleton.mp hact]
        exact puts_of_quiet (by simp)
  | checkTimeouts now =>
    cases hs
    exact puts_checkTimeoutsFrom s _ now s.players.keys s.players fun _ _ => id
  | broadcast now =>
    obtain ⟨n, accum, rest, hloop, rfl⟩ := step_broadcast hs
    refine broadcastLoop_rule (fun acts => ∀ act ∈ acts, Puts s _ act) (by simp) ?_ n hloop
    intro out acts hout hacts act hact
    exact (List.mem_append.mp hact).elim (puts_broadcastWorldSnapshots now hout act) (hacts act)

theorem run_puts {s s' : State} {es : List Event} {acts : List Action}
    (hrun : run s es = some (s', acts)) : ∀ act ∈ acts, ∃ s e, Puts s e act := by
  have hall := EventRun.exec_rule (fun _ _ log => ∀ act ∈ log, ∃ s e, Puts s e act) []
    (fun s e _ log s' out h hs act hact =>
      (List.mem_append.mp hact).elim (h act) fun hout => ⟨s, e, step_puts hs act hout⟩)
    (by simp) hrun
  simpa using hall

theorem Tells.parse {s : State} {e : Event} {p : Peer} {m : ServerMessage} (h : Tells s e p m)
    (hfits : m.Fits) : ServerMessage.parse m.encode = some m ∧ m ≠ .disconnect := by
  refine ⟨(ServerMessage.parse_iff m.encode m).mpr ⟨hfits, List.prefix_rfl⟩, ?_⟩
  cases h <;> nofun

/-- Whatever arrives, every packet of the server is one of its messages on its route, and never
a MSG_DISCONNECT. -/
theorem server_packets_routed {s s' : State} {es : List Event} {acts : List Action}
    (hrun : run s es = some (s', acts)) :
    ∀ p channel data flag, .send p channel data flag ∈ acts →
      ∃ m : ServerMessage, ServerMessage.parse data = some m ∧ m ≠ .disconnect ∧
        data = m.encode ∧ Routed m.type data channel flag := by
  intro p channel data flag hact
  obtain ⟨s, e, hputs⟩ := run_puts hrun _ hact
  obtain ⟨m, htells, hfits, rfl, hrouted⟩ := hputs p channel data flag rfl
  obtain ⟨hparse, hne⟩ := htells.parse hfits
  exact ⟨m, hparse, hne, rfl, hrouted⟩

/-- Two players come, and one fires. -/
theorem server_packets_routed_fire : ∃ m : ServerMessage,
    m.encode = msgEntity.encode ⟨MessageType.remoteFire.code, 1⟩ ∧ m.type.channel = .gameEvents := by
  obtain ⟨⟨s, acts⟩, hrun, hsend⟩ := (Option.any_eq_true _ _).mp
    (show (run (start 0) [.connect 1 0, .connect 2 0,
      .receive 1 (msgEntity.encode ⟨MessageType.playerFire.code, 1⟩) 0]).any (fun r =>
        decide (.send 2 .gameEvents (msgEntity.encode ⟨MessageType.remoteFire.code, 1⟩) .reliable ∈
          r.2)) from by decide +kernel)
  obtain ⟨m, -, -, hdata, hrouted⟩ :=
    server_packets_routed hrun 2 _ _ _ (of_decide_eq_true hsend)
  exact ⟨m, hdata.symm, hrouted.channel.symm⟩

end Fnvmp.Server

/-! ## A client -/

namespace Fnvmp.Protocol

/-- The id a message of a client is sent under. -/
def ClientMessage.carries : ClientMessage → Option UInt32
  | .playerSnapshot snapshot => some snapshot.netEntityId
  | .playerFire id => some id
  | .heartbeat | .disconnect => none

end Fnvmp.Protocol

namespace Fnvmp.Net

open PackedCodec Protocol Lifecycle

def heartbeat : Sent :=
  ⟨.system, msgBare.encode ⟨MessageType.heartbeat.code⟩, .reliable⟩

theorem sendHeartbeat_packets (c : NetClient) : ∀ p ∈ sendHeartbeat c, p = heartbeat := by
  intro p hp
  unfold sendHeartbeat send at hp
  split at hp
  · exact List.mem_singleton.mp hp
  · cases hp

/-- Only a ConnectAck gives an id, and a client without one names none. -/
def Identified (P : UInt32 → Prop) (c : NetClient) : Prop :=
  c.connected = true → P c.netEntityId

theorem Identified.handleEvent {P : UInt32 → Prop} {c c' : NetClient} {e : HostEvent}
    {sent : List Sent} (h : Identified P c) (hack : ∀ id, ackId e = some id → P id)
    (hs : handleEvent c e = some (c', sent)) : Identified P c' ∧ ∀ p ∈ sent, p = heartbeat := by
  cases e with
  | connect =>
    cases hs
    exact ⟨h, by simp⟩
  | disconnect =>
    cases hs
    exact ⟨(fun hyes => by cases hyes), by simp⟩
  | receive data =>
    rw [Net.handleEvent, handleReceive_eq] at hs
    cases hparse : ServerMessage.parse data with
    | none =>
      rw [hparse] at hs
      cases hs
      exact ⟨h, by simp⟩
    | some m =>
      rw [hparse] at hs
      cases m with
      | connectAck id =>
        cases hs
        exact ⟨fun _ => hack id (by simp only [ackId, hparse]), sendHeartbeat_packets _⟩
      | disconnect =>
        cases hs
        exact ⟨(fun hyes => by cases hyes), by simp⟩
      | worldSnapshot entities | playerConnect id | playerDisconnect id | remoteFire id =>
        cases hs
        exact ⟨h, by simp⟩

theorem Identified.drain {P : UInt32 → Prop} {c c' : NetClient} {waiting : List HostEvent}
    {sent : List Sent} (h : Identified P c) (hack : ∀ e ∈ waiting, ∀ id, ackId e = some id → P id)
    (hs : drain c waiting = some (c', sent)) : Identified P c' ∧ ∀ p ∈ sent, p = heartbeat := by
  induction waiting generalizing c sent with
  | nil =>
    cases hs
    exact ⟨h, by simp⟩
  | cons e waiting ih =>
    obtain ⟨⟨mid, first⟩, hfirst, hrest⟩ := Option.bind_eq_some_iff.mp hs
    obtain ⟨⟨last, rest⟩, hlast, heq⟩ := Option.map_eq_some_iff.mp hrest
    cases heq
    obtain ⟨hmid, hbeats⟩ := h.handleEvent (hack e List.mem_cons_self) hfirst
    obtain ⟨hlast, hbeats'⟩ := ih hmid (fun e he => hack e (List.mem_cons_of_mem _ he)) hlast
    exact ⟨hlast, fun p hp => (List.mem_append.mp hp).elim (hbeats p) (hbeats' p)⟩

/-- Polling sends nothing but heartbeats. -/
theorem Identified.poll {P : UInt32 → Prop} {c c' : NetClient} {dt : ℚ} {waiting : List HostEvent}
    {sent : List Sent} (h : Identified P c) (hack : ∀ e ∈ waiting, ∀ id, ackId e = some id → P id)
    (hs : poll c dt waiting = some (c', sent)) : Identified P c' ∧ ∀ p ∈ sent, p = heartbeat := by
  unfold Net.poll at hs
  split at hs
  · cases hs
    exact ⟨h, by simp⟩
  obtain ⟨⟨mid, first⟩, hdrain, heq⟩ := Option.map_eq_some_iff.mp hs
  obtain ⟨hmid, hbeats⟩ := h.drain hack hdrain
  dsimp only at heq
  split at heq
  · split at heq
    · cases heq
      exact ⟨hmid, fun p hp => (List.mem_append.mp hp).elim (hbeats p) (sendHeartbeat_packets _ p)⟩
    · cases heq
      exact ⟨hmid, hbeats⟩
  · cases heq
    exact ⟨hmid, hbeats⟩

end Fnvmp.Net

namespace Fnvmp.Detection

open PackedCodec ExactFloat Engine Protocol Net Lifecycle

/-- The id in a message is the client's own, which then is connected. -/
def Names (net : NetClient) (m : ClientMessage) : Prop :=
  ∀ id, m.carries = some id → net.connected = true ∧ net.netEntityId = id

/-- A packet that is a message of the client on its route. -/
def Utters (net : NetClient) (p : Sent) : Prop :=
  ∃ m : ClientMessage, m ≠ .disconnect ∧ m.Fits ∧ p.data = m.encode ∧
    Routed m.type p.data p.channel p.flag ∧ Names net m

theorem utters_heartbeat (net : NetClient) : Utters net heartbeat :=
  ⟨.heartbeat, by decide, trivial, rfl, ⟨rfl, rfl, by decide⟩, nofun⟩

theorem utters_sendFireEvent (net : NetClient) :
    ∀ p ∈ sendFireEvent net net.netEntityId, Utters net p := by
  intro p hp
  unfold sendFireEvent send at hp
  split at hp
  · rename_i hconnected
    split at hp
    · cases List.mem_singleton.mp hp
      refine ⟨.playerFire net.netEntityId, by simp, trivial, rfl, ⟨rfl, rfl, ?_⟩, fun id hcarries =>
        ⟨hconnected, Option.some.inj hcarries⟩⟩
      rw [Codec.encode_length]
      decide
    · cases hp
  · cases hp

theorem utters_sendPlayerSnapshot (net : NetClient) (snapshot : MsgPlayerSnapshot)
    (hid : snapshot.netEntityId = net.netEntityId) :
    ∀ p ∈ (sendPlayerSnapshot net snapshot).2, Utters net p := by
  intro p hp
  unfold sendPlayerSnapshot send at hp
  split at hp
  · rename_i hconnected
    dsimp only at hp
    split at hp
    · cases List.mem_singleton.mp hp
      refine ⟨.playerSnapshot { snapshot with
        msgType := MessageType.playerSnapshot.code, sequence := net.snapshotSeq }, by simp, rfl, rfl,
        ⟨rfl, rfl, ?_⟩, fun id hcarries => ⟨hconnected, hid.symm.trans (Option.some.inj hcarries)⟩⟩
      rw [Codec.encode_length]
      decide
    · cases hp
  · cases hp

variable (x : Expressions)

theorem utters_sendFrame (libm : Libm FloatVal) (state : NetClient × Sender) (t : Moment) :
    (∀ p ∈ (sendFrame x libm state t).2, Utters state.1 p) ∧
      (sendFrame x libm state t).1.1.connected = state.1.connected ∧
      (sendFrame x libm state t).1.1.netEntityId = state.1.netEntityId := by
  obtain ⟨net, s⟩ := state
  have hfires : ∀ p ∈ (detectAction x net t.world t.player s).2, Utters net p := by
    intro p hp
    unfold detectAction at hp
    split at hp
    · dsimp only at hp
      split at hp
      · exact utters_sendFireEvent net p hp
      · cases hp
    · cases hp
  have hsame : ∀ snapshot, (sendPlayerSnapshot net snapshot).1.connected = net.connected ∧
      (sendPlayerSnapshot net snapshot).1.netEntityId = net.netEntityId := by
    intro snapshot
    unfold sendPlayerSnapshot
    split <;> exact ⟨rfl, rfl⟩
  have hsnapshot : ∀ s' : Sender,
      (∀ p ∈ (sendSnapshot x net t.world t.player libm t.dt s').2.2, Utters net p) ∧
      (sendSnapshot x net t.world t.player libm t.dt s').2.1.connected = net.connected ∧
      (sendSnapshot x net t.world t.player libm t.dt s').2.1.netEntityId = net.netEntityId := by
    intro s'
    unfold sendSnapshot
    split
    · dsimp only
      split
      · exact ⟨utters_sendPlayerSnapshot net _ rfl, hsame _⟩
      · exact ⟨by simp, rfl, rfl⟩
    · exact ⟨by simp, rfl, rfl⟩
  obtain ⟨hsnapshots, hconnected, hid⟩ := hsnapshot (detectAction x net t.world t.player s).1
  exact ⟨fun p hp => (List.mem_append.mp hp).elim (hfires p) (hsnapshots p), hconnected, hid⟩

/-- What a frame sends, and whose id the client has after it. -/
theorem mainGameLoop_utters {libm : Libm FloatVal} {g g' : Game} {t : Tick} {sent : List Sent}
    {P : UInt32 → Prop} (h : Identified P g.plugin.net)
    (hack : ∀ e ∈ t.frame.waiting, ∀ id, ackId e = some id → P id)
    (hs : mainGameLoop x libm g t = some (g', sent)) :
    Identified P g'.plugin.net ∧ ∀ p ∈ sent, Utters g'.plugin.net p := by
  obtain ⟨plugin, received, hframe, hstate, rfl⟩ := mainGameLoop_cases x hs
  obtain ⟨net, hpoll, -, hnet⟩ := Client.frame_cases hframe
  obtain ⟨hidentified, hbeats⟩ := h.poll hack hpoll
  obtain ⟨hutters, hconnected, hid⟩ := utters_sendFrame x libm (plugin.net, g.sender) t.moment
  rw [← hstate] at hconnected hid
  have hplugin : plugin.net.connected = net.connected ∧
      plugin.net.netEntityId = net.netEntityId := by
    rw [hnet]
    exact ⟨rfl, rfl⟩
  refine ⟨fun hyes => ?_, fun p hp => ?_⟩
  · rw [hid, hplugin.2]
    exact hidentified (by rw [← hplugin.1, ← hconnected, hyes])
  · rcases List.mem_append.mp hp with hp | hp
    · exact hbeats p hp ▸ utters_heartbeat _
    · obtain ⟨m, hne, hfits, hdata, hrouted, hnames⟩ := hutters p hp
      refine ⟨m, hne, hfits, hdata, hrouted, fun id hcarries => ?_⟩
      rw [hconnected, hid]
      exact hnames id hcarries

/-- Whatever arrives, every packet of the game is a message of a client on its route, and the
ids it names were given to it. -/
theorem game_packets_routed {libm : Libm FloatVal} {g g' : Game} {ticks : List Tick}
    {sent : List Sent} (hclosed : g.plugin.net.connected = false)
    (hrun : EventRun.exec (mainGameLoop x libm) g ticks = some (g', sent)) :
    ∀ p ∈ sent, ∃ m : ClientMessage, ClientMessage.parse p.data = some m ∧ m ≠ .disconnect ∧
      p.data = m.encode ∧ Routed m.type p.data p.channel p.flag ∧
      ∀ id, m.carries = some id →
        id ∈ (ticks.flatMap fun t => t.frame.waiting).filterMap ackId := by
  let given (id : UInt32) : Prop := id ∈ (ticks.flatMap fun t => t.frame.waiting).filterMap ackId
  have hall := EventRun.exec_rule
    (fun g rest out => rest ⊆ ticks ∧ Identified given g.plugin.net ∧
      ∀ p ∈ out, ∃ net, Identified given net ∧ Utters net p) []
    (fun g t rest log g' out h hs => by
      obtain ⟨hsub, hidentified, hout⟩ := h
      obtain ⟨hidentified', hutters⟩ := mainGameLoop_utters x hidentified
        (fun e he id hid => List.mem_filterMap.mpr
          ⟨e, List.mem_flatMap.mpr ⟨t, hsub List.mem_cons_self, he⟩, hid⟩) hs
      refine ⟨fun t' ht' => hsub (List.mem_cons_of_mem _ ht'), hidentified', fun p hp => ?_⟩
      exact (List.mem_append.mp hp).elim (hout p) fun hp => ⟨_, hidentified', hutters p hp⟩)
    ⟨fun _ => id, fun hyes => absurd (hclosed.symm.trans hyes) (by decide), by simp⟩ hrun
  intro p hp
  obtain ⟨net, hidentified, m, hne, hfits, hdata, hrouted, hnames⟩ := hall.2.2 p (by simpa using hp)
  refine ⟨m, (ClientMessage.parse_iff p.data m).mpr ⟨hfits, ?_⟩, hne, hdata, hrouted,
    fun id hcarries => ?_⟩
  · simp only [hdata, List.prefix_rfl]
  · obtain ⟨hconnected, hid⟩ := hnames id hcarries
    exact hid ▸ hidentified hconnected

theorem game_packets_routed_stalled : ∃ (g : Game) (sent : List Sent),
    EventRun.exec (mainGameLoop ⟨true, true, true, true, true, true⟩ stillLibm)
      ⟨Client.start 0 true true true fun _ => true, {}⟩ stalled = some (g, sent) ∧
    sent.length = 3 ∧ ∀ p ∈ sent, ∃ m : ClientMessage, ClientMessage.parse p.data = some m := by
  obtain ⟨⟨g, sent⟩, hrun, hlength⟩ := (Option.any_eq_true _ _).mp
    (show (EventRun.exec (mainGameLoop ⟨true, true, true, true, true, true⟩ stillLibm)
      ⟨Client.start 0 true true true fun _ => true, {}⟩ stalled).any (fun r =>
        decide (r.2.length = 3)) from by decide +kernel)
  refine ⟨g, sent, hrun, of_decide_eq_true hlength, fun p hp => ?_⟩
  obtain ⟨m, hparse, -⟩ := game_packets_routed _ rfl hrun p hp
  exact ⟨m, hparse⟩

end Fnvmp.Detection
