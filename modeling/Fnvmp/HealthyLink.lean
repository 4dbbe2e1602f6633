import Fnvmp.Departures
import Fnvmp.Heartbeat
import Fnvmp.NetClient
import Fnvmp.Seats
import Mathlib.Logic.Relation

/-!
# A healthy client is not timed out

One client and the server, with every reliable message on its way dated. Polls are at
most `g` apart and no reliable message is on its way for longer than `d`. The heartbeats
of the client are a pulse, and the sweep of the server is its monitor. All dates are seconds
since the server was started; the server itself only sees the readings of its clock.
-/

namespace Fnvmp.Net

open PackedCodec Protocol

/-! ## The heartbeats of a client -/

def beat : Sent := ⟨.system, msgBare.encode ⟨MessageType.heartbeat.code⟩, .reliable⟩

/-- A host event that leaves the connection open. -/
def Benign : HostEvent → Prop
  | .connect => True
  | .receive data => ServerMessage.parse data ≠ some .disconnect
  | .disconnect => False

/-- Either events were met in silence and the clock left alone, and no ConnectAck was among
them, or they were answered and the heartbeat clock started afresh. -/
structure Answers (es : List HostEvent) (c c' : NetClient) (sent : List Sent) : Prop where
  client : c'.client = c.client
  peer : c'.peer = true
  beats : ∀ s ∈ sent, s = beat
  clock : (sent = [] ∧ c'.connected = c.connected ∧ c'.heartbeatAccum = c.heartbeatAccum ∧
      ∀ data id, .receive data ∈ es → ServerMessage.parse data ≠ some (.connectAck id)) ∨
    sent ≠ [] ∧ c'.connected = true ∧ c'.heartbeatAccum = 0

theorem Answers.silent {es : List HostEvent} {c c' : NetClient} (hclient : c'.client = c.client)
    (hpeer : c'.peer = true) (hconnected : c'.connected = c.connected)
    (haccum : c'.heartbeatAccum = c.heartbeatAccum)
    (hnoack : ∀ data id, .receive data ∈ es → ServerMessage.parse data ≠ some (.connectAck id)) :
    Answers es c c' [] :=
  ⟨hclient, hpeer, by simp, .inl ⟨rfl, hconnected, haccum, hnoack⟩⟩

theorem Answers.append {es es' : List HostEvent} {c mid c' : NetClient} {out sent : List Sent}
    (h : Answers es c mid out) (h' : Answers es' mid c' sent) :
    Answers (es ++ es') c c' (out ++ sent) := by
  refine ⟨h'.client.trans h.client, h'.peer, ?_, ?_⟩
  · intro s hs
    exact (List.mem_append.mp hs).elim (h.beats s) (h'.beats s)
  · rcases h'.clock with ⟨rfl, hconnected', haccum', hnoack'⟩ | ⟨hne, hconnected', haccum'⟩
    · rcases h.clock with ⟨rfl, hconnected, haccum, hnoack⟩ | ⟨hne, hconnected, haccum⟩
      · refine .inl ⟨rfl, hconnected'.trans hconnected, haccum'.trans haccum, ?_⟩
        intro data id hmem
        rcases List.mem_append.mp hmem with hmem | hmem
        · exact hnoack data id hmem
        · exact hnoack' data id hmem
      · exact .inr ⟨by simp [hne], hconnected'.trans hconnected, haccum'.trans haccum⟩
    · exact .inr ⟨by simp [hne], hconnected', haccum'⟩

/-- One event: only a ConnectAck is answered, at once. -/
theorem handleEvent_answers {c c' : NetClient} {e : HostEvent} {sent : List Sent}
    (hpeer : c.peer = true) (he : Benign e) (h : handleEvent c e = some (c', sent)) :
    Answers [e] c c' sent := by
  cases e with
  | connect =>
    cases h
    exact .silent rfl hpeer rfl rfl (by simp)
  | disconnect => exact absurd he id
  | receive data =>
    have other (hno : ∀ id, ServerMessage.parse data ≠ some (.connectAck id)) :
        ∀ bytes id, .receive bytes ∈ [HostEvent.receive data] →
          ServerMessage.parse bytes ≠ some (.connectAck id) := by
      intro bytes id hbytes
      cases List.mem_singleton.mp hbytes
      exact hno id
    simp only [handleEvent, handleReceive_eq, Option.some.injEq] at h
    cases hparse : ServerMessage.parse data with
    | none =>
      simp only [hparse, Option.map_none, Option.getD_none] at h
      cases h
      exact .silent rfl hpeer rfl rfl (other (by simp [hparse]))
    | some msg =>
      simp only [hparse, Option.map_some, Option.getD_some] at h
      cases msg with
      | connectAck id =>
        cases h
        refine ⟨rfl, hpeer, ?_, .inr ⟨?_, rfl, rfl⟩⟩
        · simp [sendHeartbeat, send, hpeer, beat]
        · simp [sendHeartbeat, send, hpeer]
      | disconnect => exact absurd hparse he
      | worldSnapshot _ | playerConnect _ | playerDisconnect _ | remoteFire _ =>
        cases h
        exact .silent rfl hpeer rfl rfl (other (by simp [hparse]))

theorem drain_answers {c c' : NetClient} {es : List HostEvent} {sent : List Sent}
    (hpeer : c.peer = true) (hbenign : ∀ e ∈ es, Benign e) (h : drain c es = some (c', sent)) :
    Answers es c c' sent := by
  induction es generalizing c sent with
  | nil =>
    cases h
    exact .silent rfl hpeer rfl rfl (by simp)
  | cons e es ih =>
    obtain ⟨⟨mid, out⟩, hfirst, hrest⟩ := Option.bind_eq_some_iff.mp h
    obtain ⟨⟨c'', sent'⟩, hdrain, heq⟩ := Option.map_eq_some_iff.mp hrest
    simp only [Prod.mk.injEq] at heq
    obtain ⟨rfl, rfl⟩ := heq
    obtain ⟨he, hes⟩ := List.forall_mem_cons.mp hbenign
    have hone : Answers [e] c mid out := handleEvent_answers hpeer he hfirst
    exact hone.append (ih hone.peer hes hdrain)

/-- A poll of an open connection: still not connected and silent; or silent with time added
to the clock; or at least one heartbeat, and a clock that shows what has passed since. -/
theorem poll_beats {c c' : NetClient} {dt : ℚ} {waiting : List HostEvent} {sent : List Sent}
    (hclient : c.client = true) (hpeer : c.peer = true) (hbenign : ∀ e ∈ waiting, Benign e)
    (haccum : c.connected = true → c.heartbeatAccum < heartbeatInterval) (hdt : 0 ≤ dt)
    (hshort : dt ≤ heartbeatInterval) (h : poll c dt waiting = some (c', sent)) :
    c'.client = true ∧ c'.peer = true ∧ (∀ s ∈ sent, s = beat) ∧
    (c'.connected = false ∧ c.connected = false ∧
      (∀ data id, .receive data ∈ waiting → ServerMessage.parse data ≠ some (.connectAck id)) ∨
    c'.connected = true ∧ c'.heartbeatAccum < heartbeatInterval ∧
      (c.connected = true ∧ c'.heartbeatAccum = c.heartbeatAccum + dt ∨
        sent ≠ [] ∧ 0 ≤ c'.heartbeatAccum)) := by
  unfold poll at h
  rw [if_neg (by simp [hclient])] at h
  obtain ⟨⟨mid, out⟩, hdrain, heq⟩ := Option.map_eq_some_iff.mp h
  obtain ⟨hclient', hpeer', hbeats, hcases⟩ := drain_answers hpeer hbenign hdrain
  have hpositive : (0 : ℚ) < heartbeatInterval := by decide +kernel
  have hmid : mid.connected = true → mid.heartbeatAccum < heartbeatInterval := by
    intro hconnected
    rcases hcases with ⟨-, hsame, hclock, -⟩ | ⟨-, -, hzero⟩
    · rw [hclock]
      exact haccum (hsame ▸ hconnected)
    · rw [hzero]
      exact hpositive
  dsimp only at heq
  split at heq
  · rename_i hconnected
    have hbound := hmid hconnected
    split at heq
    · rename_i hdue
      cases heq
      refine ⟨hclient'.trans hclient, hpeer', ?_, .inr ⟨hconnected, ?_, .inr ⟨?_, ?_⟩⟩⟩
      · intro s hs
        rcases List.mem_append.mp hs with hs | hs
        · exact hbeats s hs
        · simpa [sendHeartbeat, send, hpeer', beat] using hs
      · change mid.heartbeatAccum + dt - heartbeatInterval < heartbeatInterval
        linarith
      · simp [sendHeartbeat, send, hpeer']
      · change 0 ≤ mid.heartbeatAccum + dt - heartbeatInterval
        linarith
    · rename_i hearly
      cases heq
      refine ⟨hclient'.trans hclient, hpeer', hbeats, .inr ⟨hconnected, not_le.mp hearly, ?_⟩⟩
      rcases hcases with ⟨-, hsame, hclock, -⟩ | ⟨hsent, -, hzero⟩
      · refine .inl ⟨hsame ▸ hconnected, ?_⟩
        change mid.heartbeatAccum + dt = _
        rw [hclock]
      · refine .inr ⟨hsent, ?_⟩
        change 0 ≤ mid.heartbeatAccum + dt
        rw [hzero, zero_add]
        exact hdt
  · rename_i hdisconnected
    cases heq
    refine ⟨hclient'.trans hclient, hpeer', hbeats, .inl ?_⟩
    rcases hcases with ⟨-, hsame, -, hnoack⟩ | ⟨-, hconnected, -⟩
    · exact ⟨by simpa using hdisconnected, by simpa [hsame] using hdisconnected, hnoack⟩
    · exact absurd hconnected hdisconnected

end Fnvmp.Net

namespace Fnvmp.HealthyLink

open PackedCodec Protocol Net Heartbeat
open Server (State Event Action Peer Expired clocksPerSec getTime handleConnect checkTimeouts
  packetType)

/-! ## The link -/

/-- The server and the client behind one pointer. `polled` is the time of the last poll;
`up` and `down` hold the reliable packets on their way with the time each was sent;
`loose` holds the other packets for the client. -/
structure Link where
  now : ℚ
  server : State
  net : NetClient
  polled : ℚ
  up : List (ℚ × List UInt8)
  down : List (ℚ × List UInt8)
  loose : List (List UInt8)

def reliable (sent : List Sent) : List (List UInt8) :=
  sent.filterMap fun s => if s.flag = .reliable then some s.data else none

/-- The packets for a pointer with one flag. -/
def packetsFor (p : Peer) (flag : PacketFlag) (acts : List Action) : List (List UInt8) :=
  acts.filterMap fun
    | .send q _ data f => if q = p ∧ f = flag then some data else none
    | _ => none

def stamp (t : ℚ) (packets : List (List UInt8)) : List (ℚ × List UInt8) := packets.map fun m => (t, m)

/-- At time `t` neither the next poll nor a packet for the server is overdue. -/
structure OnTime (g d : ℚ) (l : Link) (t : ℚ) : Prop where
  forward : l.now ≤ t
  polls : t ≤ l.polled + g
  handled : ∀ m ∈ l.up, t ≤ m.1 + d

/-- A poll at time `t` takes packets that were sent, among them every reliable one that
was sent `d` ago or earlier; `rest` is what is still to come. -/
structure Arrives (d : ℚ) (l : Link) (t : ℚ) (waiting : List HostEvent)
    (rest : List (ℚ × List UInt8)) : Prop where
  alive : .disconnect ∉ waiting
  sent : ∀ data, .receive data ∈ waiting → data ∈ l.loose ∨ ∃ s, (s, data) ∈ l.down
  kept : ∀ m ∈ rest, m ∈ l.down ∧ t < m.1 + d
  taken : ∀ m ∈ l.down, m ∈ rest ∨ .receive m.2 ∈ waiting

/-- The packets for the client that a step of the server adds. -/
def Link.serve (l : Link) (p : Peer) (t : ℚ) (s : State) (acts : List Action) : Link :=
  { l with
    now := t
    server := s
    down := l.down ++ stamp t (packetsFor p .reliable acts)
    loose := l.loose ++ packetsFor p .unsequenced acts }

/-- What can happen next: a poll, a shot or a snapshot of the client, a reliable packet of it
that the server handles, and anything else the server does. -/
inductive Step (p : Peer) (g d : ℚ) (l : Link) : Link → Prop where
  | poll {t : ℚ} {waiting : List HostEvent} {rest : List (ℚ × List UInt8)} {net : NetClient}
      {sent : List Sent} (ht : OnTime g d l t) (harrives : Arrives d l t waiting rest)
      (hpoll : poll l.net (t - l.polled) waiting = some (net, sent)) :
      Step p g d l { l with
        now := t, net := net, polled := t, up := l.up ++ stamp t (reliable sent), down := rest }
  | fire {t : ℚ} (id : UInt32) (ht : OnTime g d l t) :
      Step p g d l { l with now := t, up := l.up ++ stamp t (reliable (sendFireEvent l.net id)) }
  | snapshot {t : ℚ} (snap : MsgPlayerSnapshot) (ht : OnTime g d l t) :
      Step p g d l { l with
        now := t
        net := (sendPlayerSnapshot l.net snap).1
        up := l.up ++ stamp t (reliable (sendPlayerSnapshot l.net snap).2) }
  | handle {t : ℚ} {before after : List (ℚ × List UInt8)} {m : ℚ × List UInt8} {s : State}
      {acts : List Action} (ht : OnTime g d l t) (hup : l.up = before ++ m :: after)
      (hstep : Server.step l.server (.receive p m.2 (getTime t)) = some (s, acts)) :
      Step p g d l { l.serve p t s acts with up := before ++ after }
  | serve {t : ℚ} {e : Event} {s : State} {acts : List Action} (ht : OnTime g d l t)
      (he : e.Spares p (getTime t)) (hstep : Server.step l.server e = some (s, acts)) :
      Step p g d l (l.serve p t s acts)

/-- The server has just taken the CONNECT of the pointer. The client has polled within the
last `g` and is not connected yet. -/
structure Opened (p : Peer) (g : ℚ) (l : Link) : Prop where
  connect : ∃ s, l.server = (handleConnect (getTime l.now) p s).1 ∧
    l.down = stamp l.now (packetsFor p .reliable (handleConnect (getTime l.now) p s).2)
  client : l.net.client = true
  peer : l.net.peer = true
  greeting : l.net.connected = false
  started : 0 ≤ l.now
  polled : l.polled ≤ l.now ∧ l.now ≤ l.polled + g
  idle : l.up = [] ∧ l.loose = []

/-! ## The pulse of the link -/

def isHeartbeat (m : ℚ × List UInt8) : Bool := packetType m.2 = some .heartbeat

/-- The times of the heartbeats on their way. -/
def beats (up : List (ℚ × List UInt8)) : List ℚ := (up.filter isHeartbeat).map Prod.fst

/-- Where the client is: waiting for its ConnectAck, or beating. -/
inductive Phase (g d opened seen : ℚ) (l : Link) : Prop where
  | greeting (id : UInt32) (data : List UInt8) (hconnected : l.net.connected = false)
      (hpolled : l.polled ≤ opened ∨ l.polled ≤ opened + d) (hdown : (opened, data) ∈ l.down)
      (hack : ServerMessage.parse data = some (.connectAck id))
  | beating (first last : ℚ) (hconnected : l.net.connected = true)
      (hfirst : first + d ≤ opened + (heartbeatTimeout - 1 / clocksPerSec))
      (hpulse : Pulse (heartbeatInterval + g) first last seen (beats l.up))
      (hclock : l.polled - last ≤ l.net.heartbeatAccum)
      (haccum : l.net.heartbeatAccum < heartbeatInterval)

/-- What holds of the link from the CONNECT on. The server was marked last at `seen`. -/
structure Healthy (p : Peer) (g d opened : ℚ) (l : Link) : Prop where
  client : l.net.client = true
  peer : l.net.peer = true
  polled : l.polled ≤ l.now
  benign : ∀ data, data ∈ l.loose ∨ (∃ s, (s, data) ∈ l.down) →
    ServerMessage.parse data ≠ some .disconnect
  uplink : ∀ m ∈ l.up, m.1 ≤ l.now ∧ packetType m.2 ≠ some .disconnect
  seat : ∃ info seen, l.server.players.find? p = some info ∧ info.lastHeartbeat = getTime seen ∧
    0 ≤ seen ∧ opened ≤ seen ∧ seen ≤ l.now ∧ Phase g d opened seen l

@[simp] theorem beats_append (up up' : List (ℚ × List UInt8)) :
    beats (up ++ up') = beats up ++ beats up' := by
  simp [beats]

theorem mem_packetsFor {p : Peer} {flag : PacketFlag} {acts : List Action} {data : List UInt8}
    (h : data ∈ packetsFor p flag acts) : ∃ channel, .send p channel data flag ∈ acts := by
  obtain ⟨act, hact, hsome⟩ := List.mem_filterMap.mp h
  cases act with
  | send q channel bytes f =>
    dsimp only at hsome
    split at hsome
    · rename_i heq
      cases hsome
      exact ⟨channel, heq.1 ▸ heq.2 ▸ hact⟩
    · cases hsome
  | registered | removed | peerDisconnect => cases hsome

section
variable {p : Peer} {g d opened : ℚ} {l l' : Link}

/-- The bounds on the pulse follow from those on the first heartbeat. -/
theorem pulse_bound (hg : g ≤ heartbeatInterval)
    (hfirst : 2 * d + g + 1 / clocksPerSec ≤ heartbeatTimeout) :
    heartbeatInterval + g ≤ heartbeatTimeout - 1 / clocksPerSec ∧
      heartbeatInterval + g + d ≤ heartbeatTimeout - 1 / clocksPerSec := by
  have hinterval : heartbeatInterval = 2 := rfl
  have htimeout : heartbeatTimeout = 10 := rfl
  have hrate : clocksPerSec = 1000 := rfl
  rw [hinterval] at hg
  rw [htimeout, hrate] at hfirst
  rw [hinterval, htimeout, hrate]
  constructor <;> linarith

/-- As long as the schedule is kept, the server has heard of the client within the timeout,
with a tick of its clock to spare. -/
theorem Healthy.alive (h : Healthy p g d opened l) (hg : g ≤ heartbeatInterval)
    (hfirst : 2 * d + g + 1 / clocksPerSec ≤ heartbeatTimeout)
    {t : ℚ} (ht : OnTime g d l t) : ∃ info, l.server.players.find? p = some info ∧
      ¬ Expired (getTime t) info := by
  obtain ⟨info, seen, hseat, hmark, hnonneg, hopened, hpast, hphase⟩ := h.seat
  refine ⟨info, hseat, Server.not_expired hmark hnonneg (hpast.trans ht.forward) ?_⟩
  rw [← le_sub_iff_add_le, add_sub_assoc]
  have hpolls := ht.polls
  obtain ⟨hgap, hnext⟩ := pulse_bound hg hfirst
  have hinterval : heartbeatInterval = 2 := rfl
  cases hphase with
  | greeting id data hconnected hpolled hdown hack => rcases hpolled with hpolled | hpolled <;> linarith
  | beating first last hconnected hbegun hpulse hclock haccum =>
    refine hpulse.alive hopened hbegun hgap hnext ?_ ?_
    · intro y hy
      obtain ⟨m, hm, rfl⟩ := List.mem_map.mp hy
      exact ht.handled m (List.mem_filter.mp hm).1
    · linarith

/-- Whatever the server does, short of ending the session. -/
theorem Healthy.served (h : Healthy p g d opened l) {t : ℚ} (ht : OnTime g d l t)
    {info : Server.PlayerInfo} (hseat : l.server.players.find? p = some info)
    (hfresh : ¬ Expired (getTime t) info) {e : Event} (he : e.Spares p (getTime t))
    {s : State} {acts : List Action} (hstep : Server.step l.server e = some (s, acts))
    {up : List (ℚ × List UInt8)} (hup : ∀ m ∈ up, m ∈ l.up)
    (hdone : ∀ m ∈ l.up, m ∈ up ∨ e = .receive p m.2 (getTime t)) :
    Healthy p g d opened { l.serve p t s acts with up := up } := by
  obtain ⟨info', seen, hseat', hmark, hnonneg, hopened, hpast, hphase⟩ := h.seat
  cases hseat.symm.trans hseat'
  have hforward := ht.forward
  obtain ⟨info', hseat', hmarked⟩ := Server.step_seat he hseat hfresh hstep
  obtain ⟨seen', hmark', hseen, hseen', hno⟩ : ∃ seen', info'.lastHeartbeat = getTime seen' ∧
      seen ≤ seen' ∧ seen' ≤ t ∧ (seen' = t ∨
        ∀ data now, e = .receive p data now → packetType data ≠ some .heartbeat) := by
    rcases hmarked with hmarked | ⟨hmarked, hno⟩
    · exact ⟨t, hmarked, hpast.trans hforward, le_rfl, .inl rfl⟩
    · exact ⟨seen, hmarked.trans hmark, le_rfl, hpast.trans hforward, .inr hno⟩
  refine ⟨h.client, h.peer, h.polled.trans hforward, ?_, ?_, info', seen', hseat', hmark',
    hnonneg.trans hseen, hopened.trans hseen, hseen', ?_⟩
  · rintro data (hdata | ⟨sent, hdata⟩)
    · rcases List.mem_append.mp hdata with hdata | hdata
      · exact h.benign data (.inl hdata)
      · obtain ⟨channel, hmem⟩ := mem_packetsFor hdata
        exact Server.step_keepsOpen hstep hmem
    · rcases List.mem_append.mp hdata with hdata | hdata
      · exact h.benign data (.inr ⟨sent, hdata⟩)
      · obtain ⟨bytes, hbytes, heq⟩ := List.mem_map.mp hdata
        cases heq
        obtain ⟨channel, hmem⟩ := mem_packetsFor hbytes
        exact Server.step_keepsOpen hstep hmem
  · intro m hm
    obtain ⟨hsent, htype⟩ := h.uplink m (hup m hm)
    exact ⟨hsent.trans hforward, htype⟩
  · cases hphase with
    | greeting id data hconnected hpolled hdown hack =>
      exact .greeting id data hconnected hpolled (List.mem_append_left _ hdown) hack
    | beating first last hconnected hfirst hpulse hclock haccum =>
      refine .beating first last hconnected hfirst (hpulse.arrive hseen ?_) hclock haccum
      intro y hy
      obtain ⟨m, hm, rfl⟩ := List.mem_map.mp hy
      obtain ⟨hm, hbeat⟩ := List.mem_filter.mp hm
      rcases hdone m hm with hm' | rfl
      · exact .inl (List.mem_map_of_mem (List.mem_filter.mpr ⟨hm', hbeat⟩))
      · rcases hno with rfl | hno
        · exact .inr ((h.uplink m hm).1.trans hforward)
        · exact absurd (by simpa [isHeartbeat] using hbeat) (hno m.2 _ rfl)

/-- What the client itself sends between two polls is no heartbeat and ends nothing. -/
theorem Healthy.sends (h : Healthy p g d opened l) {t : ℚ} (ht : OnTime g d l t) {net : NetClient}
    (hnet : net.client = l.net.client ∧ net.peer = l.net.peer ∧
      net.connected = l.net.connected ∧ net.heartbeatAccum = l.net.heartbeatAccum)
    {packets : List (List UInt8)} (hpackets : ∀ data ∈ packets, packetType data ≠ some .disconnect) :
    Healthy p g d opened { l with now := t, net := net, up := l.up ++ stamp t packets } := by
  obtain ⟨info, seen, hseat, hmark, hnonneg, hopened, hpast, hphase⟩ := h.seat
  obtain ⟨hclient, hpeer, hconnected', haccum'⟩ := hnet
  have hforward := ht.forward
  refine ⟨hclient.trans h.client, hpeer.trans h.peer, h.polled.trans hforward, h.benign, ?_, info,
    seen, hseat, hmark, hnonneg, hopened, hpast.trans hforward, ?_⟩
  · intro m hm
    rcases List.mem_append.mp hm with hm | hm
    · obtain ⟨hsent, htype⟩ := h.uplink m hm
      exact ⟨hsent.trans hforward, htype⟩
    · obtain ⟨data, hdata, rfl⟩ := List.mem_map.mp hm
      exact ⟨le_rfl, hpackets data hdata⟩
  · cases hphase with
    | greeting id data hconnected hpolled hdown hack =>
      exact .greeting id data (hconnected'.trans hconnected) hpolled hdown hack
    | beating first last hconnected hfirst hpulse hclock haccum =>
      refine .beating first last (hconnected'.trans hconnected) hfirst ?_ (haccum' ▸ hclock)
        (haccum' ▸ haccum)
      refine hpulse.arrive le_rfl fun y hy => .inl ?_
      rw [beats_append]
      exact List.mem_append_left _ hy

theorem reliable_sendFireEvent {c : NetClient} {id : UInt32} :
    ∀ data ∈ reliable (sendFireEvent c id), packetType data = some .playerFire := by
  intro data hdata
  obtain ⟨s, hs, heq⟩ := List.mem_filterMap.mp hdata
  unfold sendFireEvent send at hs
  split at hs
  · split at hs
    · cases List.mem_singleton.mp hs
      cases heq
      simp [packetType, msgEntity_encode, MessageType.ofCode, MessageType.code]
    · cases hs
  · cases hs

theorem reliable_sendPlayerSnapshot (c : NetClient) (snap : MsgPlayerSnapshot) :
    reliable (sendPlayerSnapshot c snap).2 = [] := by
  unfold sendPlayerSnapshot send
  split
  · split <;> rfl
  · rfl

theorem reliable_beats {sent : List Sent} (hbeats : ∀ s ∈ sent, s = beat) :
    ∀ data ∈ reliable sent, packetType data = some .heartbeat := by
  intro data hdata
  obtain ⟨s, hs, heq⟩ := List.mem_filterMap.mp hdata
  rw [hbeats s hs] at heq
  cases heq
  rfl

theorem mem_beats_stamp {sent : List Sent} (hbeats : ∀ s ∈ sent, s = beat) (hne : sent ≠ [])
    (t : ℚ) : t ∈ beats (stamp t (reliable sent)) := by
  obtain ⟨s, hs⟩ := List.exists_mem_of_ne_nil sent hne
  have hdata : beat.data ∈ reliable sent :=
    List.mem_filterMap.mpr ⟨s, hs, by rw [hbeats s hs]; rfl⟩
  refine List.mem_map.mpr ⟨(t, beat.data), List.mem_filter.mpr ⟨?_, rfl⟩, rfl⟩
  exact List.mem_map_of_mem hdata

theorem Phase.accum {seen : ℚ} (h : Phase g d opened seen l) (hconnected : l.net.connected = true) :
    l.net.heartbeatAccum < heartbeatInterval := by
  cases h with
  | greeting id data hnot _ _ _ =>
    rw [hnot] at hconnected
    cases hconnected
  | beating first last _ _ _ _ haccum => exact haccum

/-- A poll that leaves the client waiting: its ConnectAck was sent less than `d` ago. -/
theorem Phase.waits {seen t : ℚ} (h : Phase g d opened seen l) {waiting : List HostEvent}
    {rest : List (ℚ × List UInt8)} (harrives : Arrives d l t waiting rest)
    (hconnected : l.net.connected = false)
    (hnoack : ∀ data id, .receive data ∈ waiting → ServerMessage.parse data ≠ some (.connectAck id))
    (hconnected' : l'.net.connected = false) (hpolled : l'.polled = t) (hdown : l'.down = rest) :
    Phase g d opened seen l' := by
  cases h with
  | greeting id data _ _ hsent hack =>
    have hstays : (opened, data) ∈ rest := by
      refine (harrives.taken _ hsent).resolve_right fun htaken => ?_
      exact hnoack data id htaken hack
    refine .greeting id data hconnected' (.inr ?_) (hdown ▸ hstays) hack
    rw [hpolled]
    exact (harrives.kept _ hstays).2.le
  | beating first last hwas _ _ _ _ =>
    rw [hconnected] at hwas
    cases hwas

/-- A poll in silence: the clock has counted the time. -/
theorem Phase.counts {seen t : ℚ} (h : Phase g d opened seen l) (hconnected : l.net.connected = true)
    (hconnected' : l'.net.connected = true) (hpolled : l'.polled = t)
    (hadded : l'.net.heartbeatAccum = l.net.heartbeatAccum + (t - l.polled))
    (haccum : l'.net.heartbeatAccum < heartbeatInterval)
    (hold : ∀ y ∈ beats l.up, y ∈ beats l'.up) : Phase g d opened seen l' := by
  cases h with
  | greeting id data hnot _ _ _ =>
    rw [hnot] at hconnected
    cases hconnected
  | beating first last _ hbegun hpulse hclock _ =>
    refine .beating first last hconnected' hbegun ?_ ?_ haccum
    · exact hpulse.arrive le_rfl fun y hy => .inl (hold y hy)
    · rw [hpolled]
      linarith

/-- A poll that sends a heartbeat: the first one answers the ConnectAck in time, each
later one comes before the gap is over. -/
theorem Phase.sounds {seen t : ℚ} (h : Phase g d opened seen l) (hg : g ≤ heartbeatInterval)
    (hfirst : 2 * d + g + 1 / clocksPerSec ≤ heartbeatTimeout) (ht : OnTime g d l t)
    (hconnected' : l'.net.connected = true) (hpolled : l'.polled = t)
    (hpositive : 0 ≤ l'.net.heartbeatAccum) (haccum : l'.net.heartbeatAccum < heartbeatInterval)
    (hold : ∀ y ∈ beats l.up, y ∈ beats l'.up) (hnew : t ∈ beats l'.up) : Phase g d opened seen l' := by
  have hpolls := ht.polls
  have hclock' : l'.polled - t ≤ l'.net.heartbeatAccum := by linarith
  cases h with
  | greeting id data _ hlate _ _ =>
    have hbegun : t + d ≤ opened + (heartbeatTimeout - 1 / clocksPerSec) := by
      have hnext := (pulse_bound hg hfirst).2
      have hinterval : heartbeatInterval = 2 := rfl
      rcases hlate with hlate | hlate <;> linarith
    exact .beating t t hconnected' hbegun (.start _ _ hnew) hclock' haccum
  | beating first last _ hbegun hpulse hclock hwas =>
    exact .beating first t hconnected' hbegun (hpulse.beat (by linarith) hold hnew) hclock' haccum

/-- A poll: the ConnectAck comes in time, and the next heartbeat before the gap is over. -/
theorem Healthy.poll (h : Healthy p g d opened l) (hg : g ≤ heartbeatInterval)
    (hfirst : 2 * d + g + 1 / clocksPerSec ≤ heartbeatTimeout)
    {t : ℚ} (ht : OnTime g d l t) {waiting : List HostEvent} {rest : List (ℚ × List UInt8)}
    (harrives : Arrives d l t waiting rest) {net : NetClient} {sent : List Sent}
    (hpoll : poll l.net (t - l.polled) waiting = some (net, sent)) :
    Healthy p g d opened { l with
      now := t, net := net, polled := t, up := l.up ++ stamp t (reliable sent), down := rest } := by
  obtain ⟨info, seen, hseat, hmark, hnonneg, hopened, hpast, hphase⟩ := h.seat
  have hforward := ht.forward
  have hpolls := ht.polls
  have hpolled := h.polled
  have hbenign : ∀ e ∈ waiting, Benign e := by
    intro e he
    cases e with
    | connect => trivial
    | disconnect => exact harrives.alive he
    | receive data => exact h.benign data (harrives.sent data he)
  obtain ⟨hclient, hpeer, hbeats, hcases⟩ := poll_beats h.client h.peer hbenign hphase.accum
    (by linarith) (by linarith) hpoll
  refine ⟨hclient, hpeer, le_rfl, ?_, ?_, info, seen, hseat, hmark, hnonneg, hopened,
    hpast.trans hforward, ?_⟩
  · rintro data (hdata | ⟨s, hdata⟩)
    · exact h.benign data (.inl hdata)
    · exact h.benign data (.inr ⟨s, (harrives.kept _ hdata).1⟩)
  · intro m hm
    rcases List.mem_append.mp hm with hm | hm
    · obtain ⟨hsent, htype⟩ := h.uplink m hm
      exact ⟨hsent.trans hforward, htype⟩
    · obtain ⟨data, hdata, rfl⟩ := List.mem_map.mp hm
      exact ⟨le_rfl, by simp [reliable_beats hbeats data hdata]⟩
  · have hold : ∀ y ∈ beats l.up, y ∈ beats (l.up ++ stamp t (reliable sent)) := by
      intro y hy
      rw [beats_append]
      exact List.mem_append_left _ hy
    rcases hcases with ⟨hconnected', hconnected, hnoack⟩ | ⟨hconnected', haccum', hcases⟩
    · exact hphase.waits harrives hconnected hnoack hconnected' rfl rfl
    · rcases hcases with ⟨hwas, hadded⟩ | ⟨hsent, hpositive⟩
      · exact hphase.counts hwas hconnected' rfl hadded haccum' hold
      · refine hphase.sounds hg hfirst ht hconnected' rfl hpositive haccum' hold ?_
        rw [beats_append]
        exact List.mem_append_right _ (mem_beats_stamp hbeats hsent t)

/-- The link is healthy when the server has taken the CONNECT. -/
theorem Opened.healthy (h : Opened p g l) : Healthy p g d l.now l := by
  obtain ⟨s, hserver, hdown⟩ := h.connect
  have hack : packetsFor p .reliable (handleConnect (getTime l.now) p s).2 =
      [msgEntity.encode ⟨MessageType.connectAck.code, s.nextEntityId⟩] := by
    have hothers : packetsFor p .reliable (Server.broadcastPlayerConnect
        (s.players.insert p (Server.newcomer (getTime l.now) s)) s.nextEntityId p) = [] := by
      rw [List.eq_nil_iff_forall_not_mem]
      intro data hdata
      obtain ⟨channel, hmem⟩ := mem_packetsFor hdata
      exact (Server.mem_broadcastEntity hmem).1 rfl
    simp only [handleConnect, Server.sendConnectAck, List.cons_append, List.nil_append, packetsFor,
      List.filterMap_cons, and_self, if_true]
    exact congrArg _ hothers
  have hparse := ServerMessage.parse_entity .connectAck s.nextEntityId (by decide)
  refine ⟨h.client, h.peer, h.polled.1, ?_, by simp [h.idle.1], ?_⟩
  · rintro data (hdata | ⟨sent, hdata⟩)
    · rw [h.idle.2] at hdata
      cases hdata
    · rw [hdown, hack] at hdata
      obtain ⟨-, rfl⟩ := Prod.mk.inj (List.mem_singleton.mp hdata)
      rw [hparse]
      simp [ServerMessage.ofEntity]
  · refine ⟨Server.newcomer (getTime l.now) s, l.now, ?_, rfl, h.started, le_rfl, le_rfl, ?_⟩
    · rw [hserver]
      exact OrderedMap.find?_insert_self _ _ _
    · refine .greeting s.nextEntityId _ h.greeting (.inl h.polled.1) ?_ hparse
      rw [hdown, hack]
      exact List.mem_singleton_self _

/-- Every step of a link on schedule keeps it healthy. -/
theorem Healthy.step (h : Healthy p g d opened l) (hg : g ≤ heartbeatInterval)
    (hfirst : 2 * d + g + 1 / clocksPerSec ≤ heartbeatTimeout)
    (hs : Step p g d l l') : Healthy p g d opened l' := by
  cases hs with
  | poll ht harrives hpoll => exact h.poll hg hfirst ht harrives hpoll
  | fire id ht =>
    refine h.sends ht ⟨rfl, rfl, rfl, rfl⟩ fun data hdata => ?_
    simp [reliable_sendFireEvent data hdata]
  | snapshot snap ht =>
    refine h.sends ht ?_ (by simp [reliable_sendPlayerSnapshot])
    unfold sendPlayerSnapshot
    split <;> exact ⟨rfl, rfl, rfl, rfl⟩
  | handle ht hup hstep =>
    rename_i t before after m s acts
    obtain ⟨info, hseat, hfresh⟩ := h.alive hg hfirst ht
    have hm : m ∈ l.up := by simp [hup]
    have he : Event.Spares p (getTime t) (.receive p m.2 (getTime t)) :=
      ⟨rfl, fun _ => (h.uplink m hm).2⟩
    refine h.served ht hseat hfresh he hstep ?_ ?_
    · intro m' hm'
      rw [hup]
      rcases List.mem_append.mp hm' with hm' | hm'
      · exact List.mem_append_left _ hm'
      · exact List.mem_append_right _ (List.mem_cons_of_mem _ hm')
    · intro m' hm'
      rw [hup] at hm'
      rcases List.mem_append.mp hm' with hm' | hm'
      · exact .inl (List.mem_append_left _ hm')
      · rcases List.mem_cons.mp hm' with rfl | hm'
        · exact .inr rfl
        · exact .inl (List.mem_append_right _ hm')
  | serve ht he hstep =>
    obtain ⟨info, hseat, hfresh⟩ := h.alive hg hfirst ht
    exact h.served ht hseat hfresh he hstep (fun _ hm => hm) fun _ hm => .inl hm

end

/-- From the CONNECT on, in every schedule with polls at most `g` apart and every reliable
message at most `d` on its way, the player is registered and no sweep removes it. The bounds
leave one tick of the clock to spare, and with them
`heartbeatInterval + g + d ≤ heartbeatTimeout` holds by itself. -/
theorem healthy_never_timed_out (p : Peer) (g d : ℚ) (hg : g ≤ heartbeatInterval)
    (hfirst : 2 * d + g + 1 / clocksPerSec ≤ heartbeatTimeout)
    (l₀ l : Link) (hopened : Opened p g l₀) (hrun : Relation.ReflTransGen (Step p g d) l₀ l) :
    p ∈ l.server.players.keys ∧ ∀ t, OnTime g d l t →
      ∀ id, .removed p id ∉ (checkTimeouts (getTime t) l.server.players).2 := by
  have hhealthy : Healthy p g d l₀.now l := by
    induction hrun with
    | refl => exact hopened.healthy
    | tail _ hs ih => exact ih.step hg hfirst hs
  obtain ⟨info, seen, hseat, -⟩ := hhealthy.seat
  refine ⟨?_, fun t ht => ?_⟩
  · rw [OrderedMap.mem_keys, hseat]
    rfl
  · obtain ⟨info, hseat, hfresh⟩ := hhealthy.alive hg hfirst ht
    exact (Server.checkTimeouts_spares hfresh hseat).2

/-- Pointer 1 right after its CONNECT at time `t`, with the last poll at time `polled`. -/
def opening (t polled : ℚ) : Link where
  now := t
  server := (handleConnect (getTime t) 1 (Server.start 0)).1
  net := { client := true, peer := true }
  polled := polled
  up := []
  down := stamp t (packetsFor 1 .reliable (handleConnect (getTime t) 1 (Server.start 0)).2)
  loose := []

/-- The client when it has taken the ConnectAck. -/
def welcomed (accum : ℚ) : NetClient where
  client := true
  peer := true
  connected := true
  netEntityId := 1
  heartbeatAccum := accum

/-- A poll that takes all there is. -/
theorem Arrives.all (d : ℚ) (l : Link) (t : ℚ) :
    Arrives d l t (l.down.map fun m => .receive m.2) [] := by
  refine ⟨by simp, fun data hdata => .inr ?_, by simp, fun m hm => .inr ?_⟩
  · obtain ⟨m, hm, heq⟩ := List.mem_map.mp hdata
    cases heq
    exact ⟨m.1, hm⟩
  · exact List.mem_map_of_mem hm

/-- A poll that takes nothing, while the client waits for its ConnectAck. -/
theorem Step.idle {p : Peer} {g d t : ℚ} {l : Link} (ht : OnTime g d l t)
    (hconnected : l.net.connected = false) (hdown : ∀ m ∈ l.down, t < m.1 + d) :
    Step p g d l { l with now := t, polled := t } := by
  have harrives : Arrives d l t [] l.down :=
    ⟨by simp, by simp, fun m hm => ⟨hm, hdown m hm⟩, fun m hm => .inl hm⟩
  have hpoll : Net.poll l.net (t - l.polled) [] = some (l.net, []) := by
    simp [Net.poll, drain, hconnected]
  have hstep : Step p g d l _ := .poll ht harrives hpoll
  simpa [reliable, stamp] using hstep

/-- The ConnectAck is polled after half a second. -/
theorem healthy_never_timed_out_greeted : ∃ l, Relation.ReflTransGen (Step 1 1 1) (opening 0 0) l ∧
    l.net = welcomed (1 / 2) ∧ 1 ∈ l.server.players.keys ∧ ∀ t, OnTime 1 1 l t →
      ∀ id, .removed 1 id ∉ (checkTimeouts (getTime t) l.server.players).2 := by
  have hopened : Opened 1 1 (opening 0 0) := by
    refine ⟨⟨Server.start 0, rfl, rfl⟩, rfl, rfl, rfl, le_rfl, ?_, rfl, rfl⟩
    decide +kernel
  have htime : OnTime 1 1 (opening 0 0) (1 / 2) :=
    ⟨by decide +kernel, by decide +kernel, by simp [opening]⟩
  have hpoll : poll (opening 0 0).net (1 / 2 - (opening 0 0).polled)
      ((opening 0 0).down.map fun m => .receive m.2) = some (welcomed (1 / 2), [beat]) := by
    decide +kernel
  have hrun : Relation.ReflTransGen (Step 1 1 1) (opening 0 0) _ :=
    .single (.poll htime (.all _ _ _) hpoll)
  exact ⟨_, hrun, rfl, healthy_never_timed_out 1 1 1 (by decide +kernel) (by decide +kernel)
    (opening 0 0) _ hopened hrun⟩

/-- A CONNECT just before the tick 6005, and a poll at time `t` with the ConnectAck still on its
way. -/
def unanswered (t : ℚ) : Link := { opening 6.0049 6.0048 with now := t, polled := t }

/-- The ConnectAck came with the third poll. -/
def answered : Link := { unanswered 12.0048 with
  net := welcomed 0
  up := stamp 12.0048 (reliable [beat, beat])
  down := [] }

/-- With nothing to spare a player can go. The CONNECT is read as tick 6004 and the sweep as
tick 16004, and the difference of the two readings as doubles is just above ten seconds. -/
theorem healthy_timed_out_rounded : (2 : ℚ) ≤ heartbeatInterval ∧ 2 * 4 + 2 ≤ heartbeatTimeout ∧
    heartbeatInterval + 2 + 4 ≤ heartbeatTimeout ∧
    Opened 1 2 (opening 6.0049 6.0048) ∧
    ∃ l, Relation.ReflTransGen (Step 1 2 4) (opening 6.0049 6.0048) l ∧ OnTime 2 4 l 16.0048 ∧
      .removed 1 1 ∈ (checkTimeouts (getTime 16.0048) l.server.players).2 := by
  refine ⟨by decide +kernel, by decide +kernel, by decide +kernel, ?_, ?_⟩
  · refine ⟨⟨Server.start 0, rfl, rfl⟩, rfl, rfl, rfl, ?_, ?_, rfl, rfl⟩ <;> decide +kernel
  · have hfirst : Step 1 2 4 (opening 6.0049 6.0048) (unanswered 8.0048) := by
      refine .idle ⟨?_, ?_, ?_⟩ rfl ?_ <;> decide +kernel
    have hsecond : Step 1 2 4 (unanswered 8.0048) (unanswered 10.0048) := by
      refine .idle ⟨?_, ?_, ?_⟩ rfl ?_ <;> decide +kernel
    have htaken : poll (unanswered 10.0048).net (12.0048 - 10.0048)
        ((unanswered 10.0048).down.map fun m => .receive m.2) = some (welcomed 0, [beat, beat]) := by
      decide +kernel
    have hthird : Step 1 2 4 (unanswered 10.0048) answered := by
      refine .poll ⟨?_, ?_, ?_⟩ (.all _ _ _) htaken <;> decide +kernel
    have hbeat : poll answered.net (14.0048 - 12.0048) [] = some (welcomed 0, [beat]) := by
      decide +kernel
    have hfourth : Step 1 2 4 answered _ :=
      .poll ⟨by decide +kernel, by decide +kernel, by decide +kernel⟩ (.all _ _ _) hbeat
    refine ⟨_, .tail (.tail (.tail (.single hfirst) hsecond) hthird) hfourth, ⟨?_, ?_, ?_⟩, ?_⟩ <;>
      decide +kernel

end Fnvmp.HealthyLink
