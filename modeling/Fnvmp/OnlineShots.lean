import Fnvmp.FireRuns
import Fnvmp.Online

/-!
# Shots over the links

Seen from the queues of the relay of shots, the whole system takes the relay's steps: a link is
what the relay takes a connection for. So every shot is heard once and in order, whatever the
network does. The relay forgets a connection at the DISCONNECT event, so what a client hears
after it is told by a run of the relay that ends with this client.
-/

namespace Fnvmp.Online

open PackedCodec ExactFloat Protocol Server Net Delivery Detection Enet

/-! ## What a shot depends on -/

/-- Two clients that do not differ in what they do with shots. -/
structure Agrees (c d : NetClient) : Prop where
  client : c.client = d.client
  peer : c.peer = d.peer
  connected : c.connected = d.connected
  netEntityId : c.netEntityId = d.netEntityId
  fireEvents : c.fireEvents = d.fireEvents

variable {c c' d e : NetClient}

theorem Agrees.trans (h : Agrees c d) (h' : Agrees d e) : Agrees c e :=
  ⟨h.client.trans h'.client, h.peer.trans h'.peer, h.connected.trans h'.connected,
    h.netEntityId.trans h'.netEntityId, h.fireEvents.trans h'.fireEvents⟩

theorem Agrees.sendFireEvent (h : Agrees c d) (id : UInt32) :
    sendFireEvent c id = sendFireEvent d id := by
  unfold Net.sendFireEvent send
  rw [h.connected, h.peer]

theorem Agrees.handleEvent (h : Agrees c d) {e : Net.HostEvent} {sent : List Sent}
    (hs : handleEvent c e = some (c', sent)) :
    ∃ d' sent', handleEvent d e = some (d', sent') ∧ Agrees c' d' := by
  cases e with
  | connect =>
    cases hs
    exact ⟨d, [], rfl, h⟩
  | disconnect =>
    cases hs
    exact ⟨_, [], rfl, h.client, rfl, rfl, rfl, h.fireEvents⟩
  | receive data =>
    rw [Net.handleEvent, Net.handleReceive_eq] at hs ⊢
    cases hparse : ServerMessage.parse data with
    | none =>
      rw [hparse] at hs
      cases hs
      exact ⟨d, [], rfl, h⟩
    | some m =>
      rw [hparse] at hs
      refine ⟨_, _, rfl, ?_⟩
      cases m with
      | connectAck id =>
        cases hs
        exact ⟨h.client, h.peer, rfl, rfl, h.fireEvents⟩
      | disconnect =>
        cases hs
        exact ⟨h.client, h.peer, rfl, rfl, h.fireEvents⟩
      | worldSnapshot entities | playerConnect id | playerDisconnect id =>
        cases hs
        exact ⟨h.client, h.peer, h.connected, h.netEntityId, h.fireEvents⟩
      | remoteFire id =>
        cases hs
        exact ⟨h.client, h.peer, h.connected, h.netEntityId,
          congrArg (fun events => events ++ [id]) h.fireEvents⟩

theorem Agrees.drain (h : Agrees c d) {waiting : List Net.HostEvent} {sent : List Sent}
    (hs : drain c waiting = some (c', sent)) :
    ∃ d' sent', drain d waiting = some (d', sent') ∧ Agrees c' d' := by
  induction waiting generalizing c d sent with
  | nil =>
    cases hs
    exact ⟨d, [], rfl, h⟩
  | cons e waiting ih =>
    obtain ⟨⟨mid, first⟩, hfirst, hrest⟩ := Option.bind_eq_some_iff.mp hs
    obtain ⟨⟨last, rest⟩, hlast, heq⟩ := Option.map_eq_some_iff.mp hrest
    cases heq
    obtain ⟨mid', first', hfirst', hmid⟩ := h.handleEvent hfirst
    obtain ⟨last', rest', hlast', hagrees⟩ := ih hmid hlast
    exact ⟨last', first' ++ rest', by simp [Net.drain, hfirst', hlast'], hagrees⟩

/-- The heartbeat of a poll is of no account. -/
theorem Agrees.poll (h : Agrees c d) {dt : ℚ} {waiting : List Net.HostEvent} {sent : List Sent}
    (hs : poll c dt waiting = some (c', sent)) :
    ∃ d' sent', poll d dt waiting = some (d', sent') ∧ Agrees c' d' := by
  unfold Net.poll at hs ⊢
  rw [← h.client]
  split at hs
  · rename_i hclosed
    cases hs
    exact ⟨d, [], if_pos hclosed, h⟩
  rename_i hopen
  rw [if_neg hopen]
  obtain ⟨⟨mid, first⟩, hdrain, heq⟩ := Option.map_eq_some_iff.mp hs
  obtain ⟨mid', first', hdrain', hmid⟩ := h.drain hdrain
  have hsame : Agrees c' mid := by
    dsimp only at heq
    split at heq
    · split at heq
      · cases heq
        exact ⟨rfl, rfl, rfl, rfl, rfl⟩
      · cases heq
        exact ⟨rfl, rfl, rfl, rfl, rfl⟩
    · cases heq
      exact ⟨rfl, rfl, rfl, rfl, rfl⟩
  have hlast := hsame.trans hmid
  rw [hdrain', Option.map_some]
  dsimp only
  split
  · split <;> exact ⟨_, _, rfl, hlast.trans ⟨rfl, rfl, rfl, rfl, rfl⟩⟩
  · exact ⟨_, _, rfl, hlast.trans ⟨rfl, rfl, rfl, rfl, rfl⟩⟩

/-! ## The game events of a frame -/

theorem reliableOn_eq_nil {α : Type} {channelID : ℕ} {posts : List (Post α)}
    (h : ∀ p ∈ posts, p.channelID ≠ channelID) : reliableOn channelID posts = [] := by
  simp only [reliableOn, List.map_eq_nil_iff, List.filter_eq_nil_iff, decide_eq_true_eq]
  exact fun p hp hroute => h p hp hroute.2

theorem detectAction_fires (x : Expressions) (net : NetClient) (w : Engine.World) (player : Player)
    (s : Sender) : (detectAction x net w player s).2 = [] ∨
      (detectAction x net w player s).2 = sendFireEvent net net.netEntityId := by
  unfold detectAction
  split
  · dsimp only
    split
    · exact .inr rfl
    · exact .inl rfl
  · exact .inl rfl

theorem fired_posts (net : NetClient) (id : UInt32) :
    reliableOn Channel.gameEvents.code ((sendFireEvent net id).map post) =
      (sendFireEvent net id).map Sent.data := by
  unfold sendFireEvent send
  split
  · split <;> rfl
  · rfl

/-- A snapshot goes on another channel and is of no account. -/
theorem Agrees.sendSnapshot (x : Expressions) (net : NetClient) (w : Engine.World)
    (player : Player) (libm : Libm FloatVal) (dt : ℚ) (s : Sender) :
    Agrees (sendSnapshot x net w player libm dt s).2.1 net ∧
      ∀ p ∈ (sendSnapshot x net w player libm dt s).2.2, p.channel = .unreliable := by
  have hsend : ∀ snapshot, Agrees (sendPlayerSnapshot net snapshot).1 net ∧
      ∀ p ∈ (sendPlayerSnapshot net snapshot).2, p.channel = .unreliable := by
    intro snapshot
    unfold sendPlayerSnapshot send
    split
    · refine ⟨⟨rfl, rfl, rfl, rfl, rfl⟩, fun p hp => ?_⟩
      dsimp only at hp
      split at hp
      · exact List.mem_singleton.mp hp ▸ rfl
      · cases hp
    · exact ⟨⟨rfl, rfl, rfl, rfl, rfl⟩, by simp⟩
  unfold Detection.sendSnapshot
  split
  · dsimp only
    split
    · exact hsend _
    · exact ⟨⟨rfl, rfl, rfl, rfl, rfl⟩, by simp⟩
  · exact ⟨⟨rfl, rfl, rfl, rfl, rfl⟩, by simp⟩

theorem sendFrame_fires (x : Expressions) (libm : Libm FloatVal) (state : NetClient × Sender)
    (t : Moment) : Agrees (sendFrame x libm state t).1.1 state.1 ∧
      (reliableOn Channel.gameEvents.code ((sendFrame x libm state t).2.map post) = [] ∨
        reliableOn Channel.gameEvents.code ((sendFrame x libm state t).2.map post) =
          (sendFireEvent state.1 state.1.netEntityId).map Sent.data) := by
  obtain ⟨net, s⟩ := state
  obtain ⟨hsame, hsnapshots⟩ := Agrees.sendSnapshot x net t.world t.player libm t.dt
    (detectAction x net t.world t.player s).1
  refine ⟨hsame, ?_⟩
  have hquiet : reliableOn Channel.gameEvents.code ((sendSnapshot x net t.world t.player libm t.dt
      (detectAction x net t.world t.player s).1).2.2.map post) = [] := by
    refine reliableOn_eq_nil fun p hp => ?_
    obtain ⟨q, hq, rfl⟩ := List.mem_map.mp hp
    simp only [post, hsnapshots q hq]
    decide
  have hsplit : (sendFrame x libm (net, s) t).2 = (detectAction x net t.world t.player s).2 ++
      (sendSnapshot x net t.world t.player libm t.dt (detectAction x net t.world t.player s).1).2.2 :=
    rfl
  rw [hsplit, List.map_append, reliableOn_append, hquiet, List.append_nil]
  rcases detectAction_fires x net t.world t.player s with hnone | hone
  · exact .inl (by rw [hnone]; rfl)
  · exact .inr (by rw [hone, fired_posts])

/-- A frame polls, takes the shots that it was told of, and fires at most once. -/
theorem frame_fires {x : Expressions} {libm : Libm FloatVal} {g g' : Game} {t : Tick}
    {sent : List Sent} (h : mainGameLoop x libm g t = some (g', sent)) :
    ∃ net received, Net.poll g.plugin.net t.frame.dt t.frame.waiting = some (net, received) ∧
      Agrees g'.plugin.net (takeFireEvents net).1 ∧
      (reliableOn Channel.gameEvents.code (sent.map post) = [] ∨
        reliableOn Channel.gameEvents.code (sent.map post) =
          (sendFireEvent (takeFireEvents net).1 net.netEntityId).map Sent.data) := by
  obtain ⟨plugin, received, hframe, hstate, rfl⟩ := mainGameLoop_cases x h
  obtain ⟨net, hpoll, -, hnet⟩ := Client.frame_cases hframe
  have hplugin : Agrees plugin.net (takeFireEvents net).1 := by
    rw [hnet]
    exact ⟨rfl, rfl, rfl, rfl, rfl⟩
  obtain ⟨hsame, hfires⟩ := sendFrame_fires x libm (plugin.net, g.sender) t.moment
  rw [← hstate] at hsame
  have hbeats : ∀ p ∈ received, p = heartbeat :=
    (Identified.poll (P := fun _ => True) (fun _ => trivial) (fun _ _ _ _ => trivial) hpoll).2
  have hquiet : reliableOn Channel.gameEvents.code (received.map post) = [] := by
    refine reliableOn_eq_nil fun p hp => ?_
    obtain ⟨q, hq, rfl⟩ := List.mem_map.mp hp
    rw [hbeats q hq]
    decide
  refine ⟨net, received, hpoll, hsame.trans hplugin, ?_⟩
  rw [List.map_append, reliableOn_append, hquiet, List.nil_append]
  rw [hplugin.sendFireEvent, hplugin.netEntityId] at hfires
  exact hfires

/-! ## The relay beside the system -/

/-- A connection of the system and the relay's account of it. -/
structure Carries (c : Connection) (s : FireRelay.Session) : Prop where
  fired : s.fired = reliableOn Channel.gameEvents.code c.up.sent
  handled : s.handled = (reliableOn Channel.gameEvents.code c.up.handed).length
  sent : s.sent = c.down.sent.map unpost
  got : s.got = c.down.handed.map unpost
  net : ∀ g, c.game = some g → Agrees g.plugin.net s.net

def Mirrored (connections : Peer → Option Connection) (sessions : Peer → Option FireRelay.Session) :
    Prop := ∀ p, Option.Rel Carries (connections p) (sessions p)

/-- The connections of the server's pointers. -/
def served (connections : Place → Option Connection) : Peer → Option Connection :=
  fun p => connections (.peer p)

structure Refines (w : System) (l : FireRelay.System) : Prop where
  server : l.server = w.server
  ids : l.ids = w.ids
  sessions : Mirrored (served w.connections) l.sessions

/-- A run of the relay that tells of this connection. -/
def Ended (now : ℚ) (ids : List UInt32) (c : Connection) : Prop :=
  ∃ l p s, Relation.ReflTransGen FireRelay.Step (FireRelay.start now) l ∧
    l.sessions p = some s ∧ Carries c s ∧ l.ids <+: ids

/-- A run of the relay for the server and its pointers, and one for every client given up. -/
structure Accounted (now : ℚ) (w : System) (l : FireRelay.System) : Prop where
  run : Relation.ReflTransGen FireRelay.Step (FireRelay.start now) l
  refines : Refines w l
  former : ∀ n c, w.connections (.former n) = some c → Ended now w.ids c

theorem served_update (connections : Place → Option Connection) (p : Peer)
    (o : Option Connection) : served (Function.update connections (.peer p) o) =
      Function.update (served connections) p o := by
  funext q
  by_cases hq : q = p
  · subst hq
    rw [served, Function.update_self, Function.update_self]
  · rw [served, Function.update_of_ne (by simpa using hq), Function.update_of_ne hq, served]

theorem served_update_former (connections : Place → Option Connection) (n : ℕ)
    (o : Option Connection) : served (Function.update connections (.former n) o) =
      served connections := by
  funext q
  rw [served, Function.update_of_ne (by simp), served]

theorem served_dismiss (connections : Place → Option Connection) (p : Peer) (n : ℕ) :
    served (dismiss p n connections) = Function.update (served connections) p none := by
  rw [dismiss, served_update, served_update_former]

variable {connections : Peer → Option Connection} {sessions : Peer → Option FireRelay.Session}

theorem Mirrored.update (h : Mirrored connections sessions) (p : Peer) {o : Option Connection}
    {o' : Option FireRelay.Session} (ho : Option.Rel Carries o o') :
    Mirrored (Function.update connections p o) (Function.update sessions p o') := by
  intro q
  by_cases hq : q = p
  · subst hq
    rwa [Function.update_self, Function.update_self]
  · rw [Function.update_of_ne hq, Function.update_of_ne hq]
    exact h q

/-- What the server sends goes on the link as on the queue. -/
theorem Mirrored.deliver {places : Place → Option Connection} (h : Mirrored (served places) sessions)
    (hdown : ∀ place c, places place = some c → Reaches numChannels c.down) (acts : List Action) :
    Mirrored (served (deliver acts places)) (FireRelay.deliver acts sessions) := by
  intro p
  have hp := h p
  have hreaches := hdown (.peer p)
  rw [served] at hp
  rw [served, deliver_peer, FireRelay.deliver]
  generalize places (.peer p) = o at hp hreaches
  generalize sessions p = o' at hp
  cases hp with
  | none => exact .none
  | @some c s hcarries =>
    have hchannel : ∀ x ∈ postsTo p acts, x.channelID < numChannels := by
      intro x hx
      obtain ⟨channel, data, flag, -, rfl⟩ := mem_postsTo hx
      exact channel.code_lt
    obtain ⟨-, hsent, hhanded, -⟩ := sends_add (hreaches c rfl) hchannel
    refine .some ⟨hcarries.fired, hcarries.handled, ?_, ?_, hcarries.net⟩
    · change s.sent ++ packetsTo p acts = ((postsTo p acts).foldl Link.send c.down).sent.map unpost
      rw [hsent, List.map_append, unpost_postsTo, hcarries.sent]
    · change s.got = ((postsTo p acts).foldl Link.send c.down).handed.map unpost
      rw [hhanded, hcarries.got]

/-- The relay's notes are of no account to the system. -/
theorem Mirrored.note (h : Mirrored connections sessions) (players : Players) (p : Peer)
    (shot : Option FireRelay.Shot) :
    Mirrored connections (FireRelay.note players p shot sessions) := by
  intro q
  unfold FireRelay.note
  have hq := h q
  generalize connections q = o at hq
  generalize sessions q = o' at hq
  cases hq with
  | none => exact .none
  | some hcarries =>
    refine .some ?_
    split
    · exact ⟨hcarries.fired, hcarries.handled, hcarries.sent, hcarries.got, hcarries.net⟩
    · exact hcarries

/-- What the host hands over on the game event channel is what the relay has next. -/
theorem Carries.next {c : Connection} {s : FireRelay.Session} (h : Carries c s) (hsound : c.Sound)
    {received : Post (List UInt8)} {rest : List (Post (List UInt8))}
    (hreceived : c.up.receiver.dispatchedCommands = received :: rest)
    (hroute : received.channelID = Channel.gameEvents.code) (hflag : received.flag = .reliable) :
    s.fired[s.handled]? = some received.packet := by
  have hprefix := hsound.up.dispatched_prefix Channel.gameEvents.code
  rw [Link.dispatched, hreceived, ← List.singleton_append, ← List.append_assoc, reliableOn_append,
    reliableOn_append, reliableOn_singleton, if_pos ⟨hflag, hroute⟩] at hprefix
  obtain ⟨more, hmore⟩ := hprefix
  rw [h.fired, h.handled, ← hmore, List.append_assoc, List.append_assoc,
    List.getElem?_append_right (Nat.le_refl _)]
  simp

theorem Told.carried {id : UInt32} {p : Post (List UInt8)} (h : Told id p) : Carried p := by
  obtain ⟨m, -, -, rfl, -⟩ := h
  exact ⟨m.type.channel, rfl, rfl⟩

theorem Mirrored.get (h : Mirrored connections sessions) {p : Peer} {c : Connection}
    (hc : connections p = some c) : ∃ s, sessions p = some s ∧ Carries c s := by
  have hp := h p
  rw [hc] at hp
  generalize sessions p = o at hp
  cases hp with
  | some hcarries => exact ⟨_, rfl, hcarries⟩

/-- Of a connection the relay sees no more than this. -/
theorem Carries.replace {c c' : Connection} {s : FireRelay.Session} (h : Carries c s)
    (hup : reliableOn Channel.gameEvents.code c'.up.sent =
      reliableOn Channel.gameEvents.code c.up.sent)
    (hhandled : reliableOn Channel.gameEvents.code c'.up.handed =
      reliableOn Channel.gameEvents.code c.up.handed)
    (hdown : c'.down.sent = c.down.sent) (hgot : c'.down.handed = c.down.handed)
    (hgame : ∀ g, c'.game = some g → c.game = some g) : Carries c' s :=
  ⟨by rw [hup, h.fired], by rw [hhandled, h.handled], by rw [hdown, h.sent],
    by rw [hgot, h.got], fun g hg => h.net g (hgame g hg)⟩

/-- A client polls, takes its shots, and may fire. -/
theorem relay_frame {l : FireRelay.System} {p : Peer} {s : FireRelay.Session} {dt : ℚ}
    {waiting : List Net.HostEvent} {arrivals : List (Channel × List UInt8)} {net : NetClient}
    {sent : List Sent} (hs : l.sessions p = some s) (harrive : Delivers s.sent (s.got ++ arrivals))
    (hwaiting : waiting.filterMap packet = arrivals.map Prod.snd)
    (hpoll : Net.poll s.net dt waiting = some (net, sent)) {fired : List (List UInt8)} {id : UInt32}
    (hfired : fired = [] ∨ fired = (sendFireEvent (takeFireEvents net).1 id).map Sent.data) :
    ∃ l', Relation.ReflTransGen FireRelay.Step l l' ∧ l'.server = l.server ∧ l'.ids = l.ids ∧
      l'.sessions = Function.update l.sessions p (some { s with
        net := (takeFireEvents net).1
        got := s.got ++ arrivals
        taken := s.taken ++ net.fireEvents
        fired := s.fired ++ fired }) := by
  have hpolled := Relation.ReflTransGen.single (FireRelay.Step.poll hs harrive hwaiting hpoll)
  have htaken := hpolled.tail (FireRelay.Step.take (Function.update_self ..))
  rcases hfired with rfl | rfl
  · refine ⟨_, htaken, rfl, rfl, ?_⟩
    rw [List.append_nil]
    exact Function.update_idem ..
  · have hdone := htaken.tail (FireRelay.Step.fire id (Function.update_self ..))
    refine ⟨_, hdone, rfl, rfl, ?_⟩
    simp only [FireRelay.System.put, Function.update_idem]
    rfl

/-- The relay takes part in the step of one client, which becomes `c'`. -/
def Follows (l : FireRelay.System) (p : Peer) (c' : Connection) : Prop :=
  ∃ l' s', Relation.ReflTransGen FireRelay.Step l l' ∧ l'.server = l.server ∧ l'.ids = l.ids ∧
    l'.sessions = Function.update l.sessions p (some s') ∧ Carries c' s'

theorem Follows.stay {l : FireRelay.System} {p : Peer} {s : FireRelay.Session} {c' : Connection}
    (hs : l.sessions p = some s) (hcarries : Carries c' s) : Follows l p c' :=
  ⟨l, s, .refl, rfl, rfl, by rw [← hs, Function.update_eq_self], hcarries⟩

/-- The steps of the relay for one frame of a game. -/
theorem Carries.frame {c : Connection} {s : FireRelay.Session} (hcarries : Carries c s)
    (hown : c.Sound) {l : FireRelay.System} {p : Peer} (hs : l.sessions p = some s)
    {x : Expressions} {libm : Libm FloatVal} {g g' : Game} {t : Tick} {sent : List Sent} {n : ℕ}
    (hgame : c.game = some g)
    (hwaiting : t.frame.waiting.filterMap packet =
      (c.down.receiver.dispatchedCommands.take n).map Post.packet)
    (hloop : mainGameLoop x libm g t = some (g', sent)) :
    Follows l p (Connection.say { c with
      game := some g'
      down := c.down.run (List.replicate n .receive) } (sent.map post)) := by
  obtain ⟨-, hdown, hhanded⟩ := receives_add hown.down n
  obtain ⟨net, received, hpoll, hagrees, hfires⟩ := frame_fires hloop
  obtain ⟨net', received', hpoll', hagrees'⟩ := (hcarries.net g hgame).poll hpoll
  have hafter : Agrees (takeFireEvents net).1 (takeFireEvents net').1 :=
    ⟨hagrees'.client, hagrees'.peer, hagrees'.connected, hagrees'.netEntityId, rfl⟩
  have harrive : Delivers s.sent (s.got ++ (c.down.receiver.dispatchedCommands.take n).map unpost) := by
    rw [hcarries.sent, hcarries.got, ← List.map_append]
    refine delivers hown.down (fun x hx => (hown.told x hx).carried) ?_
    exact (List.prefix_append_right_inj _).mpr (List.take_prefix _ _)
  have hbytes : t.frame.waiting.filterMap packet =
      ((c.down.receiver.dispatchedCommands.take n).map unpost).map Prod.snd := by
    rw [hwaiting, List.map_map]
    rfl
  rw [hafter.sendFireEvent] at hfires
  obtain ⟨l', hrun, hserver, hids, hsessions⟩ := relay_frame hs harrive hbytes hpoll' hfires
  have hchannel : ∀ x ∈ sent.map post, x.channelID < numChannels := by
    intro x hx
    obtain ⟨q, -, rfl⟩ := List.mem_map.mp hx
    exact q.channel.code_lt
  obtain ⟨-, hup, hhandedUp, -⟩ := sends_add hown.up hchannel
  refine ⟨l', _, hrun, hserver, hids, hsessions, ?_, ?_, ?_, ?_, ?_⟩
  · change _ = reliableOn _ ((sent.map post).foldl Link.send c.up).sent
    rw [hup, reliableOn_append, hcarries.fired]
  · change _ = (reliableOn _ ((sent.map post).foldl Link.send c.up).handed).length
    rw [hhandedUp]
    exact hcarries.handled
  · change _ = (c.down.run _).sent.map unpost
    rw [hdown]
    exact hcarries.sent
  · change _ = (c.down.run _).handed.map unpost
    rw [hhanded, List.map_append, ← hcarries.got]
  · rintro g'' ⟨⟩
    exact hagrees.trans hafter

/-- Leaving puts nothing on the game event channel. -/
theorem Carries.leave {c : Connection} {s : FireRelay.Session} (hcarries : Carries c s)
    (hown : c.Sound) (g : Game) (hosts : List (Option Net.HostEvent)) :
    Carries (Connection.say { c with game := none } (farewell g hosts)) s := by
  have hchannel : ∀ x ∈ farewell g hosts, x.channelID < numChannels :=
    fun x hx => (said_farewell g hosts c.id x hx).channel
  obtain ⟨-, hsent, hhanded, -⟩ := sends_add hown.up hchannel
  have hquiet : reliableOn Channel.gameEvents.code (farewell g hosts) = [] := by
    refine reliableOn_eq_nil fun x hx => ?_
    rw [mem_farewell hx]
    decide
  refine hcarries.replace ?_ ?_ rfl rfl fun _ => nofun
  · change reliableOn _ ((farewell g hosts).foldl Link.send c.up).sent = _
    rw [hsent, reliableOn_append, hquiet, List.append_nil]
  · change reliableOn _ ((farewell g hosts).foldl Link.send c.up).handed = _
    rw [hhanded]

/-- The step of the relay for one packet that the server handles. -/
theorem refines_serve {w : System} {l : FireRelay.System} (h : Refines w l) (hsound : Sound w)
    {p : Peer} {c : Connection} {received : Post (List UInt8)} {rest : List (Post (List UInt8))}
    {now : ℚ} {server : State} {acts : List Action} (hc : w.connections (.peer p) = some c)
    (hreceived : c.up.receiver.dispatchedCommands = received :: rest)
    (hs : Server.step w.server (.receive p received.packet now) = some (server, acts)) :
    ∃ l', Relation.ReflTransGen FireRelay.Step l l' ∧ Refines ⟨server, w.ids, deliver acts
      (Function.update w.connections (.peer p) (some { c with up := c.up.step .receive })),
        w.log⟩ l' := by
  have hdown : ∀ place c, w.connections place = some c → Reaches numChannels c.down :=
    fun place c hc => (hsound.connection place c hc).down
  obtain ⟨s, hsession, hcarries⟩ := h.sessions.get hc
  have hown := hsound.connection _ c hc
  obtain ⟨hsent, hhanded, -⟩ := receive_adds hreceived
  have hmem : received ∈ c.up.sent := dispatched_subset hown.up
    (by simp [Link.dispatched, hreceived])
  obtain ⟨m, hfits, rfl, -⟩ := hown.said received hmem
  have hdown' : ∀ place d, Function.update w.connections (.peer p)
      (some { c with up := c.up.step .receive }) place = some d → Reaches numChannels d.down :=
    forall_update hdown fun d hd => Option.some.inj hd ▸ hown.down
  have hplaced : ∀ {sessions : Peer → Option FireRelay.Session}, Mirrored
      (Function.update (served w.connections) p (some { c with up := c.up.step .receive })) sessions →
      Mirrored (served (Function.update w.connections (.peer p)
        (some { c with up := c.up.step .receive }))) sessions := by
    intro sessions hmirrored
    rwa [served_update]
  by_cases hfire : m.type = .playerFire
  · have hnext := hcarries.next hown hreceived (by rw [hfire]; rfl) (by rw [hfire]; rfl)
    refine ⟨_, .single (.handle hsession hnext (h.server ▸ hs)), rfl, h.ids, ?_⟩
    refine (hplaced ((h.sessions.update p (.some ?_)).note _ _ _)).deliver hdown' acts
    refine ⟨?_, ?_, hcarries.sent, hcarries.got, hcarries.net⟩
    · rw [hsent]
      exact hcarries.fired
    · rw [hhanded, reliableOn_append, hcarries.handled, List.length_append,
        reliableOn_singleton, if_pos (by rw [hfire]; exact ⟨rfl, rfl⟩), List.length_singleton]
  · have hkeep : FireRelay.Upkeep (.receive p m.encode now) := fun htype =>
      hfire (Option.some.inj ((packetType_encode hfits).symm.trans htype))
    have hroute : (postOf m.type m.encode).channelID ≠ Channel.gameEvents.code := by
      cases m with
      | heartbeat | disconnect => decide
      | playerSnapshot snapshot => exact Nat.zero_ne_one
      | playerFire id => exact absurd rfl hfire
    have hsame : Carries { c with up := c.up.step .receive } s := by
      refine hcarries.replace ?_ ?_ rfl rfl fun _ => id
      · rw [hsent]
      · rw [hhanded, reliableOn_append, reliableOn_singleton, if_neg fun hboth => hroute hboth.2,
          List.append_nil]
    have hreplaced := h.sessions.update p (Option.Rel.some hsame)
    rw [← hsession, Function.update_eq_self] at hreplaced
    exact ⟨_, .single (.serve hkeep (h.server ▸ hs)), rfl, h.ids,
      (hplaced hreplaced).deliver hdown' acts⟩

section

variable {now : ℚ} {w w' : System} {l : FireRelay.System}

/-- A client's own step, wherever its connection is. -/
theorem Accounted.put (h : Accounted now w l) {place : Place} {c c' : Connection}
    (hc : w.connections place = some c)
    (hstep : ∀ l p s, l.sessions p = some s → Carries c s → Follows l p c') :
    ∃ l', Accounted now (w.put place c') l' := by
  cases place with
  | peer p =>
    obtain ⟨s, hs, hcarries⟩ := h.refines.sessions.get hc
    obtain ⟨l', s', hrun, hserver, hids, hsessions, hcarries'⟩ := hstep l p s hs hcarries
    refine ⟨l', h.run.trans hrun, ⟨hserver.trans h.refines.server, hids.trans h.refines.ids, ?_⟩,
      fun n d hd => ?_⟩
    · rw [hsessions, System.put_connections, served_update]
      exact h.refines.sessions.update p (.some hcarries')
    · rw [System.put_connections, Function.update_of_ne (by simp)] at hd
      exact h.former n d hd
  | former n =>
    refine ⟨l, h.run, ⟨h.refines.server, h.refines.ids, ?_⟩, fun m d hd => ?_⟩
    · rw [System.put_connections, served_update_former]
      exact h.refines.sessions
    · rw [System.put_connections] at hd
      by_cases hm : m = n
      · subst hm
        rw [Function.update_self] at hd
        cases hd
        obtain ⟨l₀, p, s, hrun, hs, hcarries, hids⟩ := h.former m c hc
        obtain ⟨l', s', hmore, -, hids', hsessions, hcarries'⟩ := hstep l₀ p s hs hcarries
        refine ⟨l', p, s', hrun.trans hmore, ?_, hcarries', hids' ▸ hids⟩
        rw [hsessions, Function.update_self]
      · rw [Function.update_of_ne (by simpa using hm)] at hd
        exact h.former m d hd

/-- Every step of the system is a run of the relay. -/
theorem Accounted.step (h : Accounted now w l) (hsound : Sound w) (hstep : Step w w') :
    ∃ l', Accounted now w' l' := by
  have hdown : ∀ place c, w.connections place = some c → Reaches numChannels c.down :=
    fun place c hc => (hsound.connection place c hc).down
  have hput := @Accounted.put now w l h
  obtain ⟨hrun, ⟨hserver, hids, hsessions⟩, hformer⟩ := h
  cases hstep with
  | @connect p g time hfree hnew =>
    have hnone : l.sessions p = none := by
      have hp := hsessions p
      rw [served, hfree] at hp
      generalize l.sessions p = o at hp
      cases hp
      rfl
    have hfresh : Carries (.fresh w.server.nextEntityId g) { player := l.ids.length } := by
      refine ⟨rfl, rfl, rfl, rfl, fun g' hg' => ?_⟩
      cases hg'
      rw [hnew.net]
      exact ⟨rfl, rfl, rfl, rfl, rfl⟩
    have hjoined := hsessions.update p (Option.Rel.some hfresh)
    rw [← served_update] at hjoined
    refine ⟨_, hrun.tail (.connect time hnone), ⟨?_, ?_, ?_⟩, fun n d hd => ?_⟩
    · exact congrArg (fun st => (handleConnect time p st).1) hserver
    · rw [FireRelay.System.join_ids, hids, hserver]
    · rw [FireRelay.System.join_sessions, hserver]
      exact hjoined.deliver (forall_update hdown fun d hd => Option.some.inj hd ▸ .start) _
    · dsimp only at hd
      rw [deliver_former] at hd
      obtain ⟨l₀, q, s, hrun₀, hs, hcarries, hids₀⟩ := hformer n d hd
      exact ⟨l₀, q, s, hrun₀, hs, hcarries, hids₀.trans (List.prefix_append _ _)⟩
  | @pass e server acts he hs =>
    have hkeep : FireRelay.Upkeep e := by
      cases e with
      | checkTimeouts now => trivial
      | broadcast now => trivial
      | connect p now => exact he
      | receive p data now => exact he.elim
      | disconnect p => exact he
    exact ⟨_, hrun.tail (.serve hkeep (hserver ▸ hs)), ⟨rfl, hids, hsessions.deliver hdown acts⟩,
      hformer⟩
  | @gone p n server acts hfree hs =>
    refine ⟨_, hrun.tail (.disconnect (hserver ▸ hs)), ⟨rfl, hids, ?_⟩, fun m d hd => ?_⟩
    · have hgone := hsessions.update p Option.Rel.none
      rw [← served_dismiss (n := n)] at hgone
      exact hgone.deliver (forall_dismiss hdown p n) acts
    · have hd : dismiss p n w.connections (.former m) = some d := hd
      rw [dismiss, Function.update_of_ne (by simp)] at hd
      by_cases hm : m = n
      · subst hm
        rw [Function.update_self] at hd
        obtain ⟨s, hs, hcarries⟩ := hsessions.get hd
        exact ⟨l, p, s, hrun, hs, hcarries, hids ▸ List.prefix_rfl⟩
      · rw [Function.update_of_ne (by simpa using hm)] at hd
        exact hformer m d hd
  | @serve p c received rest time server acts hc hreceived hs =>
    obtain ⟨l', hmore, hrefines⟩ := refines_serve ⟨hserver, hids, hsessions⟩ hsound hc hreceived hs
    refine ⟨l', hrun.trans hmore, hrefines, fun n d hd => ?_⟩
    dsimp only at hd
    rw [deliver_former] at hd
    exact hformer n d hd
  | @networkUp p c e hc he hfresh =>
    obtain ⟨hsent, hhanded⟩ := network_adds c.up he
    exact hput hc fun l q s hs hcarries => .stay hs (hcarries.replace (by rw [hsent]) (by rw [hhanded]) rfl rfl fun _ => id)
  | @networkDown p c e hc he hfresh =>
    obtain ⟨hsent, hhanded⟩ := network_adds c.down he
    exact hput hc fun l q s hs hcarries => .stay hs (hcarries.replace rfl rfl hsent hhanded fun _ => id)
  | @frame p c x libm g g' t sent n hc hgame hwaiting hloop =>
    have hown := hsound.connection p c hc
    obtain ⟨l', hl'⟩ := hput hc
      fun l q s hs hcarries => hcarries.frame hown hs hgame hwaiting hloop
    exact ⟨l', hl'.run, ⟨hl'.refines.server, hl'.refines.ids, hl'.refines.sessions⟩, hl'.former⟩
  | @leave p c g hosts hc hgame =>
    have hown := hsound.connection p c hc
    obtain ⟨l', hl'⟩ := hput hc fun l q s hs hcarries => .stay hs (hcarries.leave hown g hosts)
    exact ⟨l', hl'.run, ⟨hl'.refines.server, hl'.refines.ids, hl'.refines.sessions⟩, hl'.former⟩

theorem Run.accounted (h : Run (start now) w) : ∃ l, Accounted now w l := by
  induction h with
  | refl => exact ⟨_, .refl, ⟨rfl, rfl, fun _ => .none⟩, fun _ _ => nofun⟩
  | tail hrun hstep ih =>
    obtain ⟨l, hl⟩ := ih
    exact hl.step (Run.sound hrun) hstep

end

/-- In a run of the relay with at most 2 ^ 32 CONNECTs every client hears the shots of the others
once and in order. -/
theorem relay_faithful {now : ℚ} {l : FireRelay.System} {p : Peer} {s : FireRelay.Session}
    (hrun : Relation.ReflTransGen FireRelay.Step (FireRelay.start now) l)
    (hids : l.ids.length ≤ 2 ^ 32) (hs : l.sessions p = some s) : FireRelay.Faithful l s := by
  have hsound := FireRelay.run_sound hrun hids
  exact hsound.faithful (hsound.nodup hids) hs

/-- Every run of the system is one of the relay, connection by connection. A client that the
server has given up is told of by a run of its own. With at most 2 ^ 32 CONNECTs every client
hears the shots of the others once and in order. -/
theorem shots_over_links {now : ℚ} {w : System} (h : Run (start now) w) :
    (∃ l, Relation.ReflTransGen FireRelay.Step (FireRelay.start now) l ∧ Refines w l ∧
      (w.ids.length ≤ 2 ^ 32 → ∀ p s, l.sessions p = some s → FireRelay.Faithful l s)) ∧
    ∀ n c, w.connections (.former n) = some c → ∃ l p s,
      Relation.ReflTransGen FireRelay.Step (FireRelay.start now) l ∧ l.sessions p = some s ∧
      Carries c s ∧ l.ids <+: w.ids ∧ (w.ids.length ≤ 2 ^ 32 → FireRelay.Faithful l s) := by
  obtain ⟨l, hrun, hrefines, hformer⟩ := h.accounted
  refine ⟨⟨l, hrun, hrefines, fun hids p s hs => ?_⟩, fun n c hc => ?_⟩
  · rw [← hrefines.ids] at hids
    exact relay_faithful hrun hids hs
  · obtain ⟨l', p, s, hrun', hs, hcarries, hearlier⟩ := hformer n c hc
    exact ⟨l', p, s, hrun', hs, hcarries, hearlier, fun hids =>
      relay_faithful hrun' (hearlier.length_le.trans hids) hs⟩

theorem shots_over_links_parting : ∃ w l, Run (start 0) w ∧ Refines w l ∧
    (∃ s, l.sessions 2 = some s ∧ FireRelay.Faithful l s) ∧
    ∃ c l p s, w.connections (.former 0) = some c ∧ l.sessions p = some s ∧ Carries c s ∧
      FireRelay.Faithful l s := by
  obtain ⟨w, c, d, hrun, -, hc, hd, -, hids⟩ := parting
  have hfew : w.ids.length ≤ 2 ^ 32 := by
    rw [hids]
    decide
  obtain ⟨⟨l, -, hrefines, hfaithful⟩, hformer⟩ := shots_over_links hrun
  obtain ⟨s, hs, -⟩ := hrefines.sessions.get hc
  obtain ⟨l', p, s', -, hs', hcarries, -, hfaithful'⟩ := hformer 0 d hd
  exact ⟨w, l, hrun, hrefines, ⟨s, hs, hfaithful hfew 2 s hs⟩, d, l', p, s', hd, hs', hcarries,
    hfaithful' hfew⟩

end Fnvmp.Online
