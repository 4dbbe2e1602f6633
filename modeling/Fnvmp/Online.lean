import Fnvmp.Departures
import Fnvmp.HostLink

/-!
# The server and its players

The whole system: the server, and for every connection a game and a link each way. What the
network does to the links is arbitrary within the life of a datagram, and any end may take
its next step at any time. A game that the server has given up plays on, with what is still on
its link. Nothing malformed is ever on a link, and both ends of a connection agree about its id.
-/

namespace Fnvmp.Online

open PackedCodec ExactFloat Protocol Server Net Delivery Detection Lifecycle Enet

/-- `id` is the one given out at the CONNECT event. There is no game once it has
disconnected. -/
structure Connection where
  id : UInt32
  game : Option Game
  up : Link (List UInt8)
  down : Link (List UInt8)

/-- Where a connection is: behind its pointer, or with those whose pointer the server's host has
taken back at the DISCONNECT event. -/
inductive Place where
  | peer (p : Peer)
  | former (n : ℕ)
  deriving DecidableEq

/-- `ids` are the ids given out, one for each CONNECT so far; `log` lists what the games have put
on their links, with the id of the connection. -/
structure System where
  server : State
  ids : List UInt32
  connections : Place → Option Connection
  log : List (UInt32 × Post (List UInt8))

def start (now : ℚ) : System := ⟨Server.start now, [], fun _ => none, []⟩

/-- A game whose connection is about to be made: it has met nobody yet. -/
structure NewGame (g : Game) : Prop where
  net : g.plugin.net = { client := true, peer := true }
  manager : ∃ script console compilesSpawn compiles,
    g.plugin.manager = EntityManager.init {} script console compilesSpawn compiles

def Connection.fresh (id : UInt32) (g : Game) : Connection :=
  ⟨id, some g, .start numChannels, .start numChannels⟩

def Connection.say (c : Connection) (posts : List (Post (List UInt8))) : Connection :=
  { c with up := posts.foldl Link.send c.up }

def Connection.hear (c : Connection) (posts : List (Post (List UInt8))) : Connection :=
  { c with down := posts.foldl Link.send c.down }

/-- What the server sends goes on the links of its pointers. -/
def deliver (acts : List Action) (connections : Place → Option Connection) :
    Place → Option Connection
  | .peer p => (connections (.peer p)).map fun c => c.hear (postsTo p acts)
  | .former n => connections (.former n)

@[simp] theorem deliver_peer (acts : List Action) (connections : Place → Option Connection)
    (p : Peer) : deliver acts connections (.peer p) =
      (connections (.peer p)).map fun c => c.hear (postsTo p acts) := rfl

@[simp] theorem deliver_former (acts : List Action) (connections : Place → Option Connection)
    (p : Peer) (o : Option Connection) (n : ℕ) :
    deliver acts (Function.update connections (.peer p) o) (.former n) =
      connections (.former n) := by
  simp [deliver]

/-- The pointer is taken back. -/
def dismiss (p : Peer) (n : ℕ) (connections : Place → Option Connection) :
    Place → Option Connection :=
  Function.update (Function.update connections (.former n) (connections (.peer p))) (.peer p) none

def System.put (w : System) (p : Place) (c : Connection) : System :=
  { w with connections := Function.update w.connections p (some c) }

/-- A game's packets on its link. -/
def System.say (w : System) (p : Place) (c : Connection) (posts : List (Post (List UInt8))) :
    System :=
  { w.put p (c.say posts) with log := w.log ++ posts.map fun x => (c.id, x) }

/-- What the main loop does when no host event is there. -/
def Periodic : Event → Prop
  | .checkTimeouts _ | .broadcast _ => True
  | .connect _ _ | .receive _ _ _ | .disconnect _ => False

/-- The packets of `Disconnect`. -/
def farewell (g : Game) (served : List (Option Net.HostEvent)) : List (Post (List UInt8)) :=
  (Lifecycle.disconnect g.plugin.net served).2.filterMap fun
    | .send packet => some (post packet)
    | _ => none

/-- One step of the server, of a game or of the network. -/
inductive Step (w : System) : System → Prop where
  | connect {p : Peer} {g : Game} (now : ℚ) (hfree : w.connections (.peer p) = none)
      (hnew : NewGame g) :
      Step w ⟨(handleConnect now p w.server).1, w.ids ++ [w.server.nextEntityId],
        deliver (handleConnect now p w.server).2
          (Function.update w.connections (.peer p) (some (.fresh w.server.nextEntityId g))), w.log⟩
  | pass {e : Event} {server : State} {acts : List Action} (he : Periodic e)
      (hstep : Server.step w.server e = some (server, acts)) :
      Step w ⟨server, w.ids, deliver acts w.connections, w.log⟩
  | gone {p : Peer} {n : ℕ} {server : State} {acts : List Action}
      (hfree : w.connections (.former n) = none)
      (hstep : Server.step w.server (.disconnect p) = some (server, acts)) :
      Step w ⟨server, w.ids, deliver acts (dismiss p n w.connections), w.log⟩
  | serve {p : Peer} {c : Connection} {received : Post (List UInt8)}
      {rest : List (Post (List UInt8))} {now : ℚ} {server : State} {acts : List Action}
      (hc : w.connections (.peer p) = some c)
      (hreceived : c.up.receiver.dispatchedCommands = received :: rest)
      (hstep : Server.step w.server (.receive p received.packet now) = some (server, acts)) :
      Step w ⟨server, w.ids, deliver acts
        (Function.update w.connections (.peer p) (some { c with up := c.up.step .receive })), w.log⟩
  | networkUp {p : Place} {c : Connection} {e : LinkEvent (List UInt8)}
      (hc : w.connections p = some c) (he : OfNetwork e) (hfresh : Fresh c.up e) :
      Step w (w.put p { c with up := c.up.step e })
  | networkDown {p : Place} {c : Connection} {e : LinkEvent (List UInt8)}
      (hc : w.connections p = some c) (he : OfNetwork e) (hfresh : Fresh c.down e) :
      Step w (w.put p { c with down := c.down.step e })
  | frame {p : Place} {c : Connection} {x : Expressions} {libm : Libm FloatVal} {g g' : Game}
      {t : Tick} {sent : List Sent} {n : ℕ} (hc : w.connections p = some c)
      (hgame : c.game = some g)
      (hwaiting : t.frame.waiting.filterMap packet =
        (c.down.receiver.dispatchedCommands.take n).map Post.packet)
      (hloop : mainGameLoop x libm g t = some (g', sent)) :
      Step w (w.say p { c with
        game := some g'
        down := c.down.run (List.replicate n .receive) } (sent.map post))
  | leave {p : Place} {c : Connection} {g : Game} (served : List (Option Net.HostEvent))
      (hc : w.connections p = some c) (hgame : c.game = some g) :
      Step w (w.say p { c with game := none } (farewell g served))

abbrev Run : System → System → Prop := Relation.ReflTransGen Step

/-! ## What is on the links -/

/-- A message on the route of its type. -/
def postOf (t : MessageType) (data : List UInt8) : Post (List UInt8) :=
  ⟨t.channel.flag, t.channel.code, data⟩

/-- What a client puts on its link: its own id, or none. -/
def Said (id : UInt32) (p : Post (List UInt8)) : Prop :=
  ∃ m : ClientMessage, m.Fits ∧ p = postOf m.type m.encode ∧ ∀ i, m.carries = some i → i = id

/-- What the server puts on the link to a client. -/
def Told (id : UInt32) (p : Post (List UInt8)) : Prop :=
  ∃ m : ServerMessage, m ≠ .disconnect ∧ m.Fits ∧ p = postOf m.type m.encode ∧
    ∀ i, m = .connectAck i → i = id

structure Connection.Sound (c : Connection) : Prop where
  up : Reaches numChannels c.up
  down : Reaches numChannels c.down
  said : ∀ p ∈ c.up.sent, Said c.id p
  told : ∀ p ∈ c.down.sent, Told c.id p
  own : ∀ g, c.game = some g → Identified (fun i => i = c.id) g.plugin.net

structure Sound (w : System) : Prop where
  connection : ∀ p c, w.connections p = some c → c.Sound
  seated : ∀ p i, idsOf w.server.players p = some i →
    ∃ c, w.connections (.peer p) = some c ∧ c.id = i

theorem postOf_channel (t : MessageType) (data : List UInt8) :
    (postOf t data).channelID < numChannels := t.channel.code_lt

theorem Said.channel {id : UInt32} {p : Post (List UInt8)} (h : Said id p) :
    p.channelID < numChannels := by
  obtain ⟨m, -, rfl, -⟩ := h
  exact postOf_channel _ _

theorem Told.channel {id : UInt32} {p : Post (List UInt8)} (h : Told id p) :
    p.channelID < numChannels := by
  obtain ⟨m, -, -, rfl, -⟩ := h
  exact postOf_channel _ _

variable {w w' : System} {place : Place} {p : Peer} {c : Connection}

theorem Connection.Sound.say (h : c.Sound) {posts : List (Post (List UInt8))}
    (hposts : ∀ p ∈ posts, Said c.id p) : (c.say posts).Sound := by
  obtain ⟨hup, hsent, -, -⟩ := sends_add h.up fun p hp => (hposts p hp).channel
  refine ⟨hup, h.down, fun p hp => ?_, h.told, h.own⟩
  change p ∈ (posts.foldl Link.send c.up).sent at hp
  rw [hsent] at hp
  exact (List.mem_append.mp hp).elim (h.said p) (hposts p)

theorem Connection.Sound.hear (h : c.Sound) {posts : List (Post (List UInt8))}
    (hposts : ∀ p ∈ posts, Told c.id p) : (c.hear posts).Sound := by
  obtain ⟨hdown, hsent, -, -⟩ := sends_add h.down fun p hp => (hposts p hp).channel
  refine ⟨h.up, hdown, h.said, fun p hp => ?_, h.own⟩
  change p ∈ (posts.foldl Link.send c.down).sent at hp
  rw [hsent] at hp
  exact (List.mem_append.mp hp).elim (h.told p) (hposts p)

theorem Connection.Sound.receive (h : c.Sound) {received : Post (List UInt8)}
    {rest : List (Post (List UInt8))} (hreceived : c.up.receiver.dispatchedCommands = received :: rest) :
    Connection.Sound { c with up := c.up.step .receive } where
  up := h.up.step .receive trivial
  down := h.down
  said := by
    rw [(receive_adds hreceived).1]
    exact h.said
  told := h.told
  own := h.own

theorem Connection.Sound.fresh (id : UInt32) {g : Game}
    (hnew : NewGame g) : (Connection.fresh id g).Sound where
  up := .start
  down := .start
  said := by simp [Connection.fresh, Link.start]
  told := by simp [Connection.fresh, Link.start]
  own g' hg' := by
    cases hg'
    rw [hnew.net]
    exact fun hyes => by cases hyes

theorem forall_update {P : Connection → Prop} {connections : Place → Option Connection}
    (h : ∀ q d, connections q = some d → P d) {o : Option Connection} (ho : ∀ d, o = some d → P d) :
    ∀ q d, Function.update connections place o q = some d → P d := by
  intro q d hd
  by_cases hq : q = place
  · subst hq
    rw [Function.update_self] at hd
    exact ho d hd
  · rw [Function.update_of_ne hq] at hd
    exact h q d hd

theorem forall_dismiss {P : Connection → Prop} {connections : Place → Option Connection}
    (h : ∀ q d, connections q = some d → P d) (p : Peer) (n : ℕ) :
    ∀ q d, dismiss p n connections q = some d → P d :=
  forall_update (forall_update h (h (.peer p))) fun _ => nofun

theorem dismiss_peer {connections : Place → Option Connection} {p q : Peer} (hq : q ≠ p) (n : ℕ) :
    dismiss p n connections (.peer q) = connections (.peer q) := by
  rw [dismiss, Function.update_of_ne (by simpa using hq), Function.update_of_ne (by simp)]

/-- Only a CONNECT event on the same pointer sends a ConnectAck, with the new id. -/
theorem told_of_step {s s' : State} {e : Event} {acts : List Action} {id : UInt32}
    (hs : Server.step s e = some (s', acts))
    (hack : ∀ now, e = .connect p now → id = s.nextEntityId) : ∀ x ∈ postsTo p acts, Told id x := by
  intro x hx
  obtain ⟨channel, data, flag, hact, rfl⟩ := mem_postsTo hx
  obtain ⟨m, htells, hfits, rfl, hrouted⟩ := step_puts hs _ hact p channel data flag rfl
  refine ⟨m, (htells.parse hfits).2, hfits, ?_, fun i hi => ?_⟩
  · rw [postOf, hrouted.flag, hrouted.channel]
  · subst hi
    cases htells
    exact (hack _ rfl).symm

theorem Sound.deliver {server : State} {e : Event} {acts : List Action}
    {connections : Place → Option Connection}
    (hs : Server.step w.server e = some (server, acts))
    (hconnection : ∀ p c, connections p = some c → c.Sound)
    (hack : ∀ p c now, connections (.peer p) = some c → e = .connect p now →
      c.id = w.server.nextEntityId)
    (hseated : ∀ p i, idsOf server.players p = some i →
      ∃ c, connections (.peer p) = some c ∧ c.id = i)
    (ids : List UInt32) (log : List (UInt32 × Post (List UInt8))) :
    Sound ⟨server, ids, deliver acts connections, log⟩ where
  connection place c hc := by
    cases place with
    | peer p =>
      obtain ⟨c', hc', rfl⟩ := Option.map_eq_some_iff.mp hc
      exact (hconnection (.peer p) c' hc').hear
        (told_of_step hs fun now he => hack p c' now hc' he)
    | former n => exact hconnection (.former n) c hc
  seated p i hi := by
    obtain ⟨c, hc, hid⟩ := hseated p i hi
    exact ⟨c.hear (postsTo p acts), Option.map_eq_some_iff.mpr ⟨c, hc, rfl⟩, hid⟩

@[simp] theorem System.put_server (w : System) (p : Place) (c : Connection) :
    (w.put p c).server = w.server := rfl

@[simp] theorem System.put_connections (w : System) (p : Place) (c : Connection) :
    (w.put p c).connections = Function.update w.connections p (some c) := rfl

theorem Sound.put (h : Sound w) (hc : w.connections place = some c) {c' : Connection}
    (hsound : c'.Sound) (hid : c'.id = c.id) : Sound (w.put place c') where
  connection := forall_update h.connection fun d hd => Option.some.inj hd ▸ hsound
  seated q i hi := by
    obtain ⟨d, hd, hdi⟩ := h.seated q i hi
    by_cases hq : .peer q = place
    · subst hq
      rw [hc] at hd
      cases hd
      exact ⟨c', Function.update_self .., hid.trans hdi⟩
    · exact ⟨d, by rw [System.put_connections, Function.update_of_ne hq, hd], hdi⟩

/-- A game's own step: what it says is added. -/
theorem Sound.say (h : Sound w) (hc : w.connections place = some c) {c' : Connection}
    (hsound : c'.Sound) (hid : c'.id = c.id) {posts : List (Post (List UInt8))}
    (hposts : ∀ x ∈ posts, Said c.id x) : Sound (w.say place c' posts) := by
  have hput := h.put hc (hsound.say (hid.symm ▸ hposts)) hid
  exact ⟨hput.connection, hput.seated⟩

/-- What is handed over to a game names no other id in a ConnectAck. -/
theorem Connection.Sound.acks (h : c.Sound) {waiting : List Net.HostEvent} {n : ℕ}
    (hwaiting : waiting.filterMap packet =
      (c.down.receiver.dispatchedCommands.take n).map Post.packet) :
    ∀ e ∈ waiting, ∀ i, ackId e = some i → i = c.id := by
  intro e he i hi
  cases e with
  | connect | disconnect => cases hi
  | receive data =>
    have hmem : data ∈ waiting.filterMap packet := List.mem_filterMap.mpr ⟨_, he, rfl⟩
    rw [hwaiting] at hmem
    obtain ⟨x, hx, rfl⟩ := List.mem_map.mp hmem
    obtain ⟨m, -, hfits, hpost, hack⟩ := h.told x
      (dispatched_subset h.down (List.mem_append_right _ (List.mem_of_mem_take hx)))
    have hparse : ServerMessage.parse x.packet = some m := by
      rw [hpost]
      exact (ServerMessage.parse_iff _ m).mpr ⟨hfits, List.prefix_rfl⟩
    simp only [ackId, hparse] at hi
    split at hi
    · rename_i m' heq
      cases heq
      cases hi
      exact hack i rfl
    · cases hi

theorem said_of_utters {net : NetClient} {id : UInt32} {sent : Sent}
    (hown : Identified (fun i => i = id) net) (h : Utters net sent) : Said id (post sent) := by
  obtain ⟨m, -, hfits, hdata, hrouted, hnames⟩ := h
  refine ⟨m, hfits, ?_, fun i hi => ?_⟩
  · rw [post, postOf, hrouted.flag, hrouted.channel, hdata]
  · obtain ⟨hconnected, hid⟩ := hnames i hi
    exact hid ▸ hown hconnected

theorem mem_farewell {g : Game} {served : List (Option Net.HostEvent)} {x : Post (List UInt8)}
    (hx : x ∈ farewell g served) :
    x = postOf .disconnect (msgBare.encode ⟨MessageType.disconnect.code⟩) := by
  obtain ⟨call, hcall, heq⟩ := List.mem_filterMap.mp hx
  cases call with
  | send packet =>
    cases heq
    have hpacket : packet = ⟨.system, msgBare.encode ⟨MessageType.disconnect.code⟩, .reliable⟩ := by
      unfold Lifecycle.disconnect send at hcall
      split at hcall
      · cases hcall
      · split at hcall
        · have hsent : g.plugin.net.peer = true ∧ packet =
              ⟨.system, msgBare.encode ⟨MessageType.disconnect.code⟩, .reliable⟩ := by
            simpa using hcall
          exact hsent.2
        · split at hcall <;> simp at hcall
    rw [hpacket]
    rfl
  | create | connect | disconnectPeer | resetPeer | destroy => cases heq

theorem said_farewell (g : Game) (served : List (Option Net.HostEvent)) (id : UInt32) :
    ∀ x ∈ farewell g served, Said id x :=
  fun _ hx => ⟨.disconnect, trivial, mem_farewell hx, nofun⟩

/-- Ids stay with their pointers, but for a CONNECT event. -/
theorem idsOf_step {s s' : State} {e : Event} {acts : List Action}
    (hs : Server.step s e = some (s', acts)) (hne : ∀ p now, e ≠ .connect p now) {q : Peer}
    {i : UInt32} (hi : idsOf s'.players q = some i) : idsOf s.players q = some i :=
  (step_moves hne hs).1.ids q i hi

theorem Sound.step (h : Sound w) (hstep : Step w w') : Sound w' := by
  cases hstep with
  | @connect p g now hfree hnew =>
    refine Sound.deliver (e := .connect p now) rfl
      (forall_update h.connection fun c hc => Option.some.inj hc ▸ .fresh _ hnew)
      (fun q c now' hc he => ?_) (fun q i hi => ?_) _ w.log
    · cases he
      rw [Function.update_self] at hc
      cases hc
      rfl
    · change idsOf (w.server.players.insert p _) q = some i at hi
      rw [idsOf_insert] at hi
      by_cases hq : q = p
      · subst hq
        rw [Function.update_self] at hi
        exact ⟨_, Function.update_self .., Option.some.inj hi⟩
      · rw [Function.update_of_ne hq] at hi
        obtain ⟨c, hc, hid⟩ := h.seated q i hi
        exact ⟨c, by rw [Function.update_of_ne (by simpa using hq), hc], hid⟩
  | @pass e server acts he hs =>
    have hne : ∀ p now, e ≠ .connect p now := by
      rintro p now rfl
      exact he
    exact .deliver hs h.connection (fun p c now _ heq => absurd heq (hne p now))
      (fun q i hi => h.seated q i (idsOf_step hs hne hi)) w.ids w.log
  | @gone p n server acts hfree hs =>
    refine .deliver hs (forall_dismiss h.connection p n) (fun _ _ _ _ => nofun)
      (fun q i hi => ?_) w.ids w.log
    by_cases hq : q = p
    · subst hq
      cases hs
      have hsome : (idsOf (handlePeerGone q w.server.players).1 q).isSome :=
        Option.isSome_of_eq_some hi
      exact absurd ((idsOf_isSome _ q).mp hsome) (handlePeerGone_absent q w.server.players)
    · obtain ⟨c, hc, hid⟩ := h.seated q i (idsOf_step hs (fun _ _ => nofun) hi)
      exact ⟨c, by rw [dismiss_peer hq, hc], hid⟩
  | @serve p c received rest now server acts hc hreceived hs =>
    have hput := h.put hc ((h.connection _ c hc).receive hreceived) rfl
    exact .deliver hs hput.connection (fun _ _ _ _ => nofun)
      (fun q i hi => hput.seated q i (idsOf_step hs (fun _ _ => nofun) hi)) w.ids w.log
  | @networkUp p c e hc he hfresh =>
    have hsound := h.connection p c hc
    refine h.put hc ⟨hsound.up.step e hfresh, hsound.down, ?_, hsound.told, hsound.own⟩ rfl
    rw [(network_adds c.up he).1]
    exact hsound.said
  | @networkDown p c e hc he hfresh =>
    have hsound := h.connection p c hc
    refine h.put hc ⟨hsound.up, hsound.down.step e hfresh, hsound.said, ?_, hsound.own⟩ rfl
    rw [(network_adds c.down he).1]
    exact hsound.told
  | @frame p c x libm g g' t sent n hc hgame hwaiting hloop =>
    have hsound := h.connection p c hc
    obtain ⟨hidentified, hutters⟩ :=
      mainGameLoop_utters x (hsound.own g hgame) (hsound.acks hwaiting) hloop
    obtain ⟨hdown, hsent, -⟩ := receives_add hsound.down n
    have hsound' : Connection.Sound { c with
        game := some g'
        down := c.down.run (List.replicate n .receive) } :=
      { up := hsound.up
        down := hdown
        said := hsound.said
        told := by
          rw [hsent]
          exact hsound.told
        own := fun g'' hg'' => Option.some.inj hg'' ▸ hidentified }
    refine h.say hc hsound' rfl fun x hx => ?_
    obtain ⟨p, hp, rfl⟩ := List.mem_map.mp hx
    exact said_of_utters hidentified (hutters p hp)
  | @leave p c g served hc hgame =>
    have hsound := h.connection p c hc
    have hsound' : Connection.Sound { c with game := none } :=
      ⟨hsound.up, hsound.down, hsound.said, hsound.told, fun g' hg' => by cases hg'⟩
    exact h.say hc hsound' rfl (said_farewell g served c.id)

theorem Run.sound {now : ℚ} (h : Run (start now) w) : Sound w := by
  induction h with
  | refl => exact ⟨fun _ _ => nofun, fun p i hi => by simp [start, Server.start, idsOf] at hi⟩
  | tail _ hstep ih => exact ih.step hstep

/-! ## Nothing is refused -/

theorem packetType_encode {m : ClientMessage} (hfits : m.Fits) :
    packetType m.encode = some m.type := by
  obtain ⟨rest, hrest⟩ := m.encode_head hfits
  rw [packetType, hrest, List.head?_cons, Option.bind_some, MessageType.ofCode_code]

theorem carriedId_encode {m : ClientMessage} (hfits : m.Fits) :
    carriedId m.encode = m.carries := by
  unfold carriedId
  rw [packetType_encode hfits]
  cases m with
  | heartbeat | disconnect => rfl
  | playerSnapshot snapshot =>
    exact congrArg (fun s => some s.netEntityId) (Codec.decode_encode_self msgPlayerSnapshot snapshot)
  | playerFire id =>
    exact congrArg (fun e => some e.netEntityId) (Codec.decode_encode_self msgEntity _)

theorem structSize_encode (m : ClientMessage) : structSize m.type = some m.encode.length := by
  cases m with
  | heartbeat | disconnect | playerSnapshot snapshot | playerFire id =>
    rw [ClientMessage.encode, Codec.encode_length]
    rfl

theorem not_refused_of_said {players : Players} {info : PlayerInfo} {x : Post (List UInt8)}
    (hx : Said info.netEntityId x) (hp : players.find? p = some info) :
    ¬Refused players p x.packet := by
  obtain ⟨m, hfits, rfl, hown⟩ := hx
  refine not_refused (packetType_encode hfits) (structSize_encode m) le_rfl hp fun id hid => ?_
  rw [postOf, carriedId_encode hfits] at hid
  exact hown id hid

/-- In every run of the whole system both ends of a connection agree on its id, no packet of a
registered player is refused, and no packet to a client is malformed, also when the server has
given the client up. -/
theorem nothing_refused {now : ℚ} (h : Run (start now) w) (hc : w.connections place = some c) :
    (∀ p info, place = .peer p → w.server.players.find? p = some info → info.netEntityId = c.id ∧
      ∀ x ∈ c.up.dispatched, ¬Refused w.server.players p x.packet) ∧
    (∀ g, c.game = some g → g.plugin.net.connected = true → g.plugin.net.netEntityId = c.id) ∧
    ∀ x ∈ c.down.dispatched, ∃ m, ServerMessage.parse x.packet = some m ∧ m ≠ .disconnect := by
  have hsound := h.sound.connection place c hc
  refine ⟨fun p info hplace hp => ?_, hsound.own, fun x hx => ?_⟩
  · subst hplace
    obtain ⟨c', hc', hid⟩ := h.sound.seated p info.netEntityId (idsOf_eq_some hp)
    rw [hc] at hc'
    cases hc'
    refine ⟨hid.symm, fun x hx => not_refused_of_said ?_ hp⟩
    rw [← hid]
    exact hsound.said x (dispatched_subset hsound.up hx)
  · obtain ⟨m, hne, hfits, rfl, -⟩ := hsound.told x (dispatched_subset hsound.down hx)
    exact ⟨m, (ServerMessage.parse_iff _ m).mpr ⟨hfits, List.prefix_rfl⟩, hne⟩

/-! ## Two players meet -/

theorem eq_some_get {α β : Type} {o : Option (α × β)} (h : o.isSome = true) :
    o = some ((o.get h).1, (o.get h).2) := by simp

def newGame : Game := ⟨Client.start 0 true true true fun _ => true, {}⟩

theorem newGame_new : NewGame newGame := ⟨rfl, true, true, true, fun _ => true, rfl⟩

/-- The first player has its ConnectAck and sends a snapshot, the second one comes and sees it. -/
theorem meeting : ∃ w c₁ c₂ g, Run (start 0) w ∧ w.connections (.peer 1) = some c₁ ∧
    w.connections (.peer 2) = some c₂ ∧ c₂.game = some g ∧ c₁.up.dispatched.length = 1 ∧
    idsOf w.server.players 1 = some 1 ∧ (g.plugin.manager.entities.find? 1).isSome = true ∧
    w.ids = [1, 2] ∧ c₁.down.dispatched.length = 1 ∧
    (∃ g₁, c₁.game = some g₁ ∧ g₁.plugin.net.connected = true) ∧
    w.connections (.former 0) = none := by
  let x : Expressions := ⟨true, true, true, true, true, true⟩
  have h₁ : Run (start 0) _ := .single (.connect (p := 1) 0 rfl newGame_new)
  have h₂ := h₁.tail (.networkDown (p := .peer 1) (e := .flush 5) rfl trivial trivial)
  have h₃ := h₂.tail
    (.networkDown (p := .peer 1) (e := .command 0 false) rfl trivial (by decide +kernel))
  have h₄ := h₃.tail (@Step.frame _ (.peer 1) _ x stillLibm _ _
    (stillTick (1 / 10) [.receive (msgEntity.encode ⟨MessageType.connectAck.code, 1⟩)]) _ 1 rfl rfl
    (by decide +kernel) (eq_some_get (by decide +kernel)))
  have h₅ := h₄.tail (.connect (p := 2) 0 rfl newGame_new)
  have h₆ := h₅.tail
    (.networkUp (p := .peer 1) (e := .unsequenced 0 false) rfl trivial (by decide +kernel))
  have h₇ := h₆.tail (@Step.serve _ 1 _
    ⟨.unsequenced, 0, msgPlayerSnapshot.encode ⟨4, 0, 1, 1, 0, 0, 0, 0, 0, 0, 0, 0, 0⟩⟩ [] 0 _ _ rfl
    (by decide +kernel) (eq_some_get (by decide +kernel)))
  have h₈ := h₇.tail (.pass (e := .broadcast 1) trivial (eq_some_get (by decide +kernel)))
  have h₉ := h₈.tail
    (.networkDown (p := .peer 2) (e := .unsequenced 0 false) rfl trivial (by decide +kernel))
  have h₁₀ := h₉.tail (@Step.frame _ (.peer 2) _ x stillLibm _ _
    (stillTick (1 / 10) [.receive (encodeWorld [EntityManager.standing 1 1])]) _ 1 rfl rfl
    (by decide +kernel) (eq_some_get (by decide +kernel)))
  exact ⟨_, _, _, _, h₁₀, rfl, rfl, rfl, by decide +kernel, by decide +kernel,
    by decide +kernel, rfl, by decide +kernel, ⟨_, rfl, by decide +kernel⟩, rfl⟩

theorem nothing_refused_meeting : ∃ w c g, Run (start 0) w ∧ w.connections (.peer 1) = some c ∧
    c.game = some g ∧ idsOf w.server.players 1 = some c.id ∧ c.up.dispatched.length = 1 ∧
    (∀ x ∈ c.up.dispatched, ¬Refused w.server.players 1 x.packet) ∧
    g.plugin.net.netEntityId = c.id ∧ c.down.dispatched.length = 1 ∧
    ∀ x ∈ c.down.dispatched, ∃ m, ServerMessage.parse x.packet = some m ∧ m ≠ .disconnect := by
  obtain ⟨w, c, -, -, hrun, hc, -, -, hlength, hid, -, -, hheard, ⟨g, hg, hconnected⟩, -⟩ := meeting
  obtain ⟨info, hp, -⟩ := Option.map_eq_some_iff.mp hid
  obtain ⟨hserver, hown, htold⟩ := nothing_refused hrun hc
  obtain ⟨hagree, hserved⟩ := hserver 1 info rfl hp
  exact ⟨w, c, g, hrun, hc, hg, hagree ▸ idsOf_eq_some hp, hlength, hserved,
    hown g hg hconnected, hheard, htold⟩

/-- The server gives the first player up, whose game plays on. -/
theorem parting : ∃ w c d, Run (start 0) w ∧ w.connections (.peer 1) = none ∧
    w.connections (.peer 2) = some c ∧ w.connections (.former 0) = some d ∧
    (∃ g, d.game = some g ∧ g.plugin.net.connected = true) ∧ w.ids = [1, 2] := by
  obtain ⟨w, c₁, c₂, -, hrun, hfirst, hsecond, -, -, -, -, hids, -, hgame, hfree⟩ := meeting
  have hdismissed : dismiss 1 0 w.connections (.former 0) = some c₁ := by
    simp [dismiss, hfirst]
  have hother : dismiss 1 0 w.connections (.peer 2) = some c₂ := by
    rw [dismiss_peer (by decide), hsecond]
  let acts := (handlePeerGone 1 w.server.players).2
  have hgone : deliver acts (dismiss 1 0 w.connections) (.peer 1) = none := by
    simp [dismiss]
  have hstays : deliver acts (dismiss 1 0 w.connections) (.peer 2) =
      some (c₂.hear (postsTo 2 acts)) := by
    rw [deliver_peer, hother, Option.map_some]
  exact ⟨_, _, c₁, hrun.tail (.gone (p := 1) hfree rfl), hgone, hstays, hdismissed, hgame, hids⟩

end Fnvmp.Online
