import Fnvmp.GhostAvatars
import Fnvmp.Lifecycle
import Fnvmp.SendRate

/-!
# The life of the plugin

The handler of the messages that the game sends to the plugin, in whatever order they come:
`DeferredInit`, the passes of the main loop, `ExitGame`. The library is called in its order, and
nothing of a session is left behind.
-/

namespace Fnvmp.PluginLife

open ExactFloat Engine Protocol Net Detection

/-- The globals of the plugin. `last` is `g_last` once the clock was started. The script and the
console interface are not null: the plugin does not load without them. -/
structure Process where
  game : Game := ⟨{}, {}⟩
  expressions : Expressions := ⟨true, false, false, false, false, false⟩
  enetInitialized : Bool := false
  last : Option ℚ := none

/-- The messages, with what the engine, the library and the clock answer. `compilesSpawn`,
`compiles` and `detection` say which expressions compile, and `served` holds the results of
`enet_host_service` while the client disconnects. -/
inductive Message where
  | exitGame (world : World) (served : List (Option HostEvent))
  | deferredInit (compilesSpawn : Bool) (compiles : Script → Bool) (detection : Expressions)
      (initialized created peerMade : Bool)
  | mainGameLoop (now : ℚ) (waiting : List HostEvent) (world : World) (fuel : Nat)
      (player : Player)
  | other

/-- A call to the library other than `enet_host_service`, with what it returned. -/
inductive LibraryCall where
  | initializeEnet (ok : Bool)
  | deinitializeEnet
  | create (ok : Bool)
  | connect (host : String) (port : UInt16) (ok : Bool)
  | send (packet : Sent)
  | disconnectPeer
  | resetPeer
  | destroy

def LibraryCall.ofHost (created peerMade : Bool) : Lifecycle.HostCall → LibraryCall
  | .create => .create created
  | .connect host port => .connect host port peerMade
  | .send packet => .send packet
  | .disconnectPeer => .disconnectPeer
  | .resetPeer => .resetPeer
  | .destroy => .destroy

/-- The address that `DeferredInit` connects to. -/
def serverHost : String := "192.168.1.149"

def defaultPort : UInt16 := 7777

/-- Another client and another state of the entity manager. -/
def Process.put (p : Process) (net : NetClient) (manager : EntityManager.Manager) : Process :=
  { p with game := { p.game with plugin := { p.game.plugin with net := net, manager := manager } } }

/-- The first pass of the main loop only starts the clock. -/
def messageHandler (libm : Libm FloatVal) (p : Process) :
    Message → Option (Process × List LibraryCall)
  | .exitGame world served =>
    let manager := EntityManager.shutdown world p.game.plugin.manager
    let r := Lifecycle.disconnect p.game.plugin.net served
    some ({ p.put r.1 manager with enetInitialized := false },
      r.2.map (.ofHost false false) ++ if p.enetInitialized then [.deinitializeEnet] else [])
  | .deferredInit compilesSpawn compiles detection initialized created peerMade =>
    let manager := EntityManager.init p.game.plugin.manager true true compilesSpawn compiles
    let p := { p.put p.game.plugin.net manager with
      expressions := { detection with script := true } }
    if initialized = false then some (p, [.initializeEnet false])
    else
      let r := Lifecycle.connect p.game.plugin.net serverHost defaultPort created peerMade
      some ({ p.put r.1 manager with enetInitialized := true },
        .initializeEnet true :: r.2.2.map (.ofHost created peerMade))
  | .mainGameLoop now waiting world fuel player =>
    match p.last with
    | none => some ({ p with last := some now }, [])
    | some last =>
      (mainGameLoop p.expressions libm p.game ⟨⟨now - last, waiting, world, fuel⟩, player⟩).map
        fun (game, sent) => ({ p with game := game, last := some now }, sent.map .send)
  | .other => some (p, [])

@[simp] theorem put_net (p : Process) (net : NetClient) (manager : EntityManager.Manager) :
    (p.put net manager).game.plugin.net = net := rfl

@[simp] theorem put_manager (p : Process) (net : NetClient) (manager : EntityManager.Manager) :
    (p.put net manager).game.plugin.manager = manager := rfl

abbrev run (libm : Libm FloatVal) : Process → List Message → Option (Process × List LibraryCall) :=
  EventRun.exec (messageHandler libm)

/-! ## The order of the library -/

/-- What is open of the library. -/
structure Library where
  initialized : Bool := false
  host : Bool := false
  peer : Bool := false

/-- One call; `none` is a call on something that is not there, or that leaves something open
behind. -/
def Library.take (l : Library) : LibraryCall → Option Library
  | .initializeEnet ok => some { l with initialized := l.initialized || ok }
  | .deinitializeEnet => if l.initialized && !l.host then some { l with initialized := false } else none
  | .create ok => if l.initialized && !l.host then some { l with host := ok, peer := false } else none
  | .connect _ _ ok => if l.host && !l.peer then some { l with peer := ok } else none
  | .send _ | .disconnectPeer | .resetPeer => if l.host && l.peer then some l else none
  | .destroy => if l.host then some { l with host := false, peer := false } else none

/-- The calls on a peer. -/
def LibraryCall.OfPeer : LibraryCall → Prop
  | .send _ | .disconnectPeer | .resetPeer => True
  | .initializeEnet _ | .deinitializeEnet | .create _ | .connect _ _ _ | .destroy => False

theorem Library.take_ofPeer {l : Library} {calls : List LibraryCall} (hcalls : ∀ c ∈ calls, c.OfPeer)
    (hopen : calls ≠ [] → l.host = true ∧ l.peer = true) : calls.foldlM Library.take l = some l := by
  induction calls with
  | nil => rfl
  | cons c calls ih =>
    obtain ⟨hhost, hpeer⟩ := hopen (List.cons_ne_nil c calls)
    have hfirst : l.take c = some l := by
      have hown := hcalls c List.mem_cons_self
      cases c with
      | send | disconnectPeer | resetPeer => simp [Library.take, hhost, hpeer]
      | initializeEnet | deinitializeEnet | create | connect | destroy => exact hown.elim
    rw [List.foldlM_cons, hfirst]
    exact ih (fun c' hc' => hcalls c' (List.mem_cons_of_mem c hc')) fun _ => ⟨hhost, hpeer⟩

/-! ## What a frame leaves as it is -/

section

variable {c c' c'' : NetClient} {sent sent' : List Sent}

/-- The host stays, a peer is not regained, and packets go to a peer. -/
structure Serves (c c' : NetClient) (sent : List Sent) : Prop where
  client : c'.client = c.client
  peer : c'.peer = true → c.peer = true
  sends : sent ≠ [] → c.peer = true

theorem Serves.refl (c : NetClient) : Serves c c [] := ⟨rfl, id, fun h => absurd rfl h⟩

theorem Serves.trans (h : Serves c c' sent) (h' : Serves c' c'' sent') :
    Serves c c'' (sent ++ sent') where
  client := h'.client.trans h.client
  peer := fun hyes => h.peer (h'.peer hyes)
  sends := fun hne => by
    by_cases hfirst : sent = []
    · exact h.peer (h'.sends fun hlast => hne (by rw [hfirst, hlast]; rfl))
    · exact h.sends hfirst

theorem serves_send (c : NetClient) (data : List UInt8) (channel : Channel) (reliable : Bool) :
    Serves c c (send c data channel reliable) := by
  refine ⟨rfl, id, fun hne => ?_⟩
  unfold send at hne
  split at hne
  · assumption
  · exact absurd rfl hne

theorem serves_apply (c : NetClient) (msg : ServerMessage) :
    Serves c (apply c msg).1 (apply c msg).2 := by
  cases msg with
  | connectAck => exact ⟨rfl, id, (serves_send _ _ _ _).sends⟩
  | disconnect | worldSnapshot | playerConnect | playerDisconnect | remoteFire =>
    exact ⟨rfl, id, fun h => absurd rfl h⟩

theorem serves_event {e : HostEvent} (he : handleEvent c e = some (c', sent)) :
    Serves c c' sent := by
  cases e with
  | connect =>
    cases he
    exact .refl c
  | receive data =>
    rw [handleEvent, handleReceive_eq, Option.some.injEq] at he
    cases hparse : ServerMessage.parse data with
    | none =>
      rw [hparse] at he
      cases he
      exact .refl c
    | some msg =>
      rw [hparse, Option.map_some, Option.getD_some] at he
      have hserves := serves_apply c msg
      rw [he] at hserves
      exact hserves
  | disconnect =>
    cases he
    exact ⟨rfl, (fun h => by cases h), fun h => absurd rfl h⟩

theorem serves_drain {es : List HostEvent} (hs : drain c es = some (c', sent)) :
    Serves c c' sent := by
  induction es generalizing c sent with
  | nil =>
    cases hs
    exact .refl _
  | cons e es ih =>
    obtain ⟨⟨mid, out⟩, he, hrest⟩ := Option.bind_eq_some_iff.mp hs
    obtain ⟨⟨last, out'⟩, htail, heq⟩ := Option.map_eq_some_iff.mp hrest
    cases heq
    exact (serves_event he).trans (ih htail)

theorem serves_poll {dt : ℚ} {waiting : List HostEvent}
    (hs : poll c dt waiting = some (c', sent)) : Serves c c' sent := by
  unfold poll at hs
  split at hs
  · cases hs
    exact .refl _
  · obtain ⟨⟨mid, out⟩, hdrain, hbeat⟩ := Option.map_eq_some_iff.mp hs
    have hserves := serves_drain hdrain
    dsimp only at hbeat
    split at hbeat
    · split at hbeat
      · cases hbeat
        exact hserves.trans ⟨rfl, id, (serves_send _ _ _ _).sends⟩
      · cases hbeat
        exact ⟨hserves.client, hserves.peer, hserves.sends⟩
    · cases hbeat
      exact hserves

end

section

variable (x : Expressions) {libm : Libm FloatVal} {g g' : Game} {t : Tick} {sent : List Sent}

theorem serves_sendFrame (libm : Libm FloatVal) (net : NetClient) (s : Sender) (t : Moment) :
    Serves net (sendFrame x libm (net, s) t).1.1 (sendFrame x libm (net, s) t).2 := by
  have hfires : Serves net net (detectAction x net t.world t.player s).2 := by
    unfold detectAction
    split
    · dsimp only
      split
      · unfold sendFireEvent
        split
        · exact serves_send _ _ _ _
        · exact .refl net
      · exact .refl net
    · exact .refl net
  have hsnapshot : ∀ s' : Sender, Serves net (sendSnapshot x net t.world t.player libm t.dt s').2.1
      (sendSnapshot x net t.world t.player libm t.dt s').2.2 := by
    intro s'
    unfold sendSnapshot
    split
    · dsimp only
      split
      · unfold sendPlayerSnapshot
        split
        · exact ⟨rfl, id, (serves_send _ _ _ _).sends⟩
        · exact .refl net
      · exact .refl net
    · exact .refl net
  exact hfires.trans (hsnapshot _)

theorem serves_mainGameLoop (hs : mainGameLoop x libm g t = some (g', sent)) :
    Serves g.plugin.net g'.plugin.net sent := by
  obtain ⟨plugin, received, hframe, hstate, rfl⟩ := mainGameLoop_cases x hs
  obtain ⟨net, hpoll, -, hnet⟩ := Client.frame_cases hframe
  have hpolled := serves_poll hpoll
  have hsends := serves_sendFrame x libm plugin.net g.sender t.moment
  rw [← hstate] at hsends
  have hplugin : Serves g.plugin.net plugin.net received := by
    rw [hnet]
    exact ⟨hpolled.client, hpolled.peer, hpolled.sends⟩
  exact hplugin.trans hsends

theorem sendFrame_closed (libm : Libm FloatVal) {net : NetClient}
    (hconnected : net.connected = false) (s : Sender) (t : Moment) :
    (sendFrame x libm (net, s) t).1.1 = net ∧ (sendFrame x libm (net, s) t).2 = [] := by
  have hfires : (detectAction x net t.world t.player s).2 = [] := by
    unfold detectAction
    split
    · simp [hconnected]
    · rfl
  have hsnapshot : ∀ s' : Sender, sendSnapshot x net t.world t.player libm t.dt s' =
      (s', net, []) := fun s' => by simp [sendSnapshot, hconnected]
  simp only [sendFrame, hfires, hsnapshot, List.append_nil, and_self]

/-- What a pass does to the engine is done by its frame. -/
theorem mainGameLoop_manager (hs : mainGameLoop x libm g t = some (g', sent)) :
    ∃ plugin received, Client.frame g.plugin t.frame = some (plugin, received) ∧
      g'.plugin.manager = plugin.manager := by
  obtain ⟨⟨plugin, received⟩, hframe, heq⟩ := Option.map_eq_some_iff.mp hs
  obtain ⟨rfl, -⟩ := Prod.mk.inj heq
  exact ⟨plugin, received, hframe, rfl⟩

/-- Without a host a pass of the loop leaves the client closed and the idle engine alone. -/
theorem mainGameLoop_closed (hnet : g.plugin.net = {})
    (hs : mainGameLoop x libm g t = some (g', sent)) :
    g'.plugin.net = {} ∧ sent = [] ∧
      (EntityManager.hasPendingWork g.plugin.manager = false →
        g'.plugin.manager = g.plugin.manager) := by
  obtain ⟨plugin, received, hframe, hstate, rfl⟩ := mainGameLoop_cases x hs
  obtain ⟨plugin', received', hframe', hmanager⟩ := mainGameLoop_manager x hs
  cases hframe.symm.trans hframe'
  obtain ⟨net, hpoll, htick, hnet'⟩ := Client.frame_cases hframe
  rw [hnet] at hpoll
  cases hpoll
  have hconnected : plugin.net.connected = false := by rw [hnet']
  obtain ⟨hkept, hsent⟩ := sendFrame_closed x libm hconnected g.sender t.moment
  rw [← hstate] at hkept
  exact ⟨hkept.trans hnet', by rw [hsent]; rfl,
    fun hidle => hmanager.trans (EntityManager.tick_idle (.inr hidle) htick)⟩

end

/-! ## The library is used in its order -/

/-- The flags of the plugin say what is open. -/
structure Tracks (p : Process) (l : Library) : Prop where
  started : l.initialized = p.enetInitialized
  host : l.host = p.game.plugin.net.client
  peer : p.game.plugin.net.peer = true → l.peer = true
  inside : p.game.plugin.net.client = true → p.enetInitialized = true
  closed : p.game.plugin.net.client = false → p.game.plugin.net = {}

theorem start_tracks : Tracks {} {} where
  started := rfl
  host := rfl
  peer h := h
  inside h := h
  closed _ := rfl

section

variable {p p' : Process} {l : Library}

/-- `Disconnect` is done with the peer before it destroys the host. -/
theorem Tracks.disconnect (h : Tracks p l) (served : List (Option HostEvent)) :
    ∃ l', ((Lifecycle.disconnect p.game.plugin.net served).2.map
      (LibraryCall.ofHost false false)).foldlM Library.take l = some l' ∧
        l'.initialized = l.initialized ∧ l'.host = false := by
  unfold Lifecycle.disconnect
  cases hclient : p.game.plugin.net.client with
  | false => exact ⟨l, rfl, rfl, h.host.trans hclient⟩
  | true =>
    have hhost : l.host = true := h.host.trans hclient
    have hlast : l.take .destroy = some { l with host := false, peer := false } := by
      simp [Library.take, hhost]
    refine ⟨{ l with host := false, peer := false }, ?_, rfl, rfl⟩
    rw [if_neg (by simp), List.map_append, List.foldlM_append, Library.take_ofPeer]
    · simp [LibraryCall.ofHost, hlast]
    · intro c hc
      obtain ⟨call, hcall, rfl⟩ := List.mem_map.mp hc
      split at hcall
      · simp only [List.mem_append, List.mem_map, List.mem_singleton] at hcall
        obtain (⟨packet, -, rfl⟩ | rfl) | hcall := hcall
        · trivial
        · trivial
        · split at hcall
          · cases List.mem_singleton.mp hcall
            trivial
          · cases hcall
      · split at hcall
        · cases List.mem_singleton.mp hcall
          trivial
        · cases hcall
    · intro hne
      refine ⟨hhost, h.peer ?_⟩
      by_contra hpeer
      exact hne (by simp [hpeer])

/-- `Connect` creates a host where there is none, and destroys it if there is no peer. -/
theorem Tracks.connect (h : Tracks p l) (hstarted : l.initialized = true)
    (created peerMade : Bool) : ∃ l', ((Lifecycle.connect p.game.plugin.net serverHost defaultPort
      created peerMade).2.2.map (LibraryCall.ofHost created peerMade)).foldlM Library.take l =
        some l' ∧ l'.initialized = true ∧
      l'.host = (Lifecycle.connect p.game.plugin.net serverHost defaultPort created peerMade).1.client ∧
      ((Lifecycle.connect p.game.plugin.net serverHost defaultPort created peerMade).1.peer = true →
        l'.peer = true) := by
  cases hclient : p.game.plugin.net.client with
  | true =>
    rw [Lifecycle.connect, if_pos hclient]
    exact ⟨l, rfl, hstarted, h.host, h.peer⟩
  | false =>
    have hhost : l.host = false := h.host.trans hclient
    rw [h.closed hclient]
    obtain ⟨initialized, host, peer⟩ := l
    obtain rfl : initialized = true := hstarted
    obtain rfl : host = false := hhost
    cases created with
    | false => exact ⟨_, rfl, rfl, rfl, fun hyes => by cases hyes⟩
    | true =>
      cases peerMade with
      | false => exact ⟨_, rfl, rfl, rfl, fun hyes => by cases hyes⟩
      | true => exact ⟨_, rfl, rfl, rfl, fun _ => rfl⟩

theorem Tracks.exitGame (h : Tracks p l) {libm : Libm FloatVal} {world : World}
    {served : List (Option HostEvent)} {calls : List LibraryCall}
    (hs : messageHandler libm p (.exitGame world served) = some (p', calls)) :
    ∃ l', calls.foldlM Library.take l = some l' ∧ Tracks p' l' := by
  obtain ⟨rfl, rfl⟩ := Prod.mk.inj (Option.some.inj hs)
  obtain ⟨l', htaken, hstarted, hhost⟩ := h.disconnect served
  have hnet := Lifecycle.disconnect_fresh p.game.plugin.net served h.closed
  have hsame : l'.initialized = p.enetInitialized := hstarted.trans h.started
  refine ⟨{ l' with initialized := false }, ?_, ?_⟩
  · rw [List.foldlM_append, htaken]
    obtain ⟨initialized, host, peer⟩ := l'
    obtain rfl : host = false := hhost
    obtain rfl : initialized = p.enetInitialized := hsame
    cases p.enetInitialized with
    | true => rfl
    | false => rfl
  · constructor
    · rfl
    · simp [hnet, hhost]
    · simp [hnet]
    · simp [hnet]
    · simp [hnet]

/-- A client that `Connect` leaves without a host is as it was before. -/
theorem connect_closed {c : NetClient} (hclosed : c.client = false → c = {}) (host : String)
    (port : UInt16) (created peerMade : Bool) :
    (Lifecycle.connect c host port created peerMade).1.client = false →
      (Lifecycle.connect c host port created peerMade).1 = {} := by
  intro hno
  obtain heq | ⟨hclient, heq | heq | heq⟩ :=
    Lifecycle.connect_cases c host port created peerMade
  · rw [heq] at hno ⊢
    exact hclosed hno
  · rw [heq] at hno
    cases hno
  · rw [heq, hclosed hclient]
  · rw [heq, hclosed hclient]

theorem Tracks.deferredInit (h : Tracks p l) {libm : Libm FloatVal} {compilesSpawn : Bool}
    {compiles : Script → Bool} {detection : Expressions} {initialized created peerMade : Bool}
    {calls : List LibraryCall}
    (hs : messageHandler libm p (.deferredInit compilesSpawn compiles detection initialized created
      peerMade) = some (p', calls)) :
    ∃ l', calls.foldlM Library.take l = some l' ∧ Tracks p' l' := by
  cases initialized with
  | false =>
    obtain ⟨rfl, rfl⟩ := Prod.mk.inj (Option.some.inj hs)
    exact ⟨{ l with initialized := l.initialized || false }, rfl,
      ⟨(Bool.or_false _).trans h.started, h.host, h.peer, h.inside, h.closed⟩⟩
  | true =>
    obtain ⟨rfl, rfl⟩ := Prod.mk.inj (Option.some.inj hs)
    have hstarted : Tracks { p with enetInitialized := true } { l with initialized := true } :=
      ⟨rfl, h.host, h.peer, fun _ => rfl, h.closed⟩
    obtain ⟨l', htaken, hl', hhost, hpeer⟩ := hstarted.connect rfl created peerMade
    refine ⟨l', ?_, hl', hhost, hpeer, fun _ => rfl, connect_closed h.closed _ _ _ _⟩
    have hfirst : l.take (.initializeEnet true) = some { l with initialized := true } := by
      simp [Library.take]
    rw [List.foldlM_cons, hfirst]
    exact htaken

theorem Tracks.mainGameLoop (h : Tracks p l) {libm : Libm FloatVal} {t : Tick} {g : Game}
    {now : ℚ} {sent : List Sent}
    (hs : Detection.mainGameLoop p.expressions libm p.game t = some (g, sent)) :
    (sent.map LibraryCall.send).foldlM Library.take l = some l ∧
      Tracks { p with game := g, last := some now } l := by
  have hserves := serves_mainGameLoop p.expressions hs
  refine ⟨Library.take_ofPeer ?_ ?_, h.started, h.host.trans hserves.client.symm,
    fun hyes => h.peer (hserves.peer hyes), fun hyes => h.inside (hserves.client ▸ hyes), ?_⟩
  · intro c hc
    obtain ⟨packet, -, rfl⟩ := List.mem_map.mp hc
    trivial
  · intro hne
    have hpeer := hserves.sends fun hnone => hne (by rw [hnone]; rfl)
    refine ⟨h.host.trans ?_, h.peer hpeer⟩
    by_contra hclient
    rw [h.closed (by simpa using hclient)] at hpeer
    cases hpeer
  · intro hclient
    have hnet := h.closed (hserves.client ▸ hclient)
    exact (mainGameLoop_closed p.expressions hnet hs).1

/-- A message makes only calls that the library takes. -/
theorem Tracks.step (h : Tracks p l) {libm : Libm FloatVal} {m : Message}
    {calls : List LibraryCall} (hs : messageHandler libm p m = some (p', calls)) :
    ∃ l', calls.foldlM Library.take l = some l' ∧ Tracks p' l' := by
  cases m with
  | exitGame world served => exact h.exitGame hs
  | deferredInit compilesSpawn compiles detection initialized created peerMade =>
    exact h.deferredInit hs
  | mainGameLoop now waiting world fuel player =>
    rw [messageHandler] at hs
    split at hs
    · cases hs
      exact ⟨l, rfl, h.started, h.host, h.peer, h.inside, h.closed⟩
    · obtain ⟨⟨g, sent⟩, hloop, heq⟩ := Option.map_eq_some_iff.mp hs
      obtain ⟨rfl, rfl⟩ := Prod.mk.inj heq
      exact ⟨l, h.mainGameLoop hloop⟩
  | other =>
    cases hs
    exact ⟨l, rfl, h⟩

end

/-- Whatever messages come, in whatever order: the plugin creates a host only in a library that
is set up and has none, calls a peer only while its host is there, destroys every host it created
once, and takes the library down only when its host is gone and only if it was set up. -/
theorem library_used_in_order {libm : Libm FloatVal} {ms : List Message} {p : Process}
    {calls : List LibraryCall} (hrun : run libm {} ms = some (p, calls)) :
    ∃ l, calls.foldlM Library.take {} = some l ∧ l.initialized = p.enetInitialized ∧
      l.host = p.game.plugin.net.client ∧ (p.game.plugin.net.peer = true → l.peer = true) := by
  obtain ⟨l, htaken, h⟩ := EventRun.exec_taken Library.take Tracks
    (fun _ _ _ _ _ h hs => h.step hs) start_tracks hrun
  exact ⟨l, htaken, h.started, h.host, h.peer⟩

/-- Somebody else stands in the player's cell. -/
def visit : List Message :=
  [.mainGameLoop 0 [] EntityManager.quietWorld 0 still,
    .deferredInit true (fun _ => true) ⟨true, true, true, true, true, true⟩ true true true,
    .mainGameLoop 1 [.connect, .receive Client.connectAck, .receive Client.shown]
      EntityManager.quietWorld 0 still]

theorem library_used_in_order_visit : ∃ p calls l, run stillLibm {} visit = some (p, calls) ∧
    calls.length = 5 ∧ calls.foldlM Library.take {} = some l ∧ l.host = true ∧ l.peer = true := by
  have hseen : (run stillLibm {} visit).map (fun r =>
      (r.1.game.plugin.net.client, r.1.game.plugin.net.peer, r.2.length)) =
        some (true, true, 5) := by decide +kernel
  obtain ⟨⟨p, calls⟩, hrun, heq⟩ := Option.map_eq_some_iff.mp hseen
  obtain ⟨hclient, hrest⟩ := Prod.mk.inj heq
  obtain ⟨hpeer, hlength⟩ := Prod.mk.inj hrest
  obtain ⟨l, htaken, -, hhost, hown⟩ := library_used_in_order hrun
  exact ⟨p, calls, l, hrun, hlength, htaken, hhost.trans hclient, hown hpeer⟩

/-! ## Nothing is left behind -/

/-- The engine of a message is one the client can count on. -/
def Message.Honest : Message → Prop
  | .exitGame world _ => world.Honest
  | .mainGameLoop _ _ world _ _ => world.Honest
  | .deferredInit _ _ _ _ _ _ | .other => True

/-- What `EntityManager_Init` leaves as it is. -/
theorem owns_again {s : EntityManager.Manager} (h : EntityManager.Owns s) (compilesSpawn : Bool)
    (compiles : Script → Bool) :
    EntityManager.Owns (EntityManager.init s true true compilesSpawn compiles) :=
  ⟨h.tidy, fun hno => by cases hno⟩

section

variable {libm : Libm FloatVal} {p p' : Process} {m : Message} {calls : List LibraryCall}

theorem step_owns (h : EntityManager.Owns p.game.plugin.manager) (hm : m.Honest)
    (hs : messageHandler libm p m = some (p', calls)) :
    EntityManager.Owns p'.game.plugin.manager := by
  cases m with
  | exitGame world served =>
    obtain ⟨rfl, rfl⟩ := Prod.mk.inj (Option.some.inj hs)
    have hshutdown : EntityManager.Op.Honest (.shutdown world) := hm
    exact (EntityManager.step_owns h hshutdown rfl).1
  | deferredInit compilesSpawn compiles detection initialized created peerMade =>
    cases initialized with
    | false =>
      obtain ⟨rfl, rfl⟩ := Prod.mk.inj (Option.some.inj hs)
      exact owns_again h compilesSpawn compiles
    | true =>
      obtain ⟨rfl, rfl⟩ := Prod.mk.inj (Option.some.inj hs)
      exact owns_again h compilesSpawn compiles
  | mainGameLoop now waiting world fuel player =>
    rw [messageHandler] at hs
    split at hs
    · cases hs
      exact h
    · obtain ⟨⟨g, sent⟩, hloop, heq⟩ := Option.map_eq_some_iff.mp hs
      obtain ⟨rfl, rfl⟩ := Prod.mk.inj heq
      obtain ⟨plugin, received, hframe, hmanager⟩ := mainGameLoop_manager p.expressions hloop
      have hone : Client.run p.game.plugin [⟨now - _, waiting, world, fuel⟩] =
          some (plugin, received ++ []) := EventRun.exec_cons_eq_some.mpr
        ⟨plugin, received, [], hframe, rfl, rfl⟩
      obtain ⟨ops, hops, hrun⟩ := Client.run_ops (fun f hf => by
        rw [List.mem_singleton.mp hf]
        exact hm) hone
      rw [hmanager]
      exact (EntityManager.run_owns h hops hrun).1
  | other =>
    cases hs
    exact h

theorem run_owns {ms : List Message} (hms : ∀ m ∈ ms, m.Honest)
    (hrun : run libm {} ms = some (p, calls)) : EntityManager.Owns p.game.plugin.manager := by
  have hstart : EntityManager.Owns ({} : Process).game.plugin.manager :=
    EntityManager.owns_init false false false fun _ => false
  exact (EventRun.exec_rule (fun p rest _ => (∀ m ∈ rest, m.Honest) ∧
      EntityManager.Owns p.game.plugin.manager) []
    (fun p m rest log p' out h hs => ⟨fun m' hm' => h.1 m' (List.mem_cons_of_mem m hm'),
      step_owns h.2 (h.1 m List.mem_cons_self) hs⟩) ⟨hms, hstart⟩ hrun).2

/-- The plugin after `ExitGame`. -/
structure Inert (p : Process) : Prop where
  net : p.game.plugin.net = {}
  entities : p.game.plugin.manager.entities = ∅
  spawns : p.game.plugin.manager.pendingSpawns = []
  despawns : p.game.plugin.manager.pendingDespawns = []
  interp : p.game.plugin.manager.interp = Interp.clear
  stopped : p.enetInitialized = false

theorem Inert.idle (h : Inert p) : EntityManager.hasPendingWork p.game.plugin.manager = false := by
  rw [EntityManager.hasPendingWork, h.entities, h.spawns, h.despawns]
  rfl

theorem inert_exitGame (hclosed : p.game.plugin.net.client = false → p.game.plugin.net = {})
    {world : World} {served : List (Option HostEvent)}
    (hs : messageHandler libm p (.exitGame world served) = some (p', calls)) : Inert p' := by
  obtain ⟨rfl, rfl⟩ := Prod.mk.inj (Option.some.inj hs)
  have hnet := Lifecycle.disconnect_fresh p.game.plugin.net served hclosed
  have hcleared : ∀ s : EntityManager.Manager, (EntityManager.shutdown world s).entities = ∅ ∧
      (EntityManager.shutdown world s).pendingSpawns = [] ∧
      (EntityManager.shutdown world s).pendingDespawns = [] ∧
      (EntityManager.shutdown world s).interp = Interp.clear := by
    intro s
    unfold EntityManager.shutdown
    dsimp only
    split
    · exact ⟨rfl, rfl, rfl, rfl⟩
    · exact ⟨rfl, rfl, rfl, rfl⟩
  obtain ⟨hentities, hspawns, hdespawns, hinterp⟩ := hcleared p.game.plugin.manager
  exact ⟨hnet, hentities, hspawns, hdespawns, hinterp, rfl⟩

/-- The message that begins a session. -/
def Message.opens : Message → Bool
  | .deferredInit _ _ _ _ _ _ => true
  | .exitGame _ _ | .mainGameLoop _ _ _ _ _ | .other => false

/-- Acts that no reference notices. -/
def Silent (acts : List Act) : Prop := ∀ a ∈ acts, a = .suppressConsole ∨ a = .restoreConsole

/-- Until a session begins, no message has any effect. -/
theorem Inert.step (h : Inert p) (hm : m.opens = false)
    (hs : messageHandler libm p m = some (p', calls)) : Inert p' ∧ calls = [] ∧ ∃ more,
      p'.game.plugin.manager.acts = p.game.plugin.manager.acts ++ more ∧ Silent more := by
  cases m with
  | exitGame world served =>
    have hinert := inert_exitGame (fun _ => h.net) hs
    obtain ⟨rfl, rfl⟩ := Prod.mk.inj (Option.some.inj hs)
    refine ⟨hinert, by simp [h.net, h.stopped, Lifecycle.disconnect], ?_⟩
    change ∃ more, (EntityManager.shutdown world p.game.plugin.manager).acts = _ ∧ _
    unfold EntityManager.shutdown
    dsimp only
    split
    · exact ⟨[], (List.append_nil _).symm, by simp [Silent]⟩
    · refine ⟨[.suppressConsole, .restoreConsole], ?_, by simp [Silent]⟩
      rw [h.entities]
      exact List.append_assoc _ [Act.suppressConsole] [Act.restoreConsole]
  | deferredInit compilesSpawn compiles detection initialized created peerMade => cases hm
  | mainGameLoop now waiting world fuel player =>
    rw [messageHandler] at hs
    split at hs
    · cases hs
      exact ⟨⟨h.net, h.entities, h.spawns, h.despawns, h.interp, h.stopped⟩, rfl, [],
        (List.append_nil _).symm, by simp [Silent]⟩
    · obtain ⟨⟨g, sent⟩, hloop, heq⟩ := Option.map_eq_some_iff.mp hs
      obtain ⟨rfl, rfl⟩ := Prod.mk.inj heq
      obtain ⟨hnet, rfl, hmanager⟩ := mainGameLoop_closed p.expressions h.net hloop
      have hkept := hmanager h.idle
      refine ⟨⟨hnet, ?_, ?_, ?_, ?_, h.stopped⟩, rfl, [], ?_, by simp [Silent]⟩
      · exact hkept ▸ h.entities
      · exact hkept ▸ h.spawns
      · exact hkept ▸ h.despawns
      · exact hkept ▸ h.interp
      · simp [hkept]
  | other =>
    cases hs
    exact ⟨h, rfl, [], (List.append_nil _).symm, by simp [Silent]⟩

theorem Inert.run {ms : List Message} (h : Inert p) (hms : ∀ m ∈ ms, m.opens = false)
    (hrun : PluginLife.run libm p ms = some (p', calls)) : Inert p' ∧ calls = [] ∧ ∃ more,
      p'.game.plugin.manager.acts = p.game.plugin.manager.acts ++ more ∧ Silent more := by
  induction ms generalizing p calls with
  | nil =>
    cases hrun
    exact ⟨h, rfl, [], (List.append_nil _).symm, by simp [Silent]⟩
  | cons m ms ih =>
    obtain ⟨mid, out, rest, hs, hrest, rfl⟩ := EventRun.exec_cons_eq_some.mp hrun
    obtain ⟨hmid, rfl, first, hfirst, hsilent⟩ := h.step (hms m List.mem_cons_self) hs
    obtain ⟨hend, rfl, last, hlast, hsilent'⟩ :=
      ih hmid (fun m' hm' => hms m' (List.mem_cons_of_mem m hm')) hrest
    refine ⟨hend, rfl, first ++ last, by rw [hlast, hfirst, List.append_assoc], ?_⟩
    intro a ha
    exact (List.mem_append.mp ha).elim (hsilent a) (hsilent' a)

end

/-- After `ExitGame` and until the next `DeferredInit`, whatever came before and comes in
between: the client is closed and empty, no entity is tracked, every NPC that was ever placed was
disabled and deleted exactly once, and the plugin makes no call to the library and does nothing
to the engine but switch the console output off and on. -/
theorem nothing_left_behind {libm : Libm FloatVal} {ms later : List Message} {world : World}
    {served : List (Option HostEvent)} {p : Process} {calls : List LibraryCall}
    (hhonest : ∀ m ∈ ms ++ .exitGame world served :: later, m.Honest)
    (hlater : ∀ m ∈ later, m.opens = false)
    (hrun : run libm {} (ms ++ .exitGame world served :: later) = some (p, calls)) :
    Inert p ∧
      (∀ r ∈ placedRefs p.game.plugin.manager.acts,
        (linesTo r p.game.plugin.manager.acts).count .disable = 1 ∧
          (linesTo r p.game.plugin.manager.acts).count .markForDelete = 1) ∧
      ∃ left, run libm {} (ms ++ [.exitGame world served]) = some (left, calls) ∧
        ∃ more, p.game.plugin.manager.acts = left.game.plugin.manager.acts ++ more ∧
          Silent more := by
  obtain ⟨before, out, rest, hbefore, hrest, rfl⟩ := EventRun.exec_append.mp hrun
  obtain ⟨left, out', rest', hexit, hafter, rfl⟩ := EventRun.exec_cons_eq_some.mp hrest
  obtain ⟨l, -, htracks⟩ := EventRun.exec_taken Library.take Tracks
    (fun _ _ _ _ _ h hs => h.step hs) start_tracks hbefore
  have hleft := inert_exitGame htracks.closed hexit
  obtain ⟨hinert, rfl, hsilent⟩ := hleft.run hlater hafter
  have howns : EntityManager.Owns p.game.plugin.manager := run_owns hhonest hrun
  refine ⟨hinert, fun r hr => ?_, left, ?_, hsilent⟩
  · have hfree : ∀ id, EntityManager.avatar p.game.plugin.manager.entities id ≠ some r := by
      intro id
      rw [hinert.entities]
      exact fun h => by cases h
    have hdone : (linesTo r p.game.plugin.manager.acts).count .markForDelete = 1 :=
      (howns.tidy.sound.accounted r hr).resolve_left fun ⟨id, hid⟩ => hfree id hid
    exact ⟨(howns.tidy.paired r).trans hdone, hdone⟩
  · exact EventRun.exec_append.mpr ⟨before, out, out' ++ [], hbefore,
      EventRun.exec_cons_eq_some.mpr ⟨left, out', [], hexit, rfl, rfl⟩, rfl⟩

/-- The game is left, and its loop goes round once more. -/
def leave : List Message :=
  [.exitGame EntityManager.quietWorld [some .disconnect],
    .mainGameLoop 2 [] EntityManager.quietWorld 0 still]

theorem nothing_left_behind_visit : ∃ p calls, run stillLibm {} (visit ++ leave) = some (p, calls) ∧
    calls.length = 9 ∧ Inert p ∧ placedRefs p.game.plugin.manager.acts = [100] ∧
    (linesTo 100 p.game.plugin.manager.acts).count .disable = 1 ∧
    (linesTo 100 p.game.plugin.manager.acts).count .markForDelete = 1 ∧
    ∃ left more, run stillLibm {} (visit ++ [leave.head (by decide)]) = some (left, calls) ∧
      p.game.plugin.manager.acts = left.game.plugin.manager.acts ++ more ∧ Silent more := by
  have hseen : (run stillLibm {} (visit ++ leave)).map (fun r =>
      (r.2.length, placedRefs r.1.game.plugin.manager.acts)) = some (9, [100]) := by decide +kernel
  obtain ⟨⟨p, calls⟩, hrun, heq⟩ := Option.map_eq_some_iff.mp hseen
  obtain ⟨hlength, hplaced⟩ := Prod.mk.inj heq
  have hhonest : ∀ m ∈ visit ++ leave, m.Honest := by
    intro m hm
    simp only [visit, leave, List.cons_append, List.nil_append, List.mem_cons, List.not_mem_nil,
      or_false] at hm
    obtain rfl | rfl | rfl | rfl | rfl := hm
    · exact EntityManager.quietWorld_honest
    · trivial
    · exact EntityManager.quietWorld_honest
    · exact EntityManager.quietWorld_honest
    · exact EntityManager.quietWorld_honest
  have hlater : ∀ m ∈ leave.tail, m.opens = false := by simp [leave, Message.opens]
  obtain ⟨hinert, hreleased, left, hleft, more, hmore⟩ := nothing_left_behind hhonest hlater hrun
  obtain ⟨hdisabled, hdeleted⟩ := hreleased 100 (by rw [hplaced]; exact List.mem_singleton_self 100)
  exact ⟨p, calls, hrun, hlength, hinert, hplaced, hdisabled, hdeleted, left, more, hleft, hmore⟩

end Fnvmp.PluginLife
