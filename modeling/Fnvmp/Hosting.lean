import Fnvmp.HostEvents
import Fnvmp.MainLoop

/-!
# The server on its host

`main` of the server, with the host it owns. The order of the host's events, which the server
relies on, is the order in which this host makes them, also when the server disconnects peers
of its own accord; and no packet is ever handed out for a peer that is not in the table.
-/

namespace Fnvmp.Hosting

open Protocol Server Enet

/-- `events` and `acts` list what the server has handled and done. -/
structure Main where
  host : Host (List UInt8)
  server : State
  events : List Event
  acts : List Action

def start (now : ℚ) : Main := ⟨hostCreate maxPlayers, Server.start now, [], []⟩

/-- The event as the main loop reads it. -/
def served : Enet.HostEvent (List UInt8) → Server.HostEvent
  | .connect peer => .connect peer
  | .receive peer post => .receive peer post.packet
  | .disconnect peer => .disconnect peer

/-- The calls of `enet_peer_disconnect` among the actions. -/
def carryOut (turns : Peer → List Turn) : List Action → Host (List UInt8) → Host (List UInt8)
  | [], h => h
  | .peerDisconnect p :: acts, h => carryOut turns acts (Enet.peerDisconnect h p (turns p))
  | .registered _ _ :: acts, h | .removed _ _ :: acts, h | .send _ _ _ _ :: acts, h =>
    carryOut turns acts h

/-- What `main` meets in one round: what happens within `enet_host_service`, the flushes of
disconnected peers, and the clock after it. -/
structure Round where
  phases : List (Phase (List UInt8))
  turns : Peer → List Turn := fun _ => []
  now : ℚ

/-- One call of `enet_host_service`, and the handler of its event or the periodic pass. -/
def step (x : Main) (r : Round) : Option Main :=
  match hostService x.host r.phases with
  | (host, some e) =>
    (Server.step x.server ((served e).event r.now)).map fun (server, acts) =>
      ⟨carryOut r.turns acts host, server, x.events ++ [(served e).event r.now], x.acts ++ acts⟩
  | (host, none) =>
    (periodicPass r.now x.server).map fun (server, acts) =>
      ⟨carryOut r.turns acts host, server,
        x.events ++ [.checkTimeouts r.now, .broadcast r.now], x.acts ++ acts⟩

def run (x : Main) (rounds : List Round) : Option Main := rounds.foldlM step x

/-! ## The host -/

section

variable {calling : Prop} {h h' : Host (List UInt8)} {q : Peer}

/-- The host only accepts connections. -/
def Accepting (h : Host (List UInt8)) : Prop := ∀ p, (h.peers p).state ≠ .connecting

theorem Accepting.moves (haccepting : Accepting h) {e : Option (Enet.HostEvent (List UInt8))}
    (h₁ : Moves calling h h' e) : Accepting h' :=
  fun p hp => haccepting p ((h₁.passes p).connecting hp)

/-- What the server has its host do leaves it to the host when a peer is done. -/
theorem carryOut_moves (hs : h.Sound) (hdirect : h.Direct) (haccepting : Accepting h)
    (turns : Peer → List Turn) (acts : List Action) :
    (carryOut turns acts h).Sound ∧ Moves True h (carryOut turns acts h) none := by
  induction acts generalizing h with
  | nil => exact ⟨hs, .refl hdirect⟩
  | cons a acts ih =>
    cases a with
    | registered | removed | send => exact ih hs hdirect haccepting
    | peerDisconnect p =>
      obtain ⟨hmoves, -⟩ := peerDisconnect_moves hs hdirect p (turns p) (haccepting p)
      obtain ⟨hsound, hrest⟩ :=
        ih (hs.peerDisconnect p (turns p)) hmoves.direct (haccepting.moves hmoves)
      exact ⟨hsound, hmoves.after hrest⟩

/-- Whoever the server disconnects is connected no longer. -/
theorem carryOut_disconnects (hs : h.Sound) (hdirect : h.Direct) (haccepting : Accepting h)
    (turns : Peer → List Turn) {acts : List Action} (hmem : .peerDisconnect q ∈ acts) :
    ((carryOut turns acts h).peers q).state ≠ .connected := by
  induction acts generalizing h with
  | nil => cases hmem
  | cons a acts ih =>
    cases a with
    | registered | removed | send => exact ih hs hdirect haccepting (by simpa using hmem)
    | peerDisconnect p =>
      obtain ⟨hmoves, hgone⟩ : Moves True h _ none ∧ _ :=
        peerDisconnect_moves hs hdirect p (turns p) (haccepting p)
      have hs' := hs.peerDisconnect p (turns p)
      have haccepting' := haccepting.moves hmoves
      rcases List.mem_cons.mp hmem with heq | hrest
      · cases heq
        obtain ⟨-, hlater⟩ := carryOut_moves hs' hmoves.direct haccepting' turns acts
        exact fun hconnected => hgone ((hlater.passes q).connected hconnected)
      · exact ih hs' hmoves.direct haccepting' hrest

end

/-! ## The server -/

section

variable {s s' : State} {acts : List Action} {q : Peer}

theorem checkTimeouts_disconnects {now : ℚ} {players : Players} (hq : q ∈ players.keys)
    (hgone : q ∉ (checkTimeouts now players).1.keys) :
    .peerDisconnect q ∈ (checkTimeouts now players).2 := by
  refine checkTimeoutsFrom_rule (fun players r => q ∈ players.keys → q ∉ r.1.keys →
    .peerDisconnect q ∈ r.2) (fun _ hq hgone => absurd hq hgone) ?_ now players.keys players hq
      hgone
  intro players p info r _ ih hq hgone
  by_cases hqp : q = p
  · subst hqp
    simp
  · have hkept : q ∈ (players.erase p).keys := (players.mem_keys_erase p q).mpr ⟨hqp, hq⟩
    have hlater := ih hkept hgone
    simp [hlater]

/-- Whoever the server removes is disconnected by it or by itself. -/
theorem step_removes {e : Event} (hs : Server.step s e = some (s', acts))
    (hq : q ∈ s.players.keys) (hgone : q ∉ s'.players.keys) :
    e = .disconnect q ∨ .peerDisconnect q ∈ acts := by
  cases e with
  | connect p now =>
    cases hs
    exact absurd ((OrderedMap.mem_keys_insert _ _ _ _).mpr (.inr hq)) hgone
  | receive p data now =>
    obtain ⟨players', hr, rfl⟩ := step_receive hs
    cases handleReceive_cases hr with
    | refused _ => exact absurd hq hgone
    | heartbeat _ _ => exact absurd ((OrderedMap.mem_keys_modify _ _ _ _).mpr hq) hgone
    | disconnect _ hp =>
      by_cases hqp : q = p
      · subst hqp
        exact .inr (by simp)
      · exact absurd ((s.players.mem_keys_erase p q).mpr ⟨hqp, hq⟩) hgone
    | snapshot _ _ _ _ => exact absurd ((OrderedMap.mem_keys_modify _ _ _ _).mpr hq) hgone
    | fire _ _ _ _ => exact absurd hq hgone
  | disconnect p =>
    by_cases hqp : q = p
    · exact .inl (by rw [hqp])
    · cases hs
      refine absurd ?_ hgone
      simp only [handlePeerGone]
      split
      · exact hq
      · exact (s.players.mem_keys_erase p q).mpr ⟨hqp, hq⟩
  | checkTimeouts now =>
    cases hs
    exact .inr (checkTimeouts_disconnects hq hgone)
  | broadcast now =>
    obtain ⟨_, _, _, _, rfl⟩ := step_broadcast hs
    exact absurd hq hgone

end

/-! ## The order of the events -/

/-- The pointers that are open after some events. -/
def liveAfter : (Peer → Bool) → List Event → Peer → Bool
  | live, [] => live
  | live, .connect p _ :: es => liveAfter (Function.update live p true) es
  | live, .disconnect p :: es => liveAfter (Function.update live p false) es
  | live, .receive _ _ _ :: es | live, .checkTimeouts _ :: es | live, .broadcast _ :: es =>
    liveAfter live es

theorem liveAfter_append (live : Peer → Bool) (es es' : List Event) :
    liveAfter live (es ++ es') = liveAfter (liveAfter live es) es' := by
  induction es generalizing live with
  | nil => rfl
  | cons e es ih => cases e <;> exact ih _

theorem hostOrder_append (live : Peer → Bool) (es es' : List Event) :
    HostOrder live (es ++ es') ↔ HostOrder live es ∧ HostOrder (liveAfter live es) es' := by
  induction es generalizing live with
  | nil => simp [HostOrder, liveAfter]
  | cons e es ih =>
    cases e with
    | connect p now | receive p data now | disconnect p =>
      simp only [List.cons_append, HostOrder, liveAfter, ih, and_assoc]
    | checkTimeouts now | broadcast now => exact ih live

/-- What every run keeps: the open peers of the host are those of the events, and a peer that
is connected has its place in the table. -/
structure Sound (now : ℚ) (x : Main) : Prop where
  host : x.host.Sound
  direct : x.host.Direct
  accepting : Accepting x.host
  peerCount : x.host.peerCount = maxPlayers
  order : HostOrder (fun _ => false) x.events
  live : ∀ p, liveAfter (fun _ => false) x.events p = (x.host.peers p).state.owed
  handled : Server.run (Server.start now) x.events = some (x.server, x.acts)
  registered : ∀ p, (x.host.peers p).state = .connected → p ∈ x.server.players.keys
  seated : ∀ p ∈ x.server.players.keys, (x.host.peers p).state.owed = true
  inside : ∀ p t, .connect p t ∈ x.events → p < maxPlayers

theorem start_sound (now : ℚ) : Sound now (start now) where
  host := hostCreate_sound maxPlayers
  direct _ := rfl
  accepting _ hp := by cases hp
  peerCount := rfl
  order := trivial
  live _ := rfl
  handled := rfl
  registered p hp := by cases hp
  seated p hp := by simp [start, Server.start, OrderedMap.mem_keys] at hp
  inside p t hp := by cases hp

/-- How a host got to make the events `es`. -/
structure Agrees (h h' : Host (List UInt8)) (es : List Event) : Prop where
  order : HostOrder (fun q => (h.peers q).state.owed) es
  owed : ∀ q, (h'.peers q).state.owed = liveAfter (fun q => (h.peers q).state.owed) es q
  connected : ∀ q, (h'.peers q).state = .connected →
    .disconnect q ∉ es ∧ ((h.peers q).state = .connected ∨ ∃ t, es = [.connect q t])
  connects : ∀ q t, .connect q t ∈ es → (h'.peers q).state.owed = true

section

variable {h h' : Host (List UInt8)} {p : Peer}

theorem connect_agrees (h₁ : Moves True h h' (some (.connect p)))
    (haccepting : (h.peers p).state ≠ .connecting) (t : ℚ) : Agrees h h' [.connect p t] := by
  have hother := fun q (hq : q ≠ p) => h₁.other hq
  have hown : Passes True (h.peers p).state (h'.peers p).state _ := h₁.own
  cases hown with
  | connect p hnew hopened =>
    have hclosed := hnew.resolve_left haccepting
    have howed := PeerState.owed_of_opened hopened
    refine ⟨⟨hclosed, trivial⟩, fun q => ?_, fun q hq => ⟨by simp, ?_⟩, fun q t' hmem => ?_⟩
    · by_cases hqp : q = p
      · subst hqp
        simpa [liveAfter] using howed
      · simpa [liveAfter, hqp] using (hother q hqp).same
    · by_cases hqp : q = p
      · exact .inr ⟨t, by rw [hqp]⟩
      · exact .inl ((hother q hqp).connected hq)
    · cases List.mem_singleton.mp hmem
      exact howed

theorem receive_agrees {packet : Post (List UInt8)}
    (h₁ : Moves True h h' (some (.receive p packet))) (t : ℚ) :
    Agrees h h' [.receive p packet.packet t] := by
  have hother := fun q (hq : q ≠ p) => h₁.other hq
  have hown : Passes True (h.peers p).state (h'.peers p).state _ := h₁.own
  cases hown with
  | receive p packet hconnected hopened =>
    have hbefore : (h.peers p).state.owed = true := by rw [hconnected]; rfl
    refine ⟨⟨hbefore, trivial⟩, fun q => ?_, fun q hq => ⟨by simp, .inl ?_⟩, fun q t' hmem => ?_⟩
    · by_cases hqp : q = p
      · subst hqp
        exact (PeerState.owed_of_opened hopened).trans hbefore.symm
      · exact (hother q hqp).same
    · by_cases hqp : q = p
      · rw [hqp, hconnected]
      · exact (hother q hqp).connected hq
    · cases List.mem_singleton.mp hmem

theorem disconnect_agrees (h₁ : Moves True h h' (some (.disconnect p))) :
    Agrees h h' [.disconnect p] := by
  have hother := fun q (hq : q ≠ p) => h₁.other hq
  have hown : Passes True (h.peers p).state (h'.peers p).state _ := h₁.own
  cases hown with
  | disconnect p howed hclosed _ =>
    have hne : ∀ q, (h'.peers q).state = .connected → q ≠ p := by
      rintro q hq rfl
      rw [hq] at hclosed
      cases hclosed
    refine ⟨⟨howed, trivial⟩, fun q => ?_, fun q hq => ⟨?_, .inl ?_⟩, fun q t' hmem => ?_⟩
    · by_cases hqp : q = p
      · subst hqp
        simpa [liveAfter] using hclosed
      · simpa [liveAfter, hqp] using (hother q hqp).same
    · simpa using hne q hq
    · exact (hother q (hne q hq)).connected hq
    · cases List.mem_singleton.mp hmem

theorem event_agrees {e : Enet.HostEvent (List UInt8)} (h₁ : Moves True h h' (some e))
    (haccepting : Accepting h) (t : ℚ) : Agrees h h' [(served e).event t] := by
  cases e with
  | connect p => exact connect_agrees h₁ (haccepting p) t
  | receive p packet => exact receive_agrees h₁ t
  | disconnect p => exact disconnect_agrees h₁

theorem pass_agrees (h₁ : Moves True h h' none) (t : ℚ) :
    Agrees h h' [.checkTimeouts t, .broadcast t] where
  order := trivial
  owed q := (h₁.passes q).same
  connected q hq := ⟨by simp, .inl ((h₁.passes q).connected hq)⟩
  connects q t' hmem := by simp at hmem

end

section

variable {s s' : State} {es : List Event} {acts : List Action} {q : Peer}

/-- The table holds nobody but open peers. -/
theorem run_seated {live : Peer → Bool} (hlive : ∀ q ∈ s.players.keys, live q = true)
    (hrun : Server.run s es = some (s', acts)) (hq : q ∈ s'.players.keys) :
    liveAfter live es q = true := by
  induction es generalizing s live acts with
  | nil =>
    cases hrun
    exact hlive q hq
  | cons e es ih =>
    obtain ⟨mid, out, rest, hs, hrest, rfl⟩ := EventRun.exec_cons_eq_some.mp hrun
    cases e with
    | connect p now =>
      cases hs
      refine ih (fun r hr => ?_) hrest
      by_cases hrp : r = p
      · rw [hrp, Function.update_self]
      · rw [Function.update_of_ne hrp]
        exact hlive r (((OrderedMap.mem_keys_insert _ _ _ _).mp hr).resolve_left hrp)
    | disconnect p =>
      refine ih (fun r hr => ?_) hrest
      have hrp : r ≠ p := by
        cases hs
        rintro rfl
        exact handlePeerGone_absent r s.players hr
      rw [Function.update_of_ne hrp]
      exact hlive r ((step_moves (by simp) hs).1.shrinks r hr)
    | receive p data now | checkTimeouts now | broadcast now =>
      exact ih (fun r hr => hlive r ((step_moves (by simp) hs).1.shrinks r hr)) hrest

theorem run_removes (hrun : Server.run s es = some (s', acts)) (hq : q ∈ s.players.keys)
    (hgone : q ∉ s'.players.keys) : .disconnect q ∈ es ∨ .peerDisconnect q ∈ acts := by
  induction es generalizing s acts with
  | nil =>
    cases hrun
    exact absurd hq hgone
  | cons e es ih =>
    obtain ⟨mid, out, rest, hs, hrest, rfl⟩ := EventRun.exec_cons_eq_some.mp hrun
    by_cases hmid : q ∈ mid.players.keys
    · rcases ih hrest hmid with hmem | hmem
      · exact .inl (List.mem_cons_of_mem _ hmem)
      · exact .inr (List.mem_append_right _ hmem)
    · rcases step_removes hs hq hmid with rfl | hmem
      · exact .inl List.mem_cons_self
      · exact .inr (List.mem_append_left _ hmem)

end

section

variable {now : ℚ} {x y : Main} {host : Host (List UInt8)}

theorem Sound.advance (hx : Sound now x) {e : Option (Enet.HostEvent (List UInt8))}
    {es : List Event} {server : State} {acts : List Action} (turns : Peer → List Turn)
    (hhost : host.Sound) (hmoves : Moves True x.host host e) (hagrees : Agrees x.host host es)
    (hrun : Server.run x.server es = some (server, acts)) :
    Sound now ⟨carryOut turns acts host, server, x.events ++ es, x.acts ++ acts⟩ := by
  have haccepting := hx.accepting.moves hmoves
  obtain ⟨hsound, hout⟩ := carryOut_moves hhost hmoves.direct haccepting turns acts
  have hlive : liveAfter (fun _ => false) x.events = fun q => (x.host.peers q).state.owed :=
    funext hx.live
  refine ⟨hsound, hout.direct, haccepting.moves hout, ?_, ?_, fun q => ?_, ?_, fun q hq => ?_,
    fun q hq => ?_, fun q t hmem => ?_⟩
  · rw [hout.peerCount, hmoves.peerCount, hx.peerCount]
  · rw [hostOrder_append, hlive]
    exact ⟨hx.order, hagrees.order⟩
  · rw [liveAfter_append, hlive, (hout.passes q).same, hagrees.owed]
  · exact EventRun.exec_append.mpr ⟨x.server, x.acts, acts, hx.handled, hrun, rfl⟩
  · obtain ⟨hstays, hbefore⟩ := hagrees.connected q ((hout.passes q).connected hq)
    rcases hbefore with hconnected | ⟨t, rfl⟩
    · by_contra hgone
      rcases run_removes hrun (hx.registered q hconnected) hgone with hmem | hmem
      · exact hstays hmem
      · exact carryOut_disconnects hhost hmoves.direct haccepting turns hmem hq
    · obtain ⟨mid, out, rest, hs, hrest, -⟩ := EventRun.exec_cons_eq_some.mp hrun
      cases hs
      cases hrest
      exact (OrderedMap.mem_keys_insert _ _ _ _).mpr (.inl rfl)
  · rw [(hout.passes q).same, hagrees.owed]
    exact run_seated hx.seated hrun hq
  · rcases List.mem_append.mp hmem with hmem | hmem
    · exact hx.inside q t hmem
    · rw [← hx.peerCount, ← hmoves.peerCount]
      refine hhost.inside q fun hstate => ?_
      have hopened := hagrees.connects q t hmem
      rw [hstate] at hopened
      cases hopened

theorem Sound.service (hx : Sound now x) {phases : List (Phase (List UInt8))}
    {e : Option (Enet.HostEvent (List UInt8))} (hservice : hostService x.host phases = (host, e)) :
    host.Sound ∧ Moves True x.host host e := by
  have hhost := hx.host.hostService phases
  have hmoves := hostService_moves hx.host hx.direct phases fun _ => trivial
  rw [hservice] at hhost hmoves
  exact ⟨hhost, hmoves⟩

theorem Sound.below (hx : Sound now x) {p : Peer} (hp : (x.host.peers p).state.owed = true) :
    p < maxPlayers := by
  rw [← hx.peerCount]
  refine hx.host.inside p fun hstate => ?_
  rw [hstate] at hp
  cases hp

theorem Sound.hosted (hx : Sound now x) : Server.Hosted (Finset.range maxPlayers) x.server :=
  fun p hp => Finset.mem_range.mpr (hx.below (hx.seated p hp))

theorem Sound.step (hx : Sound now x) {r : Round} (hs : Hosting.step x r = some y) :
    Sound now y := by
  unfold Hosting.step at hs
  split at hs
  · rename_i host e hservice
    obtain ⟨⟨server, acts⟩, hstep, rfl⟩ := Option.map_eq_some_iff.mp hs
    obtain ⟨hhost, hmoves⟩ := hx.service hservice
    exact hx.advance r.turns hhost hmoves (event_agrees hmoves hx.accepting r.now)
      (run_singleton hstep)
  · rename_i host hservice
    obtain ⟨⟨server, acts⟩, hpass, rfl⟩ := Option.map_eq_some_iff.mp hs
    obtain ⟨hhost, hmoves⟩ := hx.service hservice
    exact hx.advance r.turns hhost hmoves (pass_agrees hmoves r.now) hpass

theorem Sound.run (hx : Sound now x) {rounds : List Round}
    (hrun : Hosting.run x rounds = some y) : Sound now y := by
  induction rounds generalizing x with
  | nil =>
    cases hrun
    exact hx
  | cons r rounds ih =>
    obtain ⟨mid, hs, hrest⟩ := Option.bind_eq_some_iff.mp hrun
    exact ih (hx.step hs) hrest

/-- The server can always handle what its host hands out. -/
theorem Sound.proceeds (hx : Sound now x) (r : Round) : (Hosting.step x r).isSome := by
  have hcard : (Finset.range maxPlayers).card ≤ maxPlayers := (Finset.card_range _).le
  unfold Hosting.step
  split
  · rename_i host e hservice
    obtain ⟨hhost, hmoves⟩ := hx.service hservice
    obtain ⟨server, acts, hs, -⟩ := hx.hosted.step (e := (served e).event r.now) hcard
      fun p t heq => by
        have hp : e.peer = p := by
          cases e <;> cases heq
          rfl
        rw [Finset.mem_range, ← hx.peerCount, ← hp]
        exact hmoves.inside hx.host hhost
    rw [hs]
    rfl
  · obtain ⟨server, acts, hs, -⟩ :=
      hx.hosted.run hcard [.checkTimeouts r.now, .broadcast r.now] (by simp)
    rw [periodicPass, hs]
    rfl

end

/-- Whatever arrives and whenever the server disconnects players, its host's events come in the
order the server relies on, on at most `MAX_PLAYERS` pointers. -/
theorem host_keeps_order {now : ℚ} {rounds : List Round} {x : Main}
    (hrun : run (start now) rounds = some x) :
    HostOrder (fun _ => false) x.events ∧
      Server.run (Server.start now) x.events = some (x.server, x.acts) ∧
      ∀ p t, .connect p t ∈ x.events → p < maxPlayers := by
  have hx := (start_sound now).run hrun
  exact ⟨hx.order, hx.handled, hx.inside⟩

/-- A player comes in, sends a heartbeat and is not heard of again. -/
def brief : List Round :=
  [⟨[.receiveIncoming
      [.connect true true true [], .ofPeer 0 true [(.acknowledge true .verifyConnect, false)]]],
      fun _ => [], 0⟩,
    ⟨[.receiveIncoming [.ofPeer 0 true [(.send [⟨.reliable, 2, [2]⟩], true)]], .dispatchIncoming],
      fun _ => [], 1⟩,
    ⟨[.sendOutgoing [⟨0, 1, true⟩]], fun _ => [], 2⟩]

theorem host_keeps_order_brief : ∃ x, run (start 0) brief = some x ∧
    x.events = [.connect 0 0, .receive 0 [2] 1, .disconnect 0] ∧
      HostOrder (fun _ => false) x.events := by
  obtain ⟨x, hrun, hevents⟩ : ∃ x, run (start 0) brief = some x ∧
    x.events = [.connect 0 0, .receive 0 [2] 1, .disconnect 0] := ⟨_, rfl, rfl⟩
  exact ⟨x, hrun, hevents, (host_keeps_order hrun).1⟩

/-- In every run no CONNECT comes for a player in the table and no packet for anyone else, the
table fits into the broadcast buffer, and the next round always has its outcome. -/
theorem table_follows_host {now : ℚ} {rounds : List Round} {x : Main}
    (hrun : run (start now) rounds = some x) :
    x.server.players.size ≤ maxPlayers ∧
      (∀ phases host e, hostService x.host phases = (host, some e) →
        (∀ p, e = .connect p → p ∉ x.server.players.keys) ∧
        ∀ p packet, e = .receive p packet → p ∈ x.server.players.keys) ∧
      ∀ r, (step x r).isSome := by
  have hx := (start_sound now).run hrun
  refine ⟨?_, fun phases host e hservice => ⟨?_, ?_⟩, hx.proceeds⟩
  · have hkeys := hx.hosted.length_keys
    rw [Finset.card_range] at hkeys
    simpa [OrderedMap.keys, OrderedMap.size] using hkeys
  · rintro p rfl hp
    obtain ⟨-, hmoves⟩ := hx.service hservice
    have hown : Passes True (x.host.peers p).state (host.peers p).state _ := hmoves.own
    cases hown with
    | connect p hnew _ =>
      have hclosed := hnew.resolve_left (hx.accepting p)
      rw [hx.seated p hp] at hclosed
      cases hclosed
  · rintro p packet rfl
    obtain ⟨-, hmoves⟩ := hx.service hservice
    have hown : Passes True (x.host.peers p).state (host.peers p).state _ := hmoves.own
    cases hown with
    | receive p packet hconnected _ => exact hx.registered p hconnected

theorem table_follows_host_brief : ∃ x, run (start 0) (brief.take 2) = some x ∧
    x.server.players.keys = [0] ∧ ∀ r, (step x r).isSome := by
  obtain ⟨x, hrun, hkeys⟩ : ∃ x, run (start 0) (brief.take 2) = some x ∧
    x.server.players.keys = [0] := ⟨_, rfl, rfl⟩
  exact ⟨x, hrun, hkeys, (table_follows_host hrun).2.2⟩

end Fnvmp.Hosting
