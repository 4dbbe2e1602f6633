import Fnvmp.HostEvents
import Fnvmp.Lifecycle

/-!
# The client on its host

A `NetClient` with the host it creates. `m_peer` is null exactly when the host has nothing
more to say about the peer, so every event the client is given concerns its own peer, unless
somebody connects to the client.
-/

namespace Fnvmp.ClientHost

open Protocol Net Lifecycle Enet

/-- `host` is the last one created. `ops` and `calls` list what was done with the client and
what it did. -/
structure Client where
  net : NetClient := {}
  host : Host (List UInt8) := hostCreate 1
  ops : List Op := []
  calls : List HostCall := []

/-- What the game calls, with what happens in each call of `enet_host_service`. -/
inductive Call where
  | connect (host : String) (port : UInt16) (created peerMade : Bool)
  | poll (dt : ℚ) (services : List (List (Phase (List UInt8))))
  | disconnect (turns : List Turn) (services : List (List (Phase (List UInt8))))
  | send (data : List UInt8) (channel : Channel) (reliable : Bool)
  | sendPlayerSnapshot (snapshot : MsgPlayerSnapshot)
  | sendFireEvent (netEntityId : UInt32)
  | clearWorldSnapshot
  | takeDisconnectEvents
  | takeFireEvents

/-- The event as the client reads it. -/
def read : Enet.HostEvent (List UInt8) → Net.HostEvent
  | .connect _ => .connect
  | .receive _ post => .receive post.packet
  | .disconnect _ => .disconnect

/-- The loop of `Poll`, which ends with the first call that brings nothing. No handler touches
the host but by sending. -/
def serve : List (List (Phase (List UInt8))) → Host (List UInt8) →
    Option (Host (List UInt8) × List Net.HostEvent)
  | [], _ => none
  | phases :: rest, h =>
    match hostService h phases with
    | (h, none) => some (h, [])
    | (h, some e) => (serve rest h).map fun (h, es) => (h, read e :: es)

/-- The loop of `Disconnect`. -/
def await : List (List (Phase (List UInt8))) → Host (List UInt8) →
    Host (List UInt8) × List (Option Net.HostEvent)
  | [], h => (h, [])
  | phases :: rest, h =>
    match hostService h phases with
    | (h, some (.disconnect _)) => (h, [some .disconnect])
    | (h, e) =>
      let (h, es) := await rest h
      (h, e.map read :: es)

/-- The host that `Connect` leaves behind. -/
def connectedHost (x : Client) (created peerMade : Bool) : Host (List UInt8) :=
  if !x.net.client && created && peerMade then
    match hostConnect (hostCreate 1) with
    | some (h, _) => h
    | none => x.host
  else x.host

/-- A call as an operation of the client, with the events of its host. -/
def operation (x : Client) : Call → Option (Op × Host (List UInt8))
  | .connect host port created peerMade =>
    some (.connect host port created peerMade, connectedHost x created peerMade)
  | .poll dt services =>
    if x.net.client then (serve services x.host).map fun (h, es) => (.poll dt es, h)
    else some (.poll dt [], x.host)
  | .disconnect turns services =>
    if x.net.client && x.net.peer && x.net.connected then
      let (h, served) := await (services.take 10) (peerDisconnect x.host 0 turns)
      some (.disconnect served, h)
    else some (.disconnect [], x.host)
  | .send data channel reliable => some (.send data channel reliable, x.host)
  | .sendPlayerSnapshot snapshot => some (.sendPlayerSnapshot snapshot, x.host)
  | .sendFireEvent netEntityId => some (.sendFireEvent netEntityId, x.host)
  | .clearWorldSnapshot => some (.clearWorldSnapshot, x.host)
  | .takeDisconnectEvents => some (.takeDisconnectEvents, x.host)
  | .takeFireEvents => some (.takeFireEvents, x.host)

def step (x : Client) (c : Call) : Option Client :=
  (operation x c).bind fun (op, host) =>
    (Lifecycle.step x.net op).map fun (net, calls) =>
      ⟨net, host, x.ops ++ [op], x.calls ++ calls⟩

def run (x : Client) (cs : List Call) : Option Client := cs.foldlM step x

/-- Somebody connects to the client. -/
def Call.calls : Call → Bool
  | .poll _ services | .disconnect _ services => services.any fun phases => phases.any Phase.calls
  | .connect _ _ _ _ | .send _ _ _ | .sendPlayerSnapshot _ | .sendFireEvent _
  | .clearWorldSnapshot | .takeDisconnectEvents | .takeFireEvents => false

/-! ## A host with nothing to say -/

section

variable {h h' : Host (List UInt8)} {c : NetClient}

def Idle (h : Host (List UInt8)) : Prop := ∀ p, (h.peers p).state = .disconnected

theorem dispatchFrom_idle (hidle : Idle h) (queue : List ℕ) :
    Idle (dispatchFrom queue h).1 ∧ (dispatchFrom queue h).2 = none := by
  induction queue generalizing h with
  | nil => exact ⟨hidle, rfl⟩
  | cons p rest ih =>
    have hpop : Idle (h.pop p rest) := fun q => by rw [Host.pop_state, hidle q]
    rw [dispatchFrom]
    dsimp only
    rw [hpop p]
    exact ih hpop

theorem sendOutgoingCommands_idle (hidle : Idle h) (turns : List Turn) :
    sendOutgoingCommands turns h = (h, none) := by
  induction turns with
  | nil => rfl
  | cons turn rest ih => rw [sendOutgoingCommands, if_pos (.inl (hidle turn.peer)), ih]

theorem receiveIncomingCommands_idle (hidle : Idle h) {datagrams : List (Datagram (List UInt8))}
    (hcalls : datagrams.any Datagram.calls = false) :
    receiveIncomingCommands datagrams h = (h, none) := by
  induction datagrams with
  | nil => rfl
  | cons datagram rest ih =>
    rw [List.any_cons, Bool.or_eq_false_iff] at hcalls
    have hnone : handleIncomingCommands h datagram = (h, none) := by
      cases datagram with
      | ofPeer peerID sentTime commands =>
        rw [handleIncomingCommands]
        split
        · rfl
        · rw [if_pos (.inl (hidle peerID))]
      | connect accepted acknowledged sentTime commands => cases hcalls.1
    rw [receiveIncomingCommands, hnone]
    exact ih hcalls.2

theorem servicePhases_idle (hidle : Idle h) {phases : List (Phase (List UInt8))}
    (hcalls : phases.any Phase.calls = false) :
    Idle (servicePhases phases h).1 ∧ (servicePhases phases h).2 = none := by
  induction phases generalizing h with
  | nil => exact ⟨hidle, rfl⟩
  | cons phase rest ih =>
    rw [List.any_cons, Bool.or_eq_false_iff] at hcalls
    have hphase : Idle (phase.run h).1 ∧ (phase.run h).2 = none := by
      cases phase with
      | sendOutgoing turns =>
        rw [Phase.run, sendOutgoingCommands_idle hidle]
        exact ⟨hidle, rfl⟩
      | receiveIncoming datagrams =>
        rw [Phase.run, receiveIncomingCommands_idle hidle hcalls.1]
        exact ⟨hidle, rfl⟩
      | dispatchIncoming => exact dispatchFrom_idle hidle _
    rw [servicePhases]
    split
    · rename_i heq
      rw [heq] at hphase
      cases hphase.2
    · rename_i heq
      rw [heq] at hphase
      exact ih hphase.1 hcalls.2

/-- A free peer that nobody connects to stays free. -/
theorem hostService_idle (hidle : Idle h) {phases : List (Phase (List UInt8))}
    (hcalls : phases.any Phase.calls = false) :
    Idle (hostService h phases).1 ∧ (hostService h phases).2 = none := by
  have hfirst := dispatchFrom_idle hidle h.dispatchQueue
  rw [hostService, dispatchIncomingCommands]
  split
  · rename_i heq
    rw [heq] at hfirst
    cases hfirst.2
  · rename_i heq
    rw [heq] at hfirst
    exact servicePhases_idle hfirst.1 hcalls

end

/-! ## The client and its peer -/

/-- `m_peer` is set as long as a DISCONNECT is due, and only a made connection is used. -/
structure Holds (c : NetClient) (h : Host (List UInt8)) : Prop where
  sound : h.Sound
  direct : h.Direct
  single : h.peerCount = 1
  own : (h.peers 0).state ≠ .acknowledgingConnect
  peer : c.peer = (h.peers 0).state.owed
  connected : c.connected = true → (h.peers 0).state.opened = true

section

variable {h h' : Host (List UInt8)} {c : NetClient}

theorem Holds.idle (hc : Holds c h) (hpeer : c.peer = false) : Idle h := by
  intro p
  by_contra hstate
  have hp : p = 0 := Nat.lt_one_iff.mp (hc.single ▸ hc.sound.inside p hstate)
  subst hp
  have hfree := hc.peer.symm.trans hpeer
  have hdirect := hc.direct 0
  have hown := hc.own
  cases heq : (h.peers 0).state with
  | disconnected => exact hstate heq
  | acknowledgingConnect => exact hown heq
  | connectionPending | connectionSucceeded =>
    rw [heq] at hdirect
    cases hdirect
  | connecting | connected | disconnecting | acknowledgingDisconnect | zombie =>
    rw [heq] at hfree
    cases hfree

theorem Holds.own_before (hc : Holds c h) {e : Option (Enet.HostEvent (List UInt8))}
    (hmoves : Moves False h h' e) : (h'.peers 0).state ≠ .acknowledgingConnect := by
  exact fun heq => ((hmoves.passes 0).incoming heq).elim hc.own id

theorem Holds.quiet (hc : Holds c h) (hs : h'.Sound) (hmoves : Moves False h h' none) :
    Holds c h' where
  sound := hs
  direct := hmoves.direct
  single := hmoves.peerCount.trans hc.single
  own := hc.own_before hmoves
  peer := hc.peer.trans (hmoves.passes 0).same.symm
  connected hyes := (hmoves.passes 0).opened (hc.connected hyes)

theorem handleReceive_keeps {data : List UInt8} {c' : NetClient} {sent : List Sent}
    (hs : handleReceive c data = some (c', sent)) : c'.client = c.client ∧ c'.peer = c.peer := by
  rw [handleReceive_eq, Option.some.injEq] at hs
  cases hparse : ServerMessage.parse data with
  | none =>
    rw [hparse] at hs
    cases hs
    exact ⟨rfl, rfl⟩
  | some msg =>
    rw [hparse, Option.map_some, Option.getD_some] at hs
    have hkept := apply_client c msg
    rw [hs] at hkept
    exact hkept

/-- A packet comes over an open connection, and nothing more is due after a DISCONNECT. -/
theorem Holds.event (hc : Holds c h) (hs : h'.Sound) {e : Enet.HostEvent (List UInt8)}
    (hmoves : Moves False h h' (some e)) (hpeer : c.peer = true) {c' : NetClient}
    {sent : List Sent} (he : handleEvent c (read e) = some (c', sent)) :
    Holds c' h' ∧ c'.client = c.client := by
  have hzero : e.peer = 0 := by
    have hlt := hmoves.inside hc.sound hs
    rw [hc.single] at hlt
    exact Nat.lt_one_iff.mp hlt
  have hown := hmoves.own
  rw [hzero] at hown
  have holds : ∀ c' : NetClient, c'.peer = (h'.peers 0).state.owed →
      (c'.connected = true → (h'.peers 0).state.opened = true) → Holds c' h' :=
    fun c' hpeer' hconnected' => ⟨hs, hmoves.direct, hmoves.peerCount.trans hc.single,
      hc.own_before hmoves, hpeer', hconnected'⟩
  cases hown with
  | connect p _ hopened =>
    cases he
    exact ⟨holds c (hpeer.trans (PeerState.owed_of_opened hopened).symm) fun _ => hopened, rfl⟩
  | receive p packet _ hopened =>
    obtain ⟨hclient, hpeer'⟩ := handleReceive_keeps he
    exact ⟨holds c' ((hpeer'.trans hpeer).trans (PeerState.owed_of_opened hopened).symm)
      fun _ => hopened, hclient⟩
  | disconnect p _ hfree _ =>
    cases he
    exact ⟨holds _ hfree.symm fun hyes => absurd hyes Bool.false_ne_true, rfl⟩

theorem Holds.service (hc : Holds c h) {phases : List (Phase (List UInt8))}
    (hcalls : phases.any Phase.calls = false) {e : Option (Enet.HostEvent (List UInt8))}
    (hservice : hostService h phases = (h', e)) :
    h'.Sound ∧ Moves False h h' e ∧ (c.peer = false → e = none) := by
  have hs := hc.sound.hostService phases
  have hmoves : Moves False h _ _ := hostService_moves hc.sound hc.direct phases
    fun hyes => Bool.false_ne_true (hcalls.symm.trans hyes)
  rw [hservice] at hs hmoves
  refine ⟨hs, hmoves, fun hpeer => ?_⟩
  have hnone := (hostService_idle (hc.idle hpeer) hcalls).2
  rw [hservice] at hnone
  exact hnone

/-- The loop of `Poll` keeps the client and its host together. -/
theorem Holds.serve (hc : Holds c h) {services : List (List (Phase (List UInt8)))}
    (hcalls : services.any (fun phases => phases.any Phase.calls) = false) {es : List HostEvent}
    (hserve : ClientHost.serve services h = some (h', es)) {c' : NetClient} {sent : List Sent}
    (hdrain : drain c es = some (c', sent)) :
    Holds c' h' ∧ c'.client = c.client ∧ Ends es ∧ (c.peer = false → es = []) := by
  induction services generalizing h c es sent with
  | nil => cases hserve
  | cons phases rest ih =>
    rw [List.any_cons, Bool.or_eq_false_iff] at hcalls
    rw [ClientHost.serve] at hserve
    split at hserve
    · rename_i h₁ hservice
      cases hserve
      cases hdrain
      obtain ⟨hs, hmoves, -⟩ := hc.service hcalls.1 hservice
      exact ⟨hc.quiet hs hmoves, rfl, trivial, fun _ => rfl⟩
    · rename_i h₁ e hservice
      obtain ⟨⟨h₂, es'⟩, hrest, heq⟩ := Option.map_eq_some_iff.mp hserve
      cases heq
      obtain ⟨hs, hmoves, hnone⟩ := hc.service hcalls.1 hservice
      have hpeer : c.peer = true := by
        by_contra hno
        cases hnone (by simpa using hno)
      obtain ⟨⟨c₁, out⟩, he, hmore⟩ := Option.bind_eq_some_iff.mp hdrain
      obtain ⟨⟨c₂, out'⟩, htail, heq⟩ := Option.map_eq_some_iff.mp hmore
      cases heq
      obtain ⟨hc₁, hclient₁⟩ := hc.event hs hmoves hpeer he
      obtain ⟨hc₂, hclient₂, hends, hover⟩ := ih hc₁ hcalls.2 hrest htail
      refine ⟨hc₂, hclient₂.trans hclient₁, ?_, fun hno => ?_⟩
      · cases e with
        | connect p | receive p packet => exact hends
        | disconnect p =>
          cases he
          exact hover rfl
      · rw [hpeer] at hno
        cases hno

/-- Nothing is read after the DISCONNECT. -/
theorem await_ends (services : List (List (Phase (List UInt8)))) (h : Host (List UInt8)) :
    Ends ((await services h).2.filterMap id) := by
  induction services generalizing h with
  | nil => exact trivial
  | cons phases rest ih =>
    rw [await]
    split
    · exact rfl
    · rename_i h₁ e hno _
      cases e with
      | none => exact ih h₁
      | some e =>
        cases e with
        | connect p | receive p packet => exact ih h₁
        | disconnect p => exact absurd rfl (hno p)

end

/-! ## Whole runs -/

theorem admissible_snoc {c : NetClient} {ops : List Op} {op : Op} (h : Admissible c ops)
    (hop : ∀ c' calls, Lifecycle.run c ops = some (c', calls) → op.Admissible c') :
    Admissible c (ops ++ [op]) := by
  induction ops generalizing c with
  | nil => exact ⟨hop c [] rfl, fun _ _ _ => trivial⟩
  | cons first ops ih =>
    refine ⟨h.1, fun c₁ calls₁ hs => ih (h.2 c₁ calls₁ hs) fun c' calls hrun => ?_⟩
    exact hop c' (calls₁ ++ calls)
      (EventRun.exec_cons_eq_some.mpr ⟨c₁, calls₁, calls, hs, hrun, rfl⟩)

/-- What every run keeps, as long as nobody connects to the client. -/
structure Sound (x : Client) : Prop where
  admissible : Admissible {} x.ops
  handled : Lifecycle.run {} x.ops = some (x.net, x.calls)
  closed : x.net.client = false → x.net = {}
  opened : x.net.client = true → Holds x.net x.host

theorem start_sound : Sound {} where
  admissible := trivial
  handled := rfl
  closed _ := rfl
  opened h := absurd h (by decide)

section

variable {x y : Client}

/-- One more operation of a client that goes on with its host. -/
theorem Sound.advance (hx : Sound x) {op : Op} {host : Host (List UInt8)} {net : NetClient}
    {calls : List HostCall} (hop : op.Admissible x.net)
    (hstep : Lifecycle.step x.net op = some (net, calls)) (hclosed : net.client = false → net = {})
    (hopened : net.client = true → Holds net host) :
    Sound ⟨net, host, x.ops ++ [op], x.calls ++ calls⟩ where
  admissible := admissible_snoc hx.admissible fun c' calls' hrun => by
    cases hx.handled.symm.trans hrun
    exact hop
  handled := EventRun.exec_append.mpr ⟨x.net, x.calls, calls, hx.handled,
    EventRun.exec_cons_eq_some.mpr ⟨net, calls, [], hstep, rfl, (List.append_nil calls).symm⟩, rfl⟩
  closed := hclosed
  opened := hopened

/-- An operation that brings no event and only touches what the host does not see. -/
theorem Sound.still (hx : Sound x) {op : Op} {net : NetClient} {calls : List HostCall}
    (hevents : op.events = []) (hstep : Lifecycle.step x.net op = some (net, calls))
    (hclient : net.client = x.net.client) (hpeer : net.peer = x.net.peer)
    (hconnected : net.connected = x.net.connected) (hfresh : x.net = {} → net = {}) :
    Sound ⟨net, x.host, x.ops ++ [op], x.calls ++ calls⟩ := by
  refine hx.advance ⟨fun _ => hevents, hevents ▸ trivial⟩ hstep
    (fun hno => hfresh (hx.closed (hclient ▸ hno))) fun hyes => ?_
  have hc := hx.opened (hclient ▸ hyes)
  exact ⟨hc.sound, hc.direct, hc.single, hc.own, hpeer.trans hc.peer,
    fun h => hc.connected (hconnected ▸ h)⟩

/-- A fresh host that has begun to connect. -/
theorem connect_holds {host : Host (List UInt8)} {p : ℕ}
    (hconnect : hostConnect (hostCreate 1) = some (host, p)) :
    Holds { client := true, peer := true } host := by
  have hsound := (hostCreate_sound (α := List UInt8) 1).hostConnect hconnect
  cases hconnect
  exact ⟨hsound, fun q => by rw [changeState_state]; split <;> rfl, rfl, by simp, rfl,
    fun h => absurd h Bool.false_ne_true⟩

theorem connect_sound (hx : Sound x) (host : String) (port : UInt16) (created peerMade : Bool)
    (hy : step x (.connect host port created peerMade) = some y) : Sound y := by
  cases hy
  refine hx.advance ⟨fun _ => rfl, trivial⟩ rfl ?_ ?_
  · intro hno
    cases hclient : x.net.client with
    | true =>
      rw [connect, if_pos hclient] at hno
      exact absurd (hclient.symm.trans hno) (by decide)
    | false =>
      rw [hx.closed hclient] at hno ⊢
      cases created <;> cases peerMade <;> first | rfl | cases hno
  · intro hyes
    cases hclient : x.net.client with
    | true =>
      rw [connect, if_pos hclient, connectedHost, hclient]
      exact hx.opened hclient
    | false =>
      rw [hx.closed hclient] at hyes ⊢
      cases created <;> cases peerMade <;> try cases hyes
      rw [connectedHost, hclient]
      exact connect_holds rfl

theorem poll_sound (hx : Sound x) (dt : ℚ) {services : List (List (Phase (List UInt8)))}
    (hcalls : services.any (fun phases => phases.any Phase.calls) = false)
    (hy : step x (.poll dt services) = some y) : Sound y := by
  obtain ⟨⟨op, host⟩, hoperation, hrest⟩ := Option.bind_eq_some_iff.mp hy
  obtain ⟨⟨net, calls⟩, hstep, rfl⟩ := Option.map_eq_some_iff.mp hrest
  rw [operation] at hoperation
  cases hclient : x.net.client with
  | false =>
    rw [hclient] at hoperation
    cases hoperation
    have hnet : net = x.net := by
      rw [Lifecycle.step, poll, if_pos hclient] at hstep
      cases hstep
      rfl
    subst hnet
    exact hx.still rfl hstep rfl rfl rfl id
  | true =>
    rw [hclient, if_pos rfl] at hoperation
    obtain ⟨⟨h, es⟩, hserve, heq⟩ := Option.map_eq_some_iff.mp hoperation
    cases heq
    have hs := hstep
    rw [Lifecycle.step, poll, if_neg (by simp [hclient])] at hs
    obtain ⟨⟨m, sent⟩, hpoll, heq⟩ := Option.map_eq_some_iff.mp hs
    cases heq
    obtain ⟨⟨drained, out⟩, hdrain, hbeat⟩ := Option.map_eq_some_iff.mp hpoll
    obtain ⟨hheld, hkept, hends, hnone⟩ := (hx.opened hclient).serve hcalls hserve hdrain
    have hsame : m.client = drained.client ∧ m.peer = drained.peer ∧
        m.connected = drained.connected := by
      dsimp only at hbeat
      split at hbeat
      · split at hbeat <;> cases hbeat <;> exact ⟨rfl, rfl, rfl⟩
      · cases hbeat
        exact ⟨rfl, rfl, rfl⟩
    obtain ⟨hmclient, hmpeer, hmconnected⟩ := hsame
    refine hx.advance ⟨hnone, hends⟩ hstep (fun hno => ?_) fun _ => ?_
    · exact absurd ((hmclient.trans (hkept.trans hclient)).symm.trans hno) (by decide)
    · exact ⟨hheld.sound, hheld.direct, hheld.single, hheld.own, hmpeer.trans hheld.peer,
        fun h => hheld.connected (hmconnected ▸ h)⟩

theorem disconnect_sound (hx : Sound x) (turns : List Turn)
    (services : List (List (Phase (List UInt8))))
    (hy : step x (.disconnect turns services) = some y) : Sound y := by
  obtain ⟨⟨op, host⟩, hoperation, hrest⟩ := Option.bind_eq_some_iff.mp hy
  obtain ⟨⟨net, calls⟩, hstep, rfl⟩ := Option.map_eq_some_iff.mp hrest
  have hfresh : ∀ served, Lifecycle.step x.net (.disconnect served) = some (net, calls) →
      net = {} := fun served hs => by
    rw [← disconnect_fresh x.net served hx.closed]
    exact (congrArg Prod.fst (Option.some.inj hs)).symm
  rw [operation] at hoperation
  split at hoperation
  · rename_i hopen
    cases hoperation
    have hnet := hfresh _ hstep
    refine hx.advance ⟨fun hpeer => ?_, await_ends _ _⟩ hstep (fun _ => hnet) fun hyes => ?_
    · rw [hpeer] at hopen
      simp at hopen
    · rw [hnet] at hyes
      cases hyes
  · cases hoperation
    have hnet := hfresh _ hstep
    refine hx.advance ⟨fun _ => rfl, trivial⟩ hstep (fun _ => hnet) fun hyes => ?_
    rw [hnet] at hyes
    cases hyes

theorem Sound.step (hx : Sound x) {c : Call} (hcalls : c.calls = false)
    (hy : ClientHost.step x c = some y) : Sound y := by
  cases c with
  | connect host port created peerMade => exact connect_sound hx host port created peerMade hy
  | poll dt services => exact poll_sound hx dt hcalls hy
  | disconnect turns services => exact disconnect_sound hx turns services hy
  | send data channel reliable =>
    cases hy
    exact hx.still rfl rfl rfl rfl rfl id
  | sendPlayerSnapshot snapshot =>
    cases hy
    have hkept : ∀ c : NetClient, (sendPlayerSnapshot c snapshot).1 = c ∨ c.connected = true ∧
        (sendPlayerSnapshot c snapshot).1 = { c with snapshotSeq := c.snapshotSeq + 1 } := by
      intro c
      unfold sendPlayerSnapshot
      split
      · exact .inr ⟨‹_›, rfl⟩
      · exact .inl rfl
    rcases hkept x.net with heq | ⟨hconnected, heq⟩
    · exact hx.still rfl rfl (by rw [heq]) (by rw [heq]) (by rw [heq]) fun h => heq.trans h
    · refine hx.still rfl rfl (by rw [heq]) (by rw [heq]) (by rw [heq]) fun h => ?_
      rw [h] at hconnected
      cases hconnected
  | sendFireEvent netEntityId =>
    cases hy
    exact hx.still rfl rfl rfl rfl rfl id
  | clearWorldSnapshot =>
    cases hy
    exact hx.still rfl rfl rfl rfl rfl fun h => by rw [h]; rfl
  | takeDisconnectEvents =>
    cases hy
    exact hx.still rfl rfl rfl rfl rfl fun h => by rw [h]; rfl
  | takeFireEvents =>
    cases hy
    exact hx.still rfl rfl rfl rfl rfl fun h => by rw [h]; rfl

theorem Sound.run (hx : Sound x) {cs : List Call} (hcalls : cs.any Call.calls = false)
    (hy : ClientHost.run x cs = some y) : Sound y := by
  induction cs generalizing x with
  | nil =>
    cases hy
    exact hx
  | cons c cs ih =>
    rw [List.any_cons, Bool.or_eq_false_iff] at hcalls
    obtain ⟨mid, hs, hrest⟩ := Option.bind_eq_some_iff.mp hy
    exact ih (hx.step hcalls.1 hs) hcalls.2 hrest

end

/-- Only a connected client asks its host for a disconnection. -/
theorem disconnectPeer_connected {c : NetClient} {served : List (Option HostEvent)}
    (h : .disconnectPeer ∈ (disconnect c served).2) : c.client = true ∧ c.connected = true := by
  unfold disconnect at h
  split at h
  · cases h
  next hopen =>
    refine ⟨by simpa using hopen, ?_⟩
    by_contra hconnected
    simp only [hconnected, and_false, if_false] at h
    split at h <;> simp at h

/-- In every run in which nobody connects to the client, its host gives it events of its own
peer alone and none after the DISCONNECT; `m_peer` is set exactly as long as the peer is in
use, a client that takes itself for connected has a connection, and only on one does it call
`enet_peer_disconnect`. -/
theorem client_admissible {cs : List Call} {x : Client} (hcalls : cs.any Call.calls = false)
    (hrun : run {} cs = some x) :
    Admissible {} x.ops ∧ Lifecycle.run {} x.ops = some (x.net, x.calls) ∧
      (x.net.client = true → x.net.peer = (x.host.peers 0).state.owed ∧
        (x.net.connected = true → (x.host.peers 0).state.opened = true)) ∧
      ∀ served, .disconnectPeer ∈ (disconnect x.net served).2 →
        (x.host.peers 0).state.opened = true := by
  have hx := start_sound.run hcalls hrun
  refine ⟨hx.admissible, hx.handled, fun h => ⟨(hx.opened h).peer, (hx.opened h).connected⟩,
    fun served hcall => ?_⟩
  obtain ⟨hopen, hconnected⟩ := disconnectPeer_connected hcall
  exact (hx.opened hopen).connected hconnected

/-- A session in which the id 7 is assigned, until the server goes away. -/
def visit : List Call :=
  [.connect "localhost" 27015 true true,
    .poll 0 [[.receiveIncoming [.ofPeer 0 true [(.verifyConnect true, true)]]],
      [.receiveIncoming [.ofPeer 0 true [(.send [⟨.reliable, 2, [1, 7, 0, 0, 0]⟩], true)]],
        .dispatchIncoming], []],
    .sendFireEvent 7,
    .poll 1 [[.receiveIncoming [.ofPeer 0 true [(.disconnect, false)]], .dispatchIncoming], []],
    .disconnect [] []]

/-- In the middle of the visit the client is connected, after it the client is new again. -/
theorem client_admissible_visit :
    (∃ x, run {} (visit.take 3) = some x ∧ x.net.netEntityId = 7 ∧ Admissible {} x.ops ∧
      Lifecycle.run {} x.ops = some (x.net, x.calls) ∧
      (x.net.client = true → x.net.peer = (x.host.peers 0).state.owed ∧
        (x.net.connected = true → (x.host.peers 0).state.opened = true)) ∧
      ∀ served, .disconnectPeer ∈ (disconnect x.net served).2 →
        (x.host.peers 0).state.opened = true) ∧
    ∃ x, run {} visit = some x ∧ x.net = {} ∧
      Admissible {} x.ops ∧ Lifecycle.run {} x.ops = some (x.net, x.calls) := by
  constructor
  · obtain ⟨x, hrun, hid⟩ := Option.map_eq_some_iff.mp
      (show (run {} (visit.take 3)).map (fun x => x.net.netEntityId) = some 7 from by
        decide +kernel)
    exact ⟨x, hrun, hid, client_admissible (by decide) hrun⟩
  · obtain ⟨x, hrun, hnet⟩ := Option.map_eq_some_iff.mp
      (show (run {} visit).map Client.net = some {} from by decide +kernel)
    obtain ⟨hadmissible, hhandled, -⟩ := client_admissible (by decide) hrun
    exact ⟨x, hrun, hnet, hadmissible, hhandled⟩

end Fnvmp.ClientHost
