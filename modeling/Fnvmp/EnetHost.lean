import Fnvmp.Enet

/-!
# The host above the connections

What a host does with its peers: how a connection comes and goes, and which events
`enet_host_service` hands out. What the queues of a connected peer do with its packets is
told apart from this; here a command says what it puts in order. The host is always asked for
an event, and `enet_peer_disconnect_later` is never called.
-/

namespace Fnvmp.Enet

variable {α : Type}

/-- `ENetPeerState`, without the state of `enet_peer_disconnect_later`. -/
inductive PeerState where
  | disconnected
  | connecting
  | acknowledgingConnect
  | connectionPending
  | connectionSucceeded
  | connected
  | disconnecting
  | acknowledgingDisconnect
  | zombie
  deriving DecidableEq, Repr

/-- `ENetProtocolCommand`, as far as a handler asks for it. -/
inductive CommandNumber where
  | none
  | verifyConnect
  | disconnect
  | other
  deriving DecidableEq, Repr

/-- What an `ENetPeer` holds beside its queues: `acknowledgements` lists the commands to be
acknowledged, `needsDispatch` is the flag of that name. -/
structure Peer (α : Type) where
  state : PeerState := .disconnected
  needsDispatch : Bool := false
  dispatchedCommands : List (Post α) := []
  acknowledgements : List CommandNumber := []
  deriving DecidableEq, Repr

/-- `dispatchQueue` runs through the peers themselves: to put one in that is in it breaks the
list. `broken` records whether this ever happened. -/
structure Host (α : Type) where
  peerCount : ℕ
  peers : ℕ → Peer α := fun _ => {}
  dispatchQueue : List ℕ := []
  broken : Bool := false

/-- `ENetEvent`, for a peer. -/
inductive HostEvent (α : Type) where
  | connect (peer : ℕ)
  | receive (peer : ℕ) (packet : Post α)
  | disconnect (peer : ℕ)
  deriving DecidableEq, Repr

namespace Host

def set (h : Host α) (p : ℕ) (x : Peer α) : Host α :=
  { h with peers := Function.update h.peers p x }

@[simp] theorem set_peers (h : Host α) (p : ℕ) (x : Peer α) :
    (h.set p x).peers = Function.update h.peers p x := rfl

@[simp] theorem set_dispatchQueue (h : Host α) (p : ℕ) (x : Peer α) :
    (h.set p x).dispatchQueue = h.dispatchQueue := rfl

@[simp] theorem set_broken (h : Host α) (p : ℕ) (x : Peer α) : (h.set p x).broken = h.broken := rfl

@[simp] theorem set_peerCount (h : Host α) (p : ℕ) (x : Peer α) :
    (h.set p x).peerCount = h.peerCount := rfl

/-- The peer goes to the end of the dispatch queue, unless it is marked to be there. -/
def enqueue (h : Host α) (p : ℕ) : Host α :=
  if (h.peers p).needsDispatch then h
  else
    { h with
      peers := Function.update h.peers p { h.peers p with needsDispatch := true }
      dispatchQueue := h.dispatchQueue ++ [p]
      broken := h.broken || decide (p ∈ h.dispatchQueue) }

/-- The first peer of the queue leaves it, and its mark goes. -/
def pop (h : Host α) (p : ℕ) (rest : List ℕ) : Host α :=
  { h.set p { h.peers p with needsDispatch := false } with dispatchQueue := rest }

end Host

/-! ## The state of a peer -/

/-- `enet_protocol_change_state`, without the host's counts. -/
def changeState (h : Host α) (p : ℕ) (state : PeerState) : Host α :=
  h.set p { h.peers p with state }

/-- `enet_protocol_dispatch_state`. -/
def dispatchState (h : Host α) (p : ℕ) (state : PeerState) : Host α :=
  (changeState h p state).enqueue p

/-- `enet_peer_reset_queues`. -/
def peerResetQueues (h : Host α) (p : ℕ) : Host α :=
  { h with
    peers := Function.update h.peers p { state := (h.peers p).state }
    dispatchQueue :=
      if (h.peers p).needsDispatch then h.dispatchQueue.erase p else h.dispatchQueue }

/-- `enet_peer_reset`: the flags are cleared before the queues are. -/
def peerReset (h : Host α) (p : ℕ) : Host α :=
  peerResetQueues (h.set p { h.peers p with state := .disconnected, needsDispatch := false }) p

section

variable (h : Host α) (p q : ℕ) (state : PeerState)

@[simp] theorem Host.enqueue_state : ((h.enqueue p).peers q).state = (h.peers q).state := by
  unfold Host.enqueue
  split
  · rfl
  · by_cases hq : q = p
    · subst hq
      simp
    · simp [Function.update_of_ne hq]

@[simp] theorem Host.enqueue_acknowledgements :
    ((h.enqueue p).peers q).acknowledgements = (h.peers q).acknowledgements := by
  unfold Host.enqueue
  split
  · rfl
  · by_cases hq : q = p
    · subst hq
      simp
    · simp [Function.update_of_ne hq]

@[simp] theorem Host.enqueue_peerCount : (h.enqueue p).peerCount = h.peerCount := by
  unfold Host.enqueue
  split <;> rfl

@[simp] theorem Host.pop_peerCount (rest : List ℕ) : (h.pop p rest).peerCount = h.peerCount := rfl

@[simp] theorem changeState_peerCount : (changeState h p state).peerCount = h.peerCount := rfl

@[simp] theorem dispatchState_peerCount : (dispatchState h p state).peerCount = h.peerCount := by
  simp [dispatchState]

@[simp] theorem peerResetQueues_peerCount : (peerResetQueues h p).peerCount = h.peerCount := rfl

@[simp] theorem peerReset_peerCount : (peerReset h p).peerCount = h.peerCount := rfl

@[simp] theorem Host.pop_state (rest : List ℕ) :
    ((h.pop p rest).peers q).state = (h.peers q).state := by
  by_cases hq : q = p
  · subst hq
    simp [Host.pop]
  · simp [Host.pop, hq]

@[simp] theorem changeState_state :
    ((changeState h p state).peers q).state = if q = p then state else (h.peers q).state := by
  by_cases hq : q = p
  · subst hq
    simp [changeState]
  · simp [changeState, hq]

@[simp] theorem dispatchState_state :
    ((dispatchState h p state).peers q).state = if q = p then state else (h.peers q).state := by
  simp [dispatchState]

@[simp] theorem peerResetQueues_state :
    ((peerResetQueues h p).peers q).state = (h.peers q).state := by
  by_cases hq : q = p
  · subst hq
    simp [peerResetQueues]
  · simp [peerResetQueues, hq]

theorem peerReset_eq : peerReset h p = h.set p {} := by
  simp [peerReset, peerResetQueues, Host.set]

@[simp] theorem peerReset_state :
    ((peerReset h p).peers q).state = if q = p then .disconnected else (h.peers q).state := by
  rw [peerReset_eq]
  by_cases hq : q = p
  · subst hq
    simp
  · simp [hq]

end

/-- `enet_protocol_notify_connect`. -/
def notifyConnect (h : Host α) (p : ℕ) : Host α × Option (HostEvent α) :=
  (changeState h p .connected, some (.connect p))

/-- `enet_protocol_notify_disconnect`: an incoming connection that was never made goes without
an event. -/
def notifyDisconnect (h : Host α) (p : ℕ) : Host α × Option (HostEvent α) :=
  match (h.peers p).state with
  | .disconnected | .acknowledgingConnect | .connectionPending => (peerReset h p, none)
  | _ => (peerReset h p, some (.disconnect p))

/-! ## Events that wait -/

/-- The loop of `enet_protocol_dispatch_incoming_commands`. -/
def dispatchFrom : List ℕ → Host α → Host α × Option (HostEvent α)
  | [], h => ({ h with dispatchQueue := [] }, none)
  | p :: rest, h =>
    let h := h.pop p rest
    match (h.peers p).state with
    | .connectionPending | .connectionSucceeded => notifyConnect h p
    | .zombie => (peerReset h p, some (.disconnect p))
    | .connected =>
      match (h.peers p).dispatchedCommands with
      | [] => dispatchFrom rest h
      | packet :: more =>
        let h := h.set p { h.peers p with dispatchedCommands := more }
        (if more = [] then h else h.enqueue p, some (.receive p packet))
    | _ => dispatchFrom rest h

/-- `enet_protocol_dispatch_incoming_commands`. -/
def dispatchIncomingCommands (h : Host α) : Host α × Option (HostEvent α) :=
  dispatchFrom h.dispatchQueue h

/-! ## What arrives -/

/-- A command for a peer. An ACKNOWLEDGE comes with the command it acknowledges; `ping` stands
for all that only a connected peer may send and that leave everything here as it is. -/
inductive Command (α : Type) where
  | acknowledge (inTime : Bool) (acknowledged : CommandNumber)
  | verifyConnect (accepted : Bool)
  | disconnect
  | ping
  | send (arrived : List (Post α))

def Command.number : Command α → CommandNumber
  | .disconnect => .disconnect
  | .verifyConnect _ => .verifyConnect
  | .acknowledge _ _ | .ping | .send _ => .other

/-- `enet_protocol_handle_acknowledge`; the last component is whether it returns 0. -/
def handleAcknowledge (h : Host α) (p : ℕ) (inTime : Bool) (acknowledged : CommandNumber) :
    Host α × Option (HostEvent α) × Bool :=
  if !inTime then (h, none, true)
  else
    match (h.peers p).state with
    | .acknowledgingConnect =>
      if acknowledged = .verifyConnect then
        let (h, e) := notifyConnect h p
        (h, e, true)
      else (h, none, false)
    | .disconnecting =>
      if acknowledged = .disconnect then
        let (h, e) := notifyDisconnect h p
        (h, e, true)
      else (h, none, false)
    | _ => (h, none, true)

/-- `enet_protocol_handle_verify_connect`. -/
def handleVerifyConnect (h : Host α) (p : ℕ) (accepted : Bool) :
    Host α × Option (HostEvent α) × Bool :=
  if (h.peers p).state ≠ .connecting then (h, none, true)
  else if accepted then
    let (h, e) := notifyConnect h p
    (h, e, true)
  else (dispatchState h p .zombie, none, false)

/-- `enet_protocol_handle_disconnect`, of a command that is to be acknowledged or not. -/
def handleDisconnect (h : Host α) (p : ℕ) (acknowledged : Bool) : Host α :=
  match (h.peers p).state with
  | .disconnected | .zombie | .acknowledgingDisconnect => h
  | .connectionSucceeded | .disconnecting | .connecting =>
    dispatchState (peerResetQueues h p) p .zombie
  | .connected =>
    if acknowledged then changeState (peerResetQueues h p) p .acknowledgingDisconnect
    else dispatchState (peerResetQueues h p) p .zombie
  | .acknowledgingConnect | .connectionPending => peerReset (peerResetQueues h p) p

/-- The packets of a SEND command that are next go to the peer's dispatched commands. -/
def handleSend (h : Host α) (p : ℕ) (arrived : List (Post α)) : Host α :=
  let x := h.peers p
  let h := h.set p { x with dispatchedCommands := x.dispatchedCommands ++ arrived }
  if arrived = [] then h else h.enqueue p

def handleCommand (h : Host α) (p : ℕ) (acknowledged : Bool) :
    Command α → Host α × Option (HostEvent α) × Bool
  | .acknowledge inTime number => handleAcknowledge h p inTime number
  | .verifyConnect accepted => handleVerifyConnect h p accepted
  | .disconnect => (handleDisconnect h p acknowledged, none, true)
  | .ping => (h, none, (h.peers p).state = .connected)
  | .send arrived =>
    if (h.peers p).state = .connected then (handleSend h p arrived, none, true)
    else (h, none, false)

/-- Whether a command is acknowledged in a state, by the switch after the handlers. -/
def PeerState.acknowledges (state : PeerState) (number : CommandNumber) : Bool :=
  match state with
  | .disconnecting | .acknowledgingConnect | .disconnected | .zombie => false
  | .acknowledgingDisconnect => number = .disconnect
  | _ => true

def acknowledge (h : Host α) (p : ℕ) (number : CommandNumber) : Host α :=
  let x := h.peers p
  if x.state.acknowledges number then
    h.set p { x with acknowledgements := x.acknowledgements ++ [number] }
  else h

/-- The loop of `enet_protocol_handle_incoming_commands` over the commands of a datagram, each
with its acknowledgement flag. A later event overwrites an earlier one. -/
def handleCommands (sentTime : Bool) (p : ℕ) : List (Command α × Bool) → Host α →
    Option (HostEvent α) → Host α × Option (HostEvent α)
  | [], h, e => (h, e)
  | (command, acknowledged) :: rest, h, e =>
    let (h, e', proceeds) := handleCommand h p acknowledged command
    let e := e'.or e
    if !proceeds then (h, e)
    else if !acknowledged then handleCommands sentTime p rest h e
    else if sentTime then
      handleCommands sentTime p rest (acknowledge h p command.number) e
    else (h, e)

/-- `enet_protocol_handle_connect`; `accepted` says whether the command is well formed and
neither a duplicate nor out of memory. -/
def handleConnect (h : Host α) (accepted : Bool) : Option (Host α × ℕ) :=
  if accepted then
    ((List.range h.peerCount).find? fun p => (h.peers p).state = .disconnected).map fun p =>
      (changeState h p .acknowledgingConnect, p)
  else none

/-- A free peer is taken. -/
theorem handleConnect_cases {h h' : Host α} {accepted : Bool} {p : ℕ}
    (hs : handleConnect h accepted = some (h', p)) :
    (h.peers p).state = .disconnected ∧ p < h.peerCount ∧
      h' = changeState h p .acknowledgingConnect := by
  unfold handleConnect at hs
  split at hs
  · obtain ⟨q, hfind, heq⟩ := Option.map_eq_some_iff.mp hs
    obtain ⟨rfl, rfl⟩ := Prod.mk.inj heq
    exact ⟨by simpa using List.find?_some hfind,
      List.mem_range.mp (List.mem_of_find?_eq_some hfind), rfl⟩
  · cases hs

/-- A datagram is for a peer, from its address, or opens with a CONNECT. -/
inductive Datagram (α : Type) where
  | ofPeer (peerID : ℕ) (sentTime : Bool) (commands : List (Command α × Bool))
  | connect (accepted acknowledged sentTime : Bool) (commands : List (Command α × Bool))

/-- `enet_protocol_handle_incoming_commands`. -/
def handleIncomingCommands (h : Host α) : Datagram α → Host α × Option (HostEvent α)
  | .ofPeer peerID sentTime commands =>
    if h.peerCount ≤ peerID then (h, none)
    else if (h.peers peerID).state = .disconnected ∨ (h.peers peerID).state = .zombie then (h, none)
    else handleCommands sentTime peerID commands h none
  | .connect accepted acknowledged sentTime commands =>
    match handleConnect h accepted with
    | none => (h, none)
    | some (h, p) =>
      if acknowledged && !sentTime then (h, none) else handleCommands sentTime p commands h none

/-- `enet_protocol_receive_incoming_commands`. -/
def receiveIncomingCommands : List (Datagram α) → Host α → Host α × Option (HostEvent α)
  | [], h => (h, none)
  | datagram :: rest, h =>
    match handleIncomingCommands h datagram with
    | (h, some e) => (h, some e)
    | (h, none) => receiveIncomingCommands rest h

/-! ## What goes out -/

/-- `enet_protocol_send_acknowledgements`, of as many as there is `room` for. -/
def sendAcknowledgements (room : ℕ) (h : Host α) (p : ℕ) : Host α :=
  let acknowledgements := (h.peers p).acknowledgements
  let h := if .disconnect ∈ acknowledgements.take room then dispatchState h p .zombie else h
  h.set p { h.peers p with acknowledgements := acknowledgements.drop room }

/-- What a pass does for a peer: it gets its turn again when there was no room. -/
structure Turn where
  peer : ℕ
  room : ℕ
  timedOut : Bool

/-- `enet_protocol_send_outgoing_commands`. `timedOut` is whether
`enet_protocol_check_timeouts` gives the peer up. -/
def sendOutgoingCommands : List Turn → Host α → Host α × Option (HostEvent α)
  | [], h => (h, none)
  | turn :: rest, h =>
    if (h.peers turn.peer).state = .disconnected ∨ (h.peers turn.peer).state = .zombie then
      sendOutgoingCommands rest h
    else
      let h := sendAcknowledgements turn.room h turn.peer
      if turn.timedOut then
        match notifyDisconnect h turn.peer with
        | (h, some e) => (h, some e)
        | (h, none) => sendOutgoingCommands rest h
      else sendOutgoingCommands rest h

/-- `enet_host_flush`. -/
def hostFlush (turns : List Turn) (h : Host α) : Host α :=
  (sendOutgoingCommands (turns.map fun turn => { turn with timedOut := false }) h).1

/-! ## What the game calls -/

/-- `enet_host_create`. -/
def hostCreate (peerCount : ℕ) : Host α := { peerCount }

/-- `enet_host_connect`. -/
def hostConnect (h : Host α) : Option (Host α × ℕ) :=
  ((List.range h.peerCount).find? fun p => (h.peers p).state = .disconnected).map fun p =>
    (changeState h p .connecting, p)

theorem hostConnect_cases {h h' : Host α} {p : ℕ} (hs : hostConnect h = some (h', p)) :
    (h.peers p).state = .disconnected ∧ p < h.peerCount ∧ h' = changeState h p .connecting := by
  obtain ⟨q, hfind, heq⟩ := Option.map_eq_some_iff.mp hs
  obtain ⟨rfl, rfl⟩ := Prod.mk.inj heq
  exact ⟨by simpa using List.find?_some hfind,
    List.mem_range.mp (List.mem_of_find?_eq_some hfind), rfl⟩

/-- `enet_peer_disconnect`; `turns` is the flush for a peer that is not connected. -/
def peerDisconnect (h : Host α) (p : ℕ) (turns : List Turn) : Host α :=
  match (h.peers p).state with
  | .disconnecting | .disconnected | .acknowledgingDisconnect | .zombie => h
  | .connected => changeState (peerResetQueues h p) p .disconnecting
  | _ => peerReset (hostFlush turns (peerResetQueues h p)) p

/-- A part of the loop of `enet_host_service`. -/
inductive Phase (α : Type) where
  | sendOutgoing (turns : List Turn)
  | receiveIncoming (datagrams : List (Datagram α))
  | dispatchIncoming

def Phase.run (h : Host α) : Phase α → Host α × Option (HostEvent α)
  | .sendOutgoing turns => sendOutgoingCommands turns h
  | .receiveIncoming datagrams => receiveIncomingCommands datagrams h
  | .dispatchIncoming => dispatchIncomingCommands h

/-- The loop up to an event, an error or the end of the time. -/
def servicePhases : List (Phase α) → Host α → Host α × Option (HostEvent α)
  | [], h => (h, none)
  | phase :: rest, h =>
    match phase.run h with
    | (h, some e) => (h, some e)
    | (h, none) => servicePhases rest h

/-- `enet_host_service`. The source's phases are send, receive, send and dispatch, over and
over. -/
def hostService (h : Host α) (phases : List (Phase α)) : Host α × Option (HostEvent α) :=
  match dispatchIncomingCommands h with
  | (h, some e) => (h, some e)
  | (h, none) => servicePhases phases h

end Fnvmp.Enet
