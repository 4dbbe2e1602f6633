import Fnvmp.EventRun
import Fnvmp.NetClient

/-!
# The life cycle of a network client

`Connect` and `Disconnect`, and runs of all operations of one `NetClient`. The results of
the host's calls are inputs; the calls themselves are the output.
-/

namespace Fnvmp.Lifecycle

open Protocol Net

/-- A call to the host library. -/
inductive HostCall where
  | create
  | connect (host : String) (port : UInt16)
  | send (packet : Sent)
  | disconnectPeer
  | resetPeer
  | destroy
  deriving DecidableEq, Repr

/-- `created` and `peerMade` say that `enet_host_create` and `enet_host_connect` do not
return null. -/
def connect (c : NetClient) (host : String) (port : UInt16) (created peerMade : Bool) :
    NetClient × Bool × List HostCall :=
  if c.client then (c, false, [])
  else
    let c := { c with client := created }
    if c.client = false then (c, false, [.create])
    else
      let c := { c with peer := peerMade }
      if c.peer = false then
        ({ c with client := false }, false, [.create, .connect host port, .destroy])
      else (c, true, [.create, .connect host port])

/-- The waiting loop of `Disconnect` over the results of `enet_host_service`: whether one
of them is the DISCONNECT event. Received packets are destroyed unread. -/
def awaitDisconnect : List (Option HostEvent) → Bool
  | [] => false
  | some .disconnect :: _ => true
  | _ :: served => awaitDisconnect served

/-- `served` holds the results of the calls to `enet_host_service`, of which at most ten
are made. -/
def disconnect (c : NetClient) (served : List (Option HostEvent)) : NetClient × List HostCall :=
  if c.client = false then (c, [])
  else
    let calls :=
      if c.peer ∧ c.connected then
        (send c (msgBare.encode ⟨MessageType.disconnect.code⟩) .system true).map .send ++
          [.disconnectPeer] ++
          (if awaitDisconnect (served.take 10) = false then [.resetPeer] else [])
      else if c.peer then [.resetPeer] else []
    let c := { c with
      client := false
      peer := false
      connected := false
      netEntityId := 0
      heartbeatAccum := 0
      snapshotSeq := 0
      hasNewWorldSnapshot := false
      worldEntities := []
      disconnectedEntities := []
      fireEvents := [] }
    (c, calls ++ [.destroy])

/-- The operations of a `NetClient`, with what the host answers. -/
inductive Op where
  | connect (host : String) (port : UInt16) (created peerMade : Bool)
  | poll (dt : ℚ) (waiting : List HostEvent)
  | send (data : List UInt8) (channel : Channel) (reliable : Bool)
  | sendPlayerSnapshot (snapshot : MsgPlayerSnapshot)
  | sendFireEvent (netEntityId : UInt32)
  | clearWorldSnapshot
  | takeDisconnectEvents
  | takeFireEvents
  | disconnect (served : List (Option HostEvent))

def step (c : NetClient) : Op → Option (NetClient × List HostCall)
  | .connect host port created peerMade =>
    let r := connect c host port created peerMade
    some (r.1, r.2.2)
  | .poll dt waiting => (poll c dt waiting).map fun r => (r.1, r.2.map .send)
  | .send data channel reliable => some (c, (send c data channel reliable).map .send)
  | .sendPlayerSnapshot snapshot =>
    let r := sendPlayerSnapshot c snapshot
    some (r.1, r.2.map .send)
  | .sendFireEvent netEntityId => some (c, (sendFireEvent c netEntityId).map .send)
  | .clearWorldSnapshot => some (clearWorldSnapshot c, [])
  | .takeDisconnectEvents => some ((takeDisconnectEvents c).1, [])
  | .takeFireEvents => some ((takeFireEvents c).1, [])
  | .disconnect served => some (disconnect c served)

abbrev run : NetClient → List Op → Option (NetClient × List HostCall) := EventRun.exec step

/-! ## What the host promises -/

/-- The events an operation is given, in order. -/
def Op.events : Op → List HostEvent
  | .poll _ waiting => waiting
  | .disconnect served => served.filterMap id
  | _ => []

/-- Nothing follows a DISCONNECT event. -/
def Ends : List HostEvent → Prop
  | [] => True
  | .disconnect :: es => es = []
  | _ :: es => Ends es

/-- Events concern the client's peer, and none follows its DISCONNECT event. -/
structure Op.Admissible (c : NetClient) (op : Op) : Prop where
  ofPeer : c.peer = false → op.events = []
  ends : Ends op.events

/-- Every operation of the run is admissible in the state it meets. -/
def Admissible : NetClient → List Op → Prop
  | _, [] => True
  | c, op :: ops => op.Admissible c ∧ ∀ c' calls, step c op = some (c', calls) → Admissible c' ops

/-- The id of a complete ConnectAck. -/
def ackId : HostEvent → Option UInt32
  | .receive data =>
    match ServerMessage.parse data with
    | some (.connectAck id) => some id
    | _ => none
  | _ => none

/-- The ids of the ConnectAcks the client was given, oldest first. -/
def acks (ops : List Op) : List UInt32 :=
  ops.flatMap fun op => op.events.filterMap ackId

/-! ## The invariant -/

/-- Between a successful `Connect` and the next `Disconnect`, for the ConnectAcks so far. -/
structure LifeCycle (ids : List UInt32) (c : NetClient) : Prop where
  open_connected : c.connected → c.client ∧ c.peer ∧ ids.getLast? = some c.netEntityId
  id_zero : c.connected = false → c.netEntityId = 0
  fresh : c.client = false → c = {}

theorem LifeCycle.start : LifeCycle [] {} where
  open_connected h := absurd h (by decide)
  id_zero _ := rfl
  fresh _ := rfl

/-- An event that carries no ConnectAck leaves the ids as they are. -/
theorem LifeCycle.of_idle {ids more : List UInt32} {c : NetClient} (h : LifeCycle ids c)
    (hmore : more = []) : LifeCycle (ids ++ more) c := by
  subst hmore
  simpa using h

/-- An operation on the queues of an open client. -/
theorem LifeCycle.of_same {ids : List UInt32} {c c' : NetClient} (h : LifeCycle ids c)
    (hclient : c'.client = c.client) (hpeer : c'.peer = c.peer)
    (hconnected : c'.connected = c.connected) (hid : c'.netEntityId = c.netEntityId)
    (hfresh : c = {} → c' = {}) : LifeCycle ids c' where
  open_connected := by
    rw [hclient, hpeer, hconnected, hid]
    exact h.open_connected
  id_zero := by
    rw [hconnected, hid]
    exact h.id_zero
  fresh hclosed := hfresh (h.fresh (hclient ▸ hclosed))

theorem apply_client (c : NetClient) (msg : ServerMessage) :
    (apply c msg).1.client = c.client ∧ (apply c msg).1.peer = c.peer := by
  cases msg <;> exact ⟨rfl, rfl⟩

/-- Only a ConnectAck connects, and it needs an open peer. -/
theorem LifeCycle.apply {ids : List UInt32} {c : NetClient} (h : LifeCycle ids c)
    (hclient : c.client = true) (hpeer : c.peer = true) (data : List UInt8) (msg : ServerMessage)
    (hparse : ServerMessage.parse data = some msg) :
    LifeCycle (ids ++ (ackId (.receive data)).toList) (apply c msg).1 := by
  have hopen : ∀ c' : NetClient, c'.client = true → c'.client = false → c' = {} :=
    fun c' ht hf => absurd (ht.symm.trans hf) (by decide)
  cases msg with
  | connectAck id =>
    constructor
    · intro _
      refine ⟨hclient, hpeer, ?_⟩
      simp [ackId, hparse, Net.apply, onConnectAck]
    · intro hno
      exact absurd hno (by simp [Net.apply, onConnectAck])
    · exact hopen _ hclient
  | disconnect =>
    constructor
    · intro hyes
      exact absurd hyes (by simp [Net.apply])
    · intro _
      rfl
    · exact hopen _ hclient
  | worldSnapshot | playerConnect | playerDisconnect | remoteFire =>
    have hno : (ackId (.receive data)).toList = [] := by simp [ackId, hparse]
    rw [hno, List.append_nil]
    exact h.of_same rfl rfl rfl rfl fun hc => absurd (hc ▸ hclient) (by decide)

theorem LifeCycle.handleReceive {ids : List UInt32} {c c' : NetClient} {sent : List Sent}
    (h : LifeCycle ids c) (hclient : c.client = true) (hpeer : c.peer = true) (data : List UInt8)
    (hs : handleReceive c data = some (c', sent)) :
    LifeCycle (ids ++ (ackId (.receive data)).toList) c' ∧
      c'.client = true ∧ c'.peer = true := by
  rw [handleReceive_eq, Option.some.injEq] at hs
  cases hparse : ServerMessage.parse data with
  | none =>
    rw [hparse] at hs
    cases hs
    have hno : (ackId (.receive data)).toList = [] := by simp [ackId, hparse]
    exact ⟨h.of_idle hno, hclient, hpeer⟩
  | some msg =>
    rw [hparse, Option.map_some, Option.getD_some] at hs
    have hc' : c' = (Net.apply c msg).1 := by rw [hs]
    obtain ⟨hclient', hpeer'⟩ := apply_client c msg
    rw [hc']
    exact ⟨h.apply hclient hpeer data msg hparse, hclient'.trans hclient, hpeer'.trans hpeer⟩

/-- The service loop, as long as events come only from an open peer. -/
theorem LifeCycle.drain {ids : List UInt32} {c c' : NetClient} {es : List HostEvent}
    {sent : List Sent} (h : LifeCycle ids c) (hclient : c.client = true)
    (hpeer : c.peer = false → es = []) (hends : Ends es) (hs : drain c es = some (c', sent)) :
    LifeCycle (ids ++ es.filterMap ackId) c' ∧ c'.client = true := by
  induction es generalizing ids c sent with
  | nil =>
    cases hs
    exact ⟨h.of_idle rfl, hclient⟩
  | cons e es ih =>
    have hopen : c.peer = true := by
      cases hp : c.peer with
      | true => rfl
      | false => exact absurd (hpeer hp) (by simp)
    obtain ⟨⟨m, out⟩, he, hrest⟩ := Option.bind_eq_some_iff.mp hs
    obtain ⟨⟨t, out'⟩, htail, heq⟩ := Option.map_eq_some_iff.mp hrest
    cases heq
    cases e with
    | connect =>
      cases he
      exact ih h hclient (fun hp => absurd (hp.symm.trans hopen) (by decide)) hends htail
    | receive data =>
      obtain ⟨hm, hmclient, hmpeer⟩ := h.handleReceive hclient hopen data he
      have hids : (HostEvent.receive data :: es).filterMap ackId =
          (ackId (.receive data)).toList ++ es.filterMap ackId := by
        cases hack : ackId (.receive data) <;> simp [hack]
      rw [hids, ← List.append_assoc]
      exact ih hm hmclient (fun hp => absurd (hp.symm.trans hmpeer) (by decide)) hends htail
    | disconnect =>
      cases he
      have hlast : es = [] := hends
      subst hlast
      cases htail
      refine ⟨LifeCycle.of_idle ⟨?_, ?_, ?_⟩ rfl, hclient⟩
      · intro hyes
        exact absurd hyes (by simp)
      · intro _
        rfl
      · intro hclosed
        exact absurd (hclient.symm.trans hclosed) (by decide)

theorem LifeCycle.poll {ids : List UInt32} {c c' : NetClient} {dt : ℚ} {waiting : List HostEvent}
    {sent : List Sent} (h : LifeCycle ids c) (hpeer : c.peer = false → waiting = [])
    (hends : Ends waiting) (hs : poll c dt waiting = some (c', sent)) :
    LifeCycle (ids ++ waiting.filterMap ackId) c' := by
  unfold Net.poll at hs
  cases hclient : c.client with
  | false =>
    rw [if_pos hclient] at hs
    cases hs
    have hnone : waiting = [] := hpeer (by rw [h.fresh hclient])
    exact h.of_idle (by rw [hnone]; rfl)
  | true =>
    rw [if_neg (by simp [hclient])] at hs
    obtain ⟨⟨m, out⟩, hdrain, hbeat⟩ := Option.map_eq_some_iff.mp hs
    obtain ⟨hm, hmclient⟩ := h.drain hclient hpeer hends hdrain
    have hopen : m = {} → ∀ c : NetClient, c = {} := fun hc =>
      absurd (hc ▸ hmclient) (by decide)
    dsimp only at hbeat
    split at hbeat
    · split at hbeat
      · cases hbeat
        exact hm.of_same rfl rfl rfl rfl fun hc => hopen hc _
      · cases hbeat
        exact hm.of_same rfl rfl rfl rfl fun hc => hopen hc _
    · cases hbeat
      exact hm

theorem connect_cases (c : NetClient) (host : String) (port : UInt16) (created peerMade : Bool) :
    (connect c host port created peerMade).1 = c ∨ c.client = false ∧
      ((connect c host port created peerMade).1 = { c with client := true, peer := true } ∨
        (connect c host port created peerMade).1 = { c with client := false, peer := false } ∨
        (connect c host port created peerMade).1 = { c with client := false }) := by
  unfold connect
  cases c.client <;> cases created <;> cases peerMade <;> simp

theorem LifeCycle.connect {ids : List UInt32} {c : NetClient} (h : LifeCycle ids c)
    (host : String) (port : UInt16) (created peerMade : Bool) :
    LifeCycle ids (connect c host port created peerMade).1 := by
  obtain heq | ⟨hclosed, heq | heq | heq⟩ := connect_cases c host port created peerMade
  · rw [heq]
    exact h
  · rw [heq, h.fresh hclosed]
    exact ⟨fun hyes => absurd hyes (by decide), fun _ => rfl, fun hno => absurd hno (by decide)⟩
  · rw [heq, h.fresh hclosed]
    exact ⟨fun hyes => absurd hyes (by decide), fun _ => rfl, fun _ => rfl⟩
  · rw [heq, h.fresh hclosed]
    exact ⟨fun hyes => absurd hyes (by decide), fun _ => rfl, fun _ => rfl⟩

/-- Nothing of a session survives its end. -/
theorem disconnect_fresh (c : NetClient) (served : List (Option HostEvent))
    (h : c.client = false → c = {}) : (disconnect c served).1 = {} := by
  unfold disconnect
  cases hclient : c.client with
  | false =>
    rw [if_pos rfl]
    exact h hclient
  | true => rfl

theorem LifeCycle.disconnect {ids : List UInt32} {c : NetClient} (h : LifeCycle ids c)
    (more : List UInt32) (served : List (Option HostEvent)) :
    LifeCycle (ids ++ more) (disconnect c served).1 := by
  rw [disconnect_fresh c served h.fresh]
  exact ⟨fun hyes => absurd hyes (by decide), fun _ => rfl, fun _ => rfl⟩

/-- Every operation keeps the invariant. -/
theorem LifeCycle.step {ids : List UInt32} {c c' : NetClient} {op : Op} {calls : List HostCall}
    (h : LifeCycle ids c) (hop : op.Admissible c) (hs : step c op = some (c', calls)) :
    LifeCycle (ids ++ op.events.filterMap ackId) c' := by
  cases op with
  | connect host port created peerMade =>
    cases hs
    exact (h.connect host port created peerMade).of_idle rfl
  | poll dt waiting =>
    obtain ⟨⟨m, sent⟩, hpoll, heq⟩ := Option.map_eq_some_iff.mp hs
    cases heq
    exact h.poll hop.ofPeer hop.ends hpoll
  | send data channel reliable =>
    cases hs
    exact h.of_idle rfl
  | sendPlayerSnapshot snapshot =>
    cases hs
    refine LifeCycle.of_idle ?_ rfl
    unfold sendPlayerSnapshot
    split
    next hyes => exact h.of_same rfl rfl rfl rfl fun hc => absurd (hc ▸ hyes) (by decide)
    next => exact h
  | sendFireEvent netEntityId =>
    cases hs
    exact h.of_idle rfl
  | clearWorldSnapshot =>
    cases hs
    refine LifeCycle.of_idle ?_ rfl
    exact h.of_same rfl rfl rfl rfl fun hc => by rw [hc]; rfl
  | takeDisconnectEvents =>
    cases hs
    refine LifeCycle.of_idle ?_ rfl
    exact h.of_same rfl rfl rfl rfl fun hc => by rw [hc]; rfl
  | takeFireEvents =>
    cases hs
    refine LifeCycle.of_idle ?_ rfl
    exact h.of_same rfl rfl rfl rfl fun hc => by rw [hc]; rfl
  | disconnect served =>
    have hc' : (Lifecycle.disconnect c served).1 = c' := congrArg Prod.fst (Option.some.inj hs)
    rw [← hc']
    exact h.disconnect _ served

theorem drain_isSome (c : NetClient) (es : List HostEvent) : (drain c es).isSome := by
  induction es generalizing c with
  | nil => rfl
  | cons e es ih =>
    have he : ∃ r, handleEvent c e = some r := by
      cases e with
      | receive data => exact ⟨_, handleReceive_eq c data⟩
      | connect | disconnect => exact ⟨_, rfl⟩
    obtain ⟨r, he⟩ := he
    simp only [drain, he, Option.bind_some, Option.isSome_map]
    exact ih r.1

/-- No operation reads past the end of a packet. -/
theorem step_isSome (c : NetClient) (op : Op) : ∃ c' calls, step c op = some (c', calls) := by
  cases op with
  | poll dt waiting =>
    obtain ⟨r, hr⟩ := Option.isSome_iff_exists.mp (drain_isSome c waiting)
    have hpoll : ∃ r, poll c dt waiting = some r := by
      unfold poll
      rw [hr]
      split <;> exact ⟨_, rfl⟩
    obtain ⟨r, hpoll⟩ := hpoll
    exact ⟨r.1, r.2.map .send, by simp only [step, hpoll, Option.map_some]⟩
  | connect | send | sendPlayerSnapshot | sendFireEvent | clearWorldSnapshot |
      takeDisconnectEvents | takeFireEvents | disconnect => exact ⟨_, _, rfl⟩

/-! ## Whole runs -/

/-- What the ends of a session leave: a `Connect` that fails and every `Disconnect` leave a
newly constructed client, and no host behind; an open client is not connected again. -/
def Op.Leaves (c c' : NetClient) (calls : List HostCall) : Op → Prop
  | .connect host port created peerMade =>
    if c.client then c' = c ∧ calls = []
    else if created ∧ peerMade then
      c' = { client := true, peer := true } ∧ calls = [.create, .connect host port]
    else c' = {} ∧ (created → calls.getLast? = some .destroy)
  | .disconnect _ => c' = {} ∧ (c.client → calls.getLast? = some .destroy)
  | _ => True

theorem connect_leaves {c : NetClient} (h : c.client = false → c = {}) (host : String)
    (port : UInt16) (created peerMade : Bool) :
    Op.Leaves c (connect c host port created peerMade).1 (connect c host port created peerMade).2.2
      (.connect host port created peerMade) := by
  cases hclient : c.client with
  | true =>
    have hsame : connect c host port created peerMade = (c, false, []) := by
      rw [connect, if_pos hclient]
    simp only [Op.Leaves, hsame, hclient, if_true, and_self]
  | false =>
    -- a closed client is a new one, and the host's answers decide
    rw [h hclient]
    cases created <;> cases peerMade <;> simp [Op.Leaves, connect]

theorem disconnect_leaves {c : NetClient} (h : c.client = false → c = {})
    (served : List (Option HostEvent)) :
    Op.Leaves c (disconnect c served).1 (disconnect c served).2 (.disconnect served) := by
  refine ⟨disconnect_fresh c served h, fun hopen => ?_⟩
  unfold disconnect
  rw [if_neg (by simp [hopen])]
  exact List.getLast?_concat

theorem LifeCycle.leaves {ids : List UInt32} {c c' : NetClient} {op : Op} {calls : List HostCall}
    (h : LifeCycle ids c) (hs : Lifecycle.step c op = some (c', calls)) :
    op.Leaves c c' calls := by
  cases op with
  | connect host port created peerMade =>
    cases hs
    exact connect_leaves h.fresh host port created peerMade
  | disconnect served =>
    have hr : Lifecycle.disconnect c served = (c', calls) := Option.some.inj hs
    have hleaves := disconnect_leaves h.fresh served
    rw [hr] at hleaves
    exact hleaves
  | poll | send | sendPlayerSnapshot | sendFireEvent | clearWorldSnapshot |
      takeDisconnectEvents | takeFireEvents => trivial

theorem Admissible.of_append {c : NetClient} {ops more : List Op}
    (h : Admissible c (ops ++ more)) : Admissible c ops := by
  induction ops generalizing c with
  | nil => trivial
  | cons op ops ih => exact ⟨h.1, fun c' calls hs => ih (h.2 c' calls hs)⟩

/-- A run never fails, and what it reaches is in its life cycle. -/
theorem lifeCycle_of_run (ops : List Op) (h : Admissible {} ops) :
    ∃ c calls, run {} ops = some (c, calls) ∧ LifeCycle (acks ops) c := by
  obtain ⟨c, calls, hrun, -⟩ := EventRun.exec_isSome (fun _ => True) ops
    (fun c op _ _ => by
      obtain ⟨c', calls, hs⟩ := step_isSome c op
      exact ⟨c', calls, hs, trivial⟩) (s := ({} : NetClient)) trivial
  have hrule := EventRun.exec_rule
    (fun c rest _ => Admissible c rest ∧ ∃ done, done ++ rest = ops ∧ LifeCycle (acks done) c) []
    (by
      rintro c op rest log c' calls' ⟨hadm, done, hdone, hc⟩ hs
      refine ⟨hadm.2 c' calls' hs, done ++ [op], by simpa using hdone, ?_⟩
      have hacks : acks (done ++ [op]) = acks done ++ op.events.filterMap ackId := by simp [acks]
      rw [hacks]
      exact hc.step hadm.1 hs)
    (s := ({} : NetClient)) ⟨h, [], rfl, LifeCycle.start⟩ hrun
  obtain ⟨-, done, hdone, hc⟩ := hrule
  rw [List.append_nil] at hdone
  exact ⟨c, calls, hrun, hdone ▸ hc⟩

/-- In every run the connection flag, the id and the freshness of a closed client agree
with the ConnectAcks received, and every `Connect` and `Disconnect` of it leaves what it
should. -/
theorem run_lifeCycle (ops : List Op) (h : Admissible {} ops) :
    (∃ c calls, run {} ops = some (c, calls) ∧ LifeCycle (acks ops) c) ∧
      ∀ done op rest, ops = done ++ op :: rest →
        ∃ c calls c' calls', run {} done = some (c, calls) ∧ LifeCycle (acks done) c ∧
          step c op = some (c', calls') ∧ op.Leaves c c' calls' := by
  refine ⟨lifeCycle_of_run ops h, fun done op rest hops => ?_⟩
  subst hops
  obtain ⟨c, calls, hrun, hc⟩ := lifeCycle_of_run done h.of_append
  obtain ⟨c', calls', hs⟩ := step_isSome c op
  exact ⟨c, calls, c', calls', hrun, hc, hs, hc.leaves hs⟩

/-- A failed attempt, a session in which the id 7 is assigned and whose queues are left full,
and its end. -/
def session : List Op :=
  [.connect "localhost" 27015 true false, .connect "localhost" 27015 true true,
    .poll 0 [.connect, .receive [1, 7, 0, 0, 0], .receive [9, 9, 0, 0, 0]],
    .disconnect [some .disconnect]]

theorem run_lifeCycle_session :
    ((∃ c calls, run {} session = some (c, calls) ∧ LifeCycle (acks session) c) ∧
      ∀ done op rest, session = done ++ op :: rest →
        ∃ c calls c' calls', run {} done = some (c, calls) ∧ LifeCycle (acks done) c ∧
          step c op = some (c', calls') ∧ op.Leaves c c' calls') ∧
      (run {} (session.take 3)).map (fun r => (r.1.netEntityId, r.1.fireEvents)) =
        some (7, [9]) ∧
      (run {} session).map Prod.fst = some {} := by
  refine ⟨run_lifeCycle session ?_, by decide +kernel, by decide +kernel⟩
  refine ⟨⟨fun _ => rfl, trivial⟩, fun c calls hs => ?_⟩
  cases hs
  refine ⟨⟨fun _ => rfl, trivial⟩, fun c calls hs => ?_⟩
  cases hs
  refine ⟨⟨fun hp => absurd hp (by decide), trivial⟩, fun c calls hs => ?_⟩
  have hpeer : c.peer = true := by
    have hmade : (some (c, calls)).map (fun r => r.1.peer) = some true := by
      rw [← hs]
      decide +kernel
    exact Option.some.inj hmade
  exact ⟨⟨fun hp => absurd (hp.symm.trans hpeer) (by decide), rfl⟩, fun c calls hs => trivial⟩

end Fnvmp.Lifecycle
