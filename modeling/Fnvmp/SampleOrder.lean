import Fnvmp.GhostAvatars
import Fnvmp.SampleRelay
import Mathlib.Data.List.Flatten

/-!
# The order in which samples arrive

A player's snapshots pass through two registers: the server keeps the last one it
accepted, and a client keeps the last world snapshot it received. What a client pushes
for the player is in the order it was sent in as long as neither hop reorders; with
either hop reordering it is not.
-/

namespace Fnvmp.EntityManager

open ExactFloat Engine Protocol

/-! ## What is pushed -/

/-- The states of a snapshot that reach the interpolation buffers. -/
def pushedFrom (localCellId : UInt32) (t : ℚ) : Manager → List EntityState → List EntityState
  | _, [] => []
  | s, es :: rest =>
    let skipped :=
      s.entities.find? es.netEntityId = none ∧ localCellId ≠ 0 ∧ es.cellId ≠ localCellId
    (if skipped then [] else [es]) ++
      pushedFrom localCellId t (updateEntity localCellId t s es) rest

def pushedBy (w : World) (states : List EntityState) (t : ℚ) (s : Manager) : List EntityState :=
  if getLocalPlayerCellID w = 0 then [] else pushedFrom (getLocalPlayerCellID w) t s states

/-- `Interp_PushSnapshot` on the fields of a state. -/
def pushState (t : ℚ) (interp : Interp.InterpStates FloatVal) (es : EntityState) :
    Interp.InterpStates FloatVal :=
  Interp.pushSnapshot interp es.netEntityId (.ofBits es.posX) (.ofBits es.posY) (.ofBits es.posZ)
    (.ofBits es.rotZ) t

/-- The buffers of a snapshot's entities change by exactly the pushes. -/
theorem updateFromWorldSnapshot_interp (w : World) (states : List EntityState) (t : ℚ)
    (s : Manager) : (updateFromWorldSnapshot w states t s).interp =
      (pushedBy w states t s).foldl (pushState t) s.interp := by
  have hfold : ∀ (cell : UInt32) (states : List EntityState) (s : Manager),
      (states.foldl (updateEntity cell t) s).interp =
        (pushedFrom cell t s states).foldl (pushState t) s.interp := by
    intro cell states
    induction states with
    | nil => exact fun _ => rfl
    | cons es states ih =>
      intro s
      rw [List.foldl_cons, ih, pushedFrom, List.foldl_append]
      congr 1
      unfold updateEntity
      cases hes : s.entities.find? es.netEntityId with
      | none =>
        by_cases hskip : cell ≠ 0 ∧ es.cellId ≠ cell
        · simp [hskip]
        · simp [hskip, pushSample, pushState]
      | some ent => simp [pushSample, pushState]
  unfold updateFromWorldSnapshot pushedBy
  dsimp only
  split
  · rfl
  · exact hfold _ states s

theorem pushedFrom_sublist (cell : UInt32) (t : ℚ) (states : List EntityState) (s : Manager) :
    List.Sublist (pushedFrom cell t s states) states := by
  induction states generalizing s with
  | nil => exact .slnil
  | cons es states ih =>
    simp only [pushedFrom]
    split
    · exact (ih _).cons es
    · exact (ih _).cons_cons es

theorem pushedBy_sublist (w : World) (states : List EntityState) (t : ℚ) (s : Manager) :
    List.Sublist (pushedBy w states t s) states := by
  unfold pushedBy
  split
  · exact List.nil_sublist states
  · exact pushedFrom_sublist _ t states s

end Fnvmp.EntityManager

namespace Fnvmp.Client

open Engine Protocol Net Delivery EntityManager Replay
open PackedCodec
open Server (State Event Action Peer HostOrder connects samplesOf samplesTo statesIn stateOf
  snapshotPacket reported encodeWorld)

/-- What one frame pushes. -/
def framePushes (c : Plugin) (f : Frame) : List EntityState :=
  match poll c.net f.dt f.waiting with
  | none => []
  | some (net, _) =>
    if net.hasNewWorldSnapshot ∧ net.worldEntities ≠ [] then
      pushedBy f.world (worldStates net) (c.gameTime + f.dt)
        (fires net f.world (c.gameTime + f.dt) (removals net c.manager))
    else []

/-- What a run of frames pushes, oldest first. -/
def pushes : Plugin → List Frame → List EntityState
  | _, [] => []
  | c, f :: fs => framePushes c f ++ ((frame c f).map fun r => pushes r.1 fs).getD []

/-! ## Received snapshots -/

/-- Polling leaves the pending snapshot as it was, or replaces it by one that came. -/
theorem drain_snapshot (es : List HostEvent) {c net : NetClient} {sent : List Sent}
    (h : drain c es = some (net, sent)) :
    (net.hasNewWorldSnapshot = c.hasNewWorldSnapshot ∧ net.worldEntities = c.worldEntities) ∨
    ∃ data ∈ es.filterMap packet,
      ServerMessage.parse data = some (.worldSnapshot net.worldEntities) := by
  induction es generalizing c sent with
  | nil =>
    cases h
    exact .inl ⟨rfl, rfl⟩
  | cons e es ih =>
    obtain ⟨⟨mid, out⟩, hfirst, hrest⟩ := Option.bind_eq_some_iff.mp h
    obtain ⟨⟨net', sent'⟩, hdrain, heq⟩ := Option.map_eq_some_iff.mp hrest
    cases heq
    have first : (mid.hasNewWorldSnapshot = c.hasNewWorldSnapshot ∧
        mid.worldEntities = c.worldEntities) ∨
        ∃ data ∈ (packet e).toList,
          ServerMessage.parse data = some (.worldSnapshot mid.worldEntities) := by
      cases e with
      | connect =>
        cases hfirst
        exact .inl ⟨rfl, rfl⟩
      | disconnect =>
        cases hfirst
        exact .inl ⟨rfl, rfl⟩
      | receive data =>
        simp only [handleEvent, handleReceive_eq, Option.some.injEq] at hfirst
        cases hparse : ServerMessage.parse data with
        | none =>
          simp only [hparse, Option.map_none, Option.getD_none, Prod.mk.injEq] at hfirst
          exact .inl (by simp [← hfirst.1])
        | some msg =>
          simp only [hparse, Option.map_some, Option.getD_some] at hfirst
          cases msg with
          | worldSnapshot entities =>
            cases hfirst
            exact .inr ⟨data, by simp [packet], hparse⟩
          | connectAck id | disconnect | playerConnect id | playerDisconnect id | remoteFire id =>
            cases hfirst
            exact .inl ⟨rfl, rfl⟩
    rcases ih hdrain with ⟨hnew, hstates⟩ | ⟨data, hmem, hparse⟩
    · rcases first with ⟨hnew', hstates'⟩ | ⟨data, hdata, hparse⟩
      · exact .inl ⟨hnew.trans hnew', hstates.trans hstates'⟩
      · refine .inr ⟨data, List.mem_filterMap.mpr ⟨e, List.mem_cons_self, ?_⟩, ?_⟩
        · simpa using hdata
        · rw [hstates]
          exact hparse
    · obtain ⟨e', he', hpacket⟩ := List.mem_filterMap.mp hmem
      exact .inr ⟨data, List.mem_filterMap.mpr ⟨e', List.mem_cons_of_mem _ he', hpacket⟩, hparse⟩

theorem poll_snapshot {c net : NetClient} {dt : ℚ} {waiting : List HostEvent} {sent : List Sent}
    (h : poll c dt waiting = some (net, sent)) :
    (net.hasNewWorldSnapshot = c.hasNewWorldSnapshot ∧ net.worldEntities = c.worldEntities) ∨
    ∃ data ∈ waiting.filterMap packet,
      ServerMessage.parse data = some (.worldSnapshot net.worldEntities) := by
  unfold poll at h
  split at h
  · cases h
    exact .inl ⟨rfl, rfl⟩
  · obtain ⟨⟨net', sent'⟩, hdrain, heq⟩ := Option.map_eq_some_iff.mp h
    have hsame : net.hasNewWorldSnapshot = net'.hasNewWorldSnapshot ∧
        net.worldEntities = net'.worldEntities := by
      dsimp only at heq
      split at heq
      · split at heq <;> cases heq <;> exact ⟨rfl, rfl⟩
      · cases heq
        exact ⟨rfl, rfl⟩
    rw [hsame.1, hsame.2]
    exact drain_snapshot waiting hdrain

/-- The samples of a player in the packets waiting at some frames. -/
def samplesIn (id : UInt32) (packets : List (List UInt8)) : List EntityState :=
  packets.flatMap fun data => samplesOf id (statesIn data)

theorem framePushes_sublist {c : Plugin} (hnone : c.net.hasNewWorldSnapshot = false) (f : Frame)
    (id : UInt32) : List.Sublist (samplesOf id (framePushes c f))
      (samplesIn id (f.waiting.filterMap packet)) := by
  unfold framePushes
  split
  · exact List.nil_sublist _
  · rename_i net sent hpoll
    split
    · rename_i hnew
      rcases poll_snapshot hpoll with ⟨hold, -⟩ | ⟨data, hdata, hparse⟩
      · rw [hnew.1, hnone] at hold
        cases hold
      · have hstates : statesIn data = net.worldEntities := by simp [statesIn, hparse]
        have hone : List.Sublist (samplesIn id [data])
            (samplesIn id (f.waiting.filterMap packet)) :=
          (List.singleton_sublist.mpr hdata).flatMap _
        have hpushed : List.Sublist (pushedBy f.world (worldStates net) (c.gameTime + f.dt)
            (fires net f.world (c.gameTime + f.dt) (removals net c.manager))) net.worldEntities :=
          (pushedBy_sublist _ _ _ _).trans (List.take_sublist _ _)
        refine .trans ?_ hone
        simp only [samplesIn, List.flatMap_cons, List.flatMap_nil, List.append_nil, hstates]
        exact hpushed.filter _
    · exact List.nil_sublist _

/-- What is pushed for a player was received for it, in that order. -/
theorem pushes_sublist {c : Plugin} (hnone : c.net.hasNewWorldSnapshot = false)
    (frames : List Frame) (id : UInt32) :
    List.Sublist (samplesOf id (pushes c frames)) (samplesIn id (packetsAt frames)) := by
  induction frames generalizing c with
  | nil => exact List.nil_sublist _
  | cons f frames ih =>
    have hrest : List.Sublist (samplesOf id (((frame c f).map fun r => pushes r.1 frames).getD []))
        (samplesIn id (packetsAt frames)) := by
      cases hf : frame c f with
      | none => exact List.nil_sublist _
      | some r =>
        obtain ⟨net, -, -, hnet⟩ := frame_cases hf
        exact ih (by rw [hnet])
    simp only [pushes, samplesOf, samplesIn, packetsAt, List.filter_append, List.flatMap_cons,
      List.flatMap_append]
    exact (framePushes_sublist hnone f id).append hrest

def isWorldSnapshot (data : List UInt8) : Bool :=
  Server.packetType data = some .worldSnapshot

theorem samplesIn_filter (id : UInt32) (packets : List (List UInt8)) :
    samplesIn id (packets.filter isWorldSnapshot) = samplesIn id packets := by
  induction packets with
  | nil => rfl
  | cons data packets ih =>
    by_cases hworld : isWorldSnapshot data = true
    · simp only [samplesIn, List.filter_cons_of_pos hworld, List.flatMap_cons] at ih ⊢
      rw [ih]
    · have hnone : statesIn data = [] :=
        Server.statesIn_other (by simpa [isWorldSnapshot] using hworld)
      simp only [samplesIn, List.filter_cons_of_neg hworld, List.flatMap_cons, hnone] at ih ⊢
      exact ih

/-! ## From the sender to the viewer -/

/-- Snapshots handed to `SendPlayerSnapshot` one after the other. -/
def sendSnapshots : NetClient → List MsgPlayerSnapshot → List Sent
  | _, [] => []
  | c, snap :: rest =>
    let r := sendPlayerSnapshot c snap
    r.2 ++ sendSnapshots r.1 rest

theorem sendSnapshots_states (c : NetClient) (snaps : List MsgPlayerSnapshot) :
    List.Sublist ((sendSnapshots c snaps).map fun p => stateOf p.data) (snaps.map reported) := by
  induction snaps generalizing c with
  | nil => exact .slnil
  | cons snap snaps ih =>
    have hone : List.Sublist ((sendPlayerSnapshot c snap).2.map fun p => stateOf p.data)
        [reported snap] := by
      unfold sendPlayerSnapshot send
      split
      · split
        · simp [stateOf, reported]
        · exact List.nil_sublist _
      · exact List.nil_sublist _
    simp only [sendSnapshots, List.map_append, List.map_cons]
    exact hone.append (ih _)

/-- Ids are not used twice, so one that was given to a pointer was given to no other. -/
theorem registered_unique {now : ℚ} {es : List Event} {s : State} {acts : List Action}
    (horder : HostOrder (fun _ => false) es) (hconnects : connects es < 2 ^ 32 - 1)
    (hrun : Server.run (Server.start now) es = some (s, acts)) {a : Peer} {id : UInt32}
    (ha : .registered a id ∈ acts) : ∀ q, .registered q id ∈ acts → q = a := by
  obtain ⟨live, h⟩ := Server.run_session now horder hconnects hrun
  have join : ∀ q, .registered q id ∈ acts → .join q id ∈ Server.entries acts := fun q hq =>
    List.mem_flatMap.mpr ⟨_, hq, by simp [Server.Action.entries]⟩
  exact fun q hq => Membership.join_unique h.tracks.run.orderly.fresh (join a ha) (join q hq)

/-- With any loss but no reordering on either hop, the samples of a player that a client
pushes are in the order its snapshots were sent in. -/
theorem samples_in_send_order (now : ℚ) (es : List Event) (s : State) (acts : List Action)
    (horder : HostOrder (fun _ => false) es) (hconnects : connects es < 2 ^ 32 - 1)
    (hrun : Server.run (Server.start now) es = some (s, acts)) (a b : Peer) (id : UInt32)
    (ha : .registered a id ∈ acts) (sender : NetClient) (snaps : List MsgPlayerSnapshot)
    (hup : List.Sublist (es.filterMap (snapshotPacket a id))
      ((sendSnapshots sender snaps).map Sent.data))
    (gameTime : ℚ) (script console compilesSpawn : Bool) (compiles : Script → Bool)
    (frames : List Frame) (hdown : List.Sublist ((packetsAt frames).filter isWorldSnapshot)
      (on .unreliable (packetsTo b acts))) :
    InOrderOf (snaps.map reported)
      (samplesOf id (pushes (start gameTime script console compilesSpawn compiles) frames)) := by
  have hunique := registered_unique horder hconnects hrun ha
  have htold : Replays ((es.filterMap (snapshotPacket a id)).map stateOf) (samplesTo b id acts) :=
    Server.run_follows es (Server.follows_start a b id now) hunique hrun
  have hheard : List.Sublist ((es.filterMap (snapshotPacket a id)).map stateOf)
      (snaps.map reported) := by
    refine (hup.map stateOf).trans ?_
    rw [List.map_map]
    exact sendSnapshots_states sender snaps
  have hpushed : List.Sublist
      (samplesOf id (pushes (start gameTime script console compilesSpawn compiles) frames))
      (samplesTo b id acts) := by
    refine (pushes_sublist rfl frames id).trans ?_
    rw [← samplesIn_filter]
    exact hdown.flatMap _
  exact ((htold.widen hheard).thin hpushed).inOrderOf

/-! ## Reordering -/

/-- Samples come in send order, where `up` and `down` say how the packets that arrive on
each hop are related to those that were sent. -/
def InOrderIf (up down : List (List UInt8) → List (List UInt8) → Prop) : Prop :=
  ∀ (es : List Event) (s : State) (acts : List Action) (a b : Peer) (id : UInt32)
    (sender : NetClient) (snaps : List MsgPlayerSnapshot) (frames : List Frame),
    HostOrder (fun _ => false) es → Server.run (Server.start 0) es = some (s, acts) → a ≠ b →
    .registered a id ∈ acts → snaps.length < 2 ^ 15 →
    up (es.filterMap (snapshotPacket a id)) ((sendSnapshots sender snaps).map Sent.data) →
    down ((packetsAt frames).filter isWorldSnapshot) (on .unreliable (packetsTo b acts)) →
    InOrderOf (snaps.map reported) (samplesOf id (pushes freshClient frames))

/-- The second snapshot of a player, one unit further east. -/
def moved : MsgPlayerSnapshot := { MsgPlayerSnapshot.still 0 1 1 with posX := 0x3f800000 }

def walker : NetClient := { client := true, peer := true, connected := true, netEntityId := 1 }

/-- The two packets of the walk, as sent. -/
def walk : List (List UInt8) := (sendSnapshots walker [.still 0 1 1, moved]).map Sent.data

/-- The server broadcasts each of the packets as it comes. -/
def relayed (packets : List (List UInt8)) : List Event :=
  [.connect 1 0, .connect 2 0, .receive 1 (packets.getD 0 []) 0, .broadcast snapshotSendInterval,
    .receive 1 (packets.getD 1 []) 0, .broadcast (2 * snapshotSendInterval)]

/-- The broadcast of the second snapshot comes first. -/
def backwards : List Frame :=
  [greeted, quietFrame [.receive (encodeWorld [reported moved])],
    quietFrame [.receive (encodeWorld [reported (.still 0 1 1)])]]

theorem not_inOrderIf {up down : List (List UInt8) → List (List UInt8) → Prop}
    (packets : List (List UInt8))
    (hhost : HostOrder (fun _ => false) (relayed packets))
    (hrun : (Server.run (Server.start 0) (relayed packets)).any fun r =>
      decide (.registered 1 1 ∈ r.2) && decide (on .unreliable (packetsTo 2 r.2) =
        packets.map fun data => encodeWorld [stateOf data]))
    (hup : up ((relayed packets).filterMap (snapshotPacket 1 1)) walk)
    (hdown : down ((packetsAt backwards).filter isWorldSnapshot)
      (packets.map fun data => encodeWorld [stateOf data])) : ¬ InOrderIf up down := by
  intro h
  obtain ⟨⟨s, acts⟩, hserver, hacts⟩ := (Option.any_eq_true _ _).mp hrun
  simp only [Bool.and_eq_true, decide_eq_true_eq] at hacts
  have hpushes : samplesOf 1 (pushes freshClient backwards) =
      [reported moved, reported (.still 0 1 1)] := by decide +kernel
  have horder := h (relayed packets) s acts 1 2 1 walker [.still 0 1 1, moved] backwards hhost
    hserver (by decide) hacts.1 (by decide) hup (by rw [hacts.2]; exact hdown)
  rw [hpushes] at horder
  exact not_inOrderOf_swap (by decide) horder

/-- Reordering on either hop alone takes a remote player back in time. -/
theorem samples_go_back : ¬ InOrderIf List.Subperm List.Subperm ∧
    ¬ InOrderIf List.Subperm List.Sublist ∧ ¬ InOrderIf List.Sublist List.Subperm := by
  have first : ¬ InOrderIf List.Subperm List.Sublist :=
    not_inOrderIf walk.reverse (by decide +kernel) (by decide +kernel)
      (by decide +kernel) (by decide +kernel)
  have second : ¬ InOrderIf List.Sublist List.Subperm :=
    not_inOrderIf walk (by decide +kernel) (by decide +kernel)
      (by decide +kernel) (by decide +kernel)
  refine ⟨fun h => first ?_, first, second⟩
  intro es s acts a b id sender snaps frames hhost hrun hab ha hlen hup hdown
  exact h es s acts a b id sender snaps frames hhost hrun hab ha hlen hup hdown.subperm

/-- A walk of which the viewer gets only the second half. -/
theorem samples_in_send_order_lossy :
    InOrderOf [reported (.still 0 1 1), reported moved]
      (samplesOf 1 (pushes freshClient [greeted, backwards.getD 1 (quietFrame [])])) := by
  obtain ⟨⟨s, acts⟩, hserver, hacts⟩ := (Option.any_eq_true _ _).mp
    (show (Server.run (Server.start 0) (relayed walk)).any (fun r =>
      decide (.registered 1 1 ∈ r.2) && decide (on .unreliable (packetsTo 2 r.2) =
        walk.map fun data => encodeWorld [stateOf data])) from by decide +kernel)
  simp only [Bool.and_eq_true, decide_eq_true_eq] at hacts
  refine samples_in_send_order 0 (relayed walk) s acts (by decide +kernel) (by decide +kernel)
    hserver 1 2 1 hacts.1 walker [.still 0 1 1, moved] (by decide +kernel) 0 true true true
    (fun _ => true) _ ?_
  rw [hacts.2]
  decide +kernel

end Fnvmp.Client
