import Fnvmp.Online
import Fnvmp.SampleBuffer
import Fnvmp.SampleRelay
import Fnvmp.TickPhases

/-!
# Where the picture of a player comes from

All that a game keeps of another player, its cell, its bearing and its samples, was put on
the link by that player's own game, each time out of one snapshot.
-/

namespace Fnvmp.EntityManager

open ExactFloat Engine Protocol

def EntityState.pose (es : EntityState) : Interp.Pose FloatVal :=
  ⟨.ofBits es.posX, .ofBits es.posY, .ofBits es.posZ, .ofBits es.rotZ⟩

/-- What of an entity comes from snapshots: the current part, and where it was first seen. -/
def RemoteEntity.current (ent : RemoteEntity) : UInt32 × Animation.NetState := (ent.cellId, ent.net)

def RemoteEntity.spawnPose (ent : RemoteEntity) : Interp.Pose FloatVal :=
  ⟨ent.spawnPosX, ent.spawnPosY, ent.spawnPosZ, ent.spawnRotZ⟩

/-- Everything kept for an id is taken from one of the states with that id. -/
structure Mirrors (R : EntityState → Prop) (s : Manager) : Prop where
  bounded : Interp.Bounded s.interp
  current : ∀ k ent, s.entities.find? k = some ent → ∃ es, R es ∧ es.netEntityId = k ∧
    RemoteEntity.current ent = (es.cellId, EntityState.net es)
  spawnPose : ∀ k ent, s.entities.find? k = some ent → ∃ es, R es ∧ es.netEntityId = k ∧
    RemoteEntity.spawnPose ent = EntityState.pose es
  sample : ∀ k, ∀ x ∈ Interp.samples s.interp k, ∃ es, R es ∧ es.netEntityId = k ∧
    x.pose = EntityState.pose es

variable {R R' : EntityState → Prop} {s s' : Manager}

theorem Mirrors.mono (h : Mirrors R s) (hsub : ∀ es, R es → R' es) : Mirrors R' s where
  bounded := h.bounded
  current k ent hent := by
    obtain ⟨es, hes, hrest⟩ := h.current k ent hent
    exact ⟨es, hsub es hes, hrest⟩
  spawnPose k ent hent := by
    obtain ⟨es, hes, hrest⟩ := h.spawnPose k ent hent
    exact ⟨es, hsub es hes, hrest⟩
  sample k x hx := by
    obtain ⟨es, hes, hrest⟩ := h.sample k x hx
    exact ⟨es, hsub es hes, hrest⟩

theorem Mirrors.of_source (h : Mirrors R s) (hinterp : s'.interp = s.interp)
    (hsource : ∀ k ent', s'.entities.find? k = some ent' → ∃ ent, s.entities.find? k = some ent ∧
      RemoteEntity.current ent' = RemoteEntity.current ent ∧
      RemoteEntity.spawnPose ent' = RemoteEntity.spawnPose ent) : Mirrors R s' where
  bounded := hinterp ▸ h.bounded
  current k ent' hent' := by
    obtain ⟨ent, hent, hcurrent, -⟩ := hsource k ent' hent'
    rw [hcurrent]
    exact h.current k ent hent
  spawnPose k ent' hent' := by
    obtain ⟨ent, hent, -, hpose⟩ := hsource k ent' hent'
    rw [hpose]
    exact h.spawnPose k ent hent
  sample := by
    rw [hinterp]
    exact h.sample

theorem Mirrors.init (script console compilesSpawn : Bool) (compiles : Script → Bool) :
    Mirrors R (EntityManager.init {} script console compilesSpawn compiles) := by
  have hempty : (EntityManager.init {} script console compilesSpawn compiles).entities = ∅ ∧
      (EntityManager.init {} script console compilesSpawn compiles).interp = ∅ := by
    unfold EntityManager.init
    dsimp only
    split <;> exact ⟨rfl, rfl⟩
  refine ⟨fun id state hid => ?_, fun k ent hent => ?_, fun k ent hent => ?_, fun k x hx => ?_⟩
  · rw [hempty.2] at hid
    cases hid
  · rw [hempty.1] at hent
    cases hent
  · rw [hempty.1] at hent
    cases hent
  · rw [hempty.2] at hx
    cases hx

/-- A sample is pushed for an id only with that id's state. -/
theorem mem_pushSample {es : EntityState} {t : ℚ} (h : Interp.Bounded s.interp) {k : UInt32}
    {x : Interp.SnapshotSample FloatVal} (hx : x ∈ Interp.samples (pushSample es t s).interp k) :
    x ∈ Interp.samples s.interp k ∨ k = es.netEntityId ∧ x.pose = EntityState.pose es := by
  rw [pushSample, Interp.pushSnapshot_samples h] at hx
  split at hx
  · rename_i hk
    rcases List.mem_append.mp (List.mem_of_mem_drop hx) with hx | hx
    · exact .inl hx
    · rw [List.mem_singleton.mp hx]
      exact .inr ⟨hk, rfl⟩
  · exact .inl hx

theorem Mirrors.updateEntity (h : Mirrors R s) {es : EntityState} (hes : R es) (cell : UInt32)
    (t : ℚ) : Mirrors R (updateEntity cell t s es) := by
  unfold EntityManager.updateEntity
  have hsample : ∀ s₁ : Manager, s₁.interp = s.interp →
      ∀ k, ∀ x ∈ Interp.samples (pushSample es t s₁).interp k, ∃ es, R es ∧ es.netEntityId = k ∧
        x.pose = EntityState.pose es := by
    intro s₁ hs₁ k x hx
    rcases mem_pushSample (hs₁ ▸ h.bounded) hx with hx | ⟨rfl, hpose⟩
    · exact h.sample k x (hs₁ ▸ hx)
    · exact ⟨es, hes, rfl, hpose⟩
  split
  · split
    · exact h
    · refine ⟨Interp.pushSnapshot_bounded h.bounded _ _ _ _ _ _, fun k ent hent => ?_,
        fun k ent hent => ?_, hsample _ rfl⟩
      · rw [pushSample, OrderedMap.find?_insert] at hent
        split at hent
        · rename_i hk
          cases hent
          exact ⟨es, hes, hk.symm, rfl⟩
        · exact h.current k ent hent
      · rw [pushSample, OrderedMap.find?_insert] at hent
        split at hent
        · rename_i hk
          cases hent
          exact ⟨es, hes, hk.symm, rfl⟩
        · exact h.spawnPose k ent hent
  · refine ⟨Interp.pushSnapshot_bounded h.bounded _ _ _ _ _ _, fun k ent hent => ?_,
      fun k ent hent => ?_, hsample _ rfl⟩
    · rw [pushSample, OrderedMap.find?_modify] at hent
      split at hent
      · rename_i hk
        obtain ⟨old, -, rfl⟩ := Option.map_eq_some_iff.mp hent
        exact ⟨es, hes, hk.symm, rfl⟩
      · exact h.current k ent hent
    · rw [pushSample, OrderedMap.find?_modify] at hent
      split at hent
      · rename_i hk
        obtain ⟨old, hold, rfl⟩ := Option.map_eq_some_iff.mp hent
        exact h.spawnPose k old (hk ▸ hold)
      · exact h.spawnPose k ent hent

theorem Mirrors.updateFromWorldSnapshot (h : Mirrors R s) {states : List EntityState}
    (hstates : ∀ es ∈ states, R es) (w : World) (t : ℚ) :
    Mirrors R (updateFromWorldSnapshot w states t s) := by
  unfold EntityManager.updateFromWorldSnapshot
  dsimp only
  split
  · exact h
  · induction states generalizing s with
    | nil => exact h
    | cons es states ih =>
      exact ih (h.updateEntity (hstates es List.mem_cons_self) _ t)
        fun e he => hstates e (List.mem_cons_of_mem _ he)

theorem Mirrors.applyFireEvent (h : Mirrors R s) (w : World) (id : UInt32) (t : ℚ) :
    Mirrors R (applyFireEvent w id t s) := by
  obtain heq | ⟨-, sc, -, -, -, -, heq⟩ := applyFireEvent_cases w id t s
  · rw [heq]
    exact h
  · rw [heq]
    refine h.of_source rfl fun k ent' hent' => ?_
    rw [OrderedMap.find?_modify] at hent'
    split at hent'
    · rename_i hk
      obtain ⟨ent, hent, rfl⟩ := Option.map_eq_some_iff.mp hent'
      exact ⟨ent, hk ▸ hent, rfl, rfl⟩
    · exact ⟨ent', hent', rfl, rfl⟩

theorem Mirrors.removeEntity (h : Mirrors R s) (id : UInt32) : Mirrors R (removeEntity id s) := by
  unfold EntityManager.removeEntity
  split
  · exact h
  · refine ⟨fun k state hk => ?_, h.current, h.spawnPose, fun k x hx => ?_⟩
    · rw [Interp.removeEntity, OrderedMap.find?_erase] at hk
      split at hk
      · cases hk
      · exact h.bounded k state hk
    · rw [Interp.samples, Interp.removeEntity, OrderedMap.find?_erase] at hx
      split at hx
      · cases hx
      · exact h.sample k x hx

theorem Mirrors.tick (h : Mirrors R s) {fuel : Nat} {w : World} {t : ℚ}
    (ht : tick fuel w t s = some s') : Mirrors R s' := by
  obtain ⟨rfl, -⟩ | ⟨hready, hwork, -⟩ := tick_cases ht
  · exact h
  refine h.of_source (tick_interp ht) fun k ent' hent' => ?_
  obtain ⟨ent, mid, past, hent, -, hspawned, -, rfl⟩ := tick_source hready hwork ht hent'
  refine ⟨ent, hent, ?_⟩
  have hmid : RemoteEntity.current mid = RemoteEntity.current ent ∧
      RemoteEntity.spawnPose mid = RemoteEntity.spawnPose ent := by
    rcases hspawned with rfl | ⟨-, refID, rfl⟩ <;> exact ⟨rfl, rfl⟩
  obtain heq | ⟨-, -, -, sc, -, heq⟩ :=
    animateEntity_cases s.anim w (getLocalPlayerCellID w) t past k mid
  · rw [heq]
    exact hmid
  · rw [heq]
    exact hmid

end Fnvmp.EntityManager

/-! ## One frame -/

namespace Fnvmp.Net

open Protocol Server

variable {R : EntityState → Prop}

/-- The entities of a client that polls are those it had or those of a packet. -/
theorem drain_entities {c c' : NetClient} {waiting : List HostEvent} {sent : List Sent}
    (h : ∀ es ∈ c.worldEntities, R es)
    (hwaiting : ∀ data ∈ waiting.filterMap Delivery.packet, ∀ es ∈ statesIn data, R es)
    (hs : drain c waiting = some (c', sent)) : ∀ es ∈ c'.worldEntities, R es := by
  induction waiting generalizing c sent with
  | nil =>
    cases hs
    exact h
  | cons e waiting ih =>
    obtain ⟨⟨mid, first⟩, hfirst, hrest⟩ := Option.bind_eq_some_iff.mp hs
    obtain ⟨⟨last, rest⟩, hlast, heq⟩ := Option.map_eq_some_iff.mp hrest
    cases heq
    have hmore : ∀ data ∈ waiting.filterMap Delivery.packet, ∀ es ∈ statesIn data, R es := by
      intro data hdata
      refine hwaiting data ?_
      rw [List.filterMap_cons]
      split
      · exact hdata
      · exact List.mem_cons_of_mem _ hdata
    refine ih ?_ hmore hlast
    cases e with
    | connect =>
      cases hfirst
      exact h
    | disconnect =>
      cases hfirst
      exact h
    | receive data =>
      have hdata := hwaiting data (List.mem_filterMap.mpr ⟨_, List.mem_cons_self, rfl⟩)
      rw [handleEvent, handleReceive_eq] at hfirst
      cases hparse : ServerMessage.parse data with
      | none =>
        rw [hparse] at hfirst
        cases hfirst
        exact h
      | some m =>
        rw [hparse] at hfirst
        cases m with
        | worldSnapshot entities =>
          cases hfirst
          simpa only [statesIn, hparse] using hdata
        | connectAck id | disconnect | playerConnect id | playerDisconnect id | remoteFire id =>
          cases hfirst
          exact h

theorem poll_entities {c c' : NetClient} {dt : ℚ} {waiting : List HostEvent} {sent : List Sent}
    (h : ∀ es ∈ c.worldEntities, R es)
    (hwaiting : ∀ data ∈ waiting.filterMap Delivery.packet, ∀ es ∈ statesIn data, R es)
    (hs : poll c dt waiting = some (c', sent)) : ∀ es ∈ c'.worldEntities, R es := by
  unfold poll at hs
  split at hs
  · cases hs
    exact h
  obtain ⟨⟨mid, first⟩, hdrain, heq⟩ := Option.map_eq_some_iff.mp hs
  have hmid := drain_entities h hwaiting hdrain
  dsimp only at heq
  split at heq
  · split at heq
    · cases heq
      exact hmid
    · cases heq
      exact hmid
  · cases heq
    exact hmid

end Fnvmp.Net

namespace Fnvmp.Client

open Protocol Net EntityManager

variable {R : EntityState → Prop}

/-- A frame keeps the mirror, and the client's entities are those of its packets. -/
theorem frame_mirrors {c c' : Plugin} {f : Frame} {sent : List Sent}
    (h : Mirrors R c.manager) (hnet : ∀ es ∈ c.net.worldEntities, R es)
    (hwaiting : ∀ data ∈ f.waiting.filterMap Delivery.packet, ∀ es ∈ Server.statesIn data, R es)
    (hf : frame c f = some (c', sent)) :
    Mirrors R c'.manager ∧ ∀ es ∈ c'.net.worldEntities, R es := by
  obtain ⟨net, hpoll, htick, hnet'⟩ := frame_cases hf
  have hentities := poll_entities hnet hwaiting hpoll
  have hremovals : Mirrors R (removals net c.manager) := by
    unfold removals
    generalize net.disconnectedEntities = ids
    generalize c.manager = s at h
    induction ids generalizing s with
    | nil => exact h
    | cons id ids ih => exact ih _ (h.removeEntity id)
  have hfires : Mirrors R (fires net f.world (c.gameTime + f.dt) (removals net c.manager)) := by
    unfold fires
    generalize net.fireEvents = ids
    generalize removals net c.manager = s at hremovals
    induction ids generalizing s with
    | nil => exact hremovals
    | cons id ids ih => exact ih _ (hremovals.applyFireEvent f.world id _)
  have hreceived : Mirrors R (received net f.world (c.gameTime + f.dt) c.manager) := by
    unfold received
    dsimp only
    split
    · exact hfires.updateFromWorldSnapshot
        (fun es hes => hentities es (List.mem_of_mem_take hes)) f.world _
    · exact hfires
  refine ⟨hreceived.tick htick, ?_⟩
  rw [hnet']
  exact hentities

end Fnvmp.Client

namespace Fnvmp.Detection

open ExactFloat Protocol Net EntityManager

theorem sendFrame_entities (x : Expressions) (libm : Libm FloatVal) (state : NetClient × Sender)
    (t : Moment) : (sendFrame x libm state t).1.1.worldEntities = state.1.worldEntities := by
  have hsend : ∀ snapshot, (sendPlayerSnapshot state.1 snapshot).1.worldEntities =
      state.1.worldEntities := by
    intro snapshot
    unfold sendPlayerSnapshot
    split <;> rfl
  have hsnapshot : ∀ s : Sender,
      (sendSnapshot x state.1 t.world t.player libm t.dt s).2.1.worldEntities =
        state.1.worldEntities := by
    intro s
    unfold sendSnapshot
    split
    · dsimp only
      split
      · exact hsend _
      · rfl
    · rfl
  exact hsnapshot _

theorem mainGameLoop_mirrors {R : EntityState → Prop} {x : Expressions} {libm : Libm FloatVal}
    {g g' : Game} {t : Tick} {sent : List Sent} (h : Mirrors R g.plugin.manager)
    (hnet : ∀ es ∈ g.plugin.net.worldEntities, R es)
    (hwaiting : ∀ data ∈ t.frame.waiting.filterMap Delivery.packet,
      ∀ es ∈ Server.statesIn data, R es)
    (hs : mainGameLoop x libm g t = some (g', sent)) :
    Mirrors R g'.plugin.manager ∧ ∀ es ∈ g'.plugin.net.worldEntities, R es := by
  obtain ⟨⟨plugin, received⟩, hframe, heq⟩ := Option.map_eq_some_iff.mp hs
  simp only [Prod.mk.injEq] at heq
  obtain ⟨rfl, rfl⟩ := heq
  obtain ⟨hmirrors, hentities⟩ := Client.frame_mirrors h hnet hwaiting hframe
  refine ⟨hmirrors, ?_⟩
  dsimp only
  rw [sendFrame_entities]
  exact hentities

end Fnvmp.Detection

/-! ## The table of the server -/

namespace Fnvmp.Server

open PackedCodec Protocol

/-- Some snapshot that would leave the entry as it is. -/
def PlayerInfo.snapshot (info : PlayerInfo) : MsgPlayerSnapshot where
  msgType := MessageType.playerSnapshot.code
  sequence := info.lastSequence
  netEntityId := info.netEntityId
  cellId := info.cellId
  posX := info.posX
  posY := info.posY
  posZ := info.posZ
  rotZ := info.rotZ
  moveDirection := info.moveDirection
  isRunning := info.isRunning
  isSneaking := info.isSneaking
  isWeaponOut := info.isWeaponOut
  actionState := info.actionState

/-- The data of an entry is that of before the step, or of the packet just accepted. -/
theorem step_shown {s s' : State} {e : Event} {acts : List Action}
    (hs : step s e = some (s', acts)) {q : Peer} {info' : PlayerInfo}
    (hq : s'.players.find? q = some info') (hshown : info'.hasSnapshot = true) :
    (∃ info, s.players.find? q = some info ∧ info.hasSnapshot = true ∧
        info'.entityState = info.entityState) ∨
      ∃ data now, e = .receive q data now ∧
        accepted s.players q data = some (msgPlayerSnapshot.decode data) ∧
        info'.entityState = reported (msgPlayerSnapshot.decode data) := by
  let last (r : Peer) : Option MsgPlayerSnapshot :=
    (s.players.find? r).bind fun info => if info.hasSnapshot then some info.snapshot else none
  have hbefore : ∀ r info, s.players.find? r = some info → Holds info (last r) := by
    intro r info hr
    simp only [last, hr, Option.bind_some]
    split
    · rename_i hyes
      exact ⟨hyes, fun snap hsnap => by cases hsnap; rfl⟩
    · rename_i hno
      exact ⟨by simpa using hno, nofun⟩
  obtain ⟨hsome, hstate⟩ := step_holds hbefore hs q info' hq
  obtain ⟨snap, hsnap⟩ := Option.isSome_iff_exists.mp (hsome.symm.trans hshown)
  have hinfo' := hstate snap hsnap
  have hold : last q = some snap → ∃ info, s.players.find? q = some info ∧
      info.hasSnapshot = true ∧ info'.entityState = info.entityState := by
    intro hlast
    obtain ⟨info, hinfo, hsnapshot⟩ := Option.bind_eq_some_iff.mp hlast
    split at hsnapshot
    · rename_i hyes
      cases hsnapshot
      exact ⟨info, hinfo, hyes, hinfo'⟩
    · cases hsnapshot
  cases e with
  | connect p now =>
    simp only [noteAccepted] at hsnap
    split at hsnap
    · cases hsnap
    · exact .inl (hold hsnap)
  | receive p data now =>
    simp only [noteAccepted, acceptedFrom] at hsnap
    split at hsnap
    · rename_i hp
      subst hp
      rcases Option.or_eq_some_iff.mp hsnap with haccepted | ⟨-, hlast⟩
      · have hdecode : snap = msgPlayerSnapshot.decode data := by
          unfold accepted at haccepted
          split at haccepted
          · exact (Option.some.inj haccepted).symm
          · cases haccepted
        exact .inr ⟨data, now, rfl, hdecode ▸ haccepted, hdecode ▸ hinfo'⟩
      · exact .inl (hold hlast)
    · exact .inl (hold hsnap)
  | disconnect p | checkTimeouts now | broadcast now => exact .inl (hold hsnap)

end Fnvmp.Server

/-! ## The whole system -/

namespace Fnvmp.Online

open PackedCodec ExactFloat Protocol Server Net Delivery Detection EntityManager Enet

/-- The state is that of a snapshot put on its link by a game with that id. -/
def Reported (log : List (UInt32 × Post (List UInt8))) (es : EntityState) : Prop :=
  ∃ snap, (es.netEntityId, postOf .playerSnapshot (msgPlayerSnapshot.encode snap)) ∈ log ∧
    es = reported snap

theorem Reported.mono {log : List (UInt32 × Post (List UInt8))} {es : EntityState}
    (h : Reported log es) (more : List (UInt32 × Post (List UInt8))) :
    Reported (log ++ more) es := by
  obtain ⟨snap, hmem, heq⟩ := h
  exact ⟨snap, List.mem_append_left more hmem, heq⟩

structure Connection.Traced (log : List (UInt32 × Post (List UInt8))) (c : Connection) : Prop where
  up : ∀ x ∈ c.up.sent, (c.id, x) ∈ log
  down : ∀ x ∈ c.down.sent, ∀ es ∈ statesIn x.packet, Reported log es
  net : ∀ g, c.game = some g → ∀ es ∈ g.plugin.net.worldEntities, Reported log es
  manager : ∀ g, c.game = some g → Mirrors (Reported log) g.plugin.manager

def TableTraced (log : List (UInt32 × Post (List UInt8))) (players : Players) : Prop :=
  ∀ p info, players.find? p = some info → info.hasSnapshot = true →
    Reported log info.entityState

structure Traced (w : System) : Prop where
  table : TableTraced w.log w.server.players
  connection : ∀ place c, w.connections place = some c → c.Traced w.log

variable {w w' : System} {place : Place} {p : Peer} {c : Connection}

theorem Connection.Traced.mono {log : List (UInt32 × Post (List UInt8))} (h : c.Traced log)
    (more : List (UInt32 × Post (List UInt8))) : c.Traced (log ++ more) where
  up x hx := List.mem_append_left more (h.up x hx)
  down x hx es hes := (h.down x hx es hes).mono more
  net g hg es hes := (h.net g hg es hes).mono more
  manager g hg := (h.manager g hg).mono fun _ hes => hes.mono more

theorem Connection.Traced.fresh (log : List (UInt32 × Post (List UInt8))) (id : UInt32) {g : Game}
    (hnew : NewGame g) : (Connection.fresh id g).Traced log where
  up := by simp [Connection.fresh, Link.start]
  down := by simp [Connection.fresh, Link.start]
  net g' hg' := by
    cases hg'
    rw [hnew.net]
    exact fun _ hes => by cases hes
  manager g' hg' := by
    cases hg'
    obtain ⟨script, console, compilesSpawn, compiles, hmanager⟩ := hnew.manager
    rw [hmanager]
    exact .init script console compilesSpawn compiles

/-- What the server sends in a step is out of its table. -/
theorem Connection.Traced.hear {s s' : State} {e : Event} {acts : List Action}
    {log : List (UInt32 × Post (List UInt8))} (h : c.Traced log) (hdown : Reaches numChannels c.down)
    (hs : Server.step s e = some (s', acts)) (htable : TableTraced log s.players) :
    (c.hear (postsTo p acts)).Traced log := by
  have hchannel : ∀ x ∈ postsTo p acts, x.channelID < numChannels := by
    intro x hx
    obtain ⟨channel, data, flag, -, rfl⟩ := mem_postsTo hx
    exact channel.code_lt
  obtain ⟨-, hsent, -, -⟩ := sends_add hdown hchannel
  refine ⟨h.up, fun x hx es hes => ?_, h.net, h.manager⟩
  change x ∈ ((postsTo p acts).foldl Link.send c.down).sent at hx
  rw [hsent] at hx
  rcases List.mem_append.mp hx with hx | hx
  · exact h.down x hx es hes
  · obtain ⟨channel, data, flag, hact, rfl⟩ := mem_postsTo hx
    obtain ⟨q, info, hq, hshown, rfl⟩ := step_tells hs _ hact p channel data flag rfl es hes
    exact htable q info hq hshown

theorem Traced.deliver {server : State} {e : Event} {acts : List Action}
    {connections : Place → Option Connection} (h : Traced w)
    (hs : Server.step w.server e = some (server, acts))
    (hsound : ∀ p c, connections p = some c → c.Sound)
    (hconnection : ∀ p c, connections p = some c → c.Traced w.log)
    (hpacket : ∀ p data now, e = .receive p data now → ∀ snap,
      accepted w.server.players p data = some snap → Reported w.log (reported snap))
    (ids : List UInt32) : Traced ⟨server, ids, deliver acts connections, w.log⟩ where
  table q info hq hshown := by
    rcases step_shown hs hq hshown with ⟨old, hold, hyes, heq⟩ | ⟨data, now, rfl, hacc, heq⟩
    · rw [heq]
      exact h.table q old hold hyes
    · rw [heq]
      exact hpacket q data now rfl _ hacc
  connection place c hc := by
    cases place with
    | peer q =>
      obtain ⟨c', hc', rfl⟩ := Option.map_eq_some_iff.mp hc
      exact (hconnection _ c' hc').hear (hsound _ c' hc').down hs h.table
    | former n => exact hconnection (.former n) c hc

/-- A game that says something: the log grows by just that. -/
theorem Traced.say (h : Traced w) {posts : List (Post (List UInt8))}
    (hup : Reaches numChannels c.up) (hposts : ∀ x ∈ posts, x.channelID < numChannels)
    (hc : c.Traced w.log) : Traced (w.say place c posts) where
  table q info hq hshown := (h.table q info hq hshown).mono _
  connection := by
    refine forall_update (fun q d hd => (h.connection q d hd).mono _) fun d hd => ?_
    cases hd
    obtain ⟨-, hsent, -, -⟩ := sends_add hup hposts
    have hmono := hc.mono (posts.map fun x => (c.id, x))
    refine ⟨fun x hx => ?_, hmono.down, hmono.net, hmono.manager⟩
    change x ∈ (posts.foldl Link.send c.up).sent at hx
    rw [hsent] at hx
    rcases List.mem_append.mp hx with hx | hx
    · exact hmono.up x hx
    · exact List.mem_append_right _ (List.mem_map_of_mem hx)

/-- A packet of a client that the server accepts is a snapshot of its log. -/
theorem reported_of_accepted (hsound : c.Sound) (htraced : c.Traced w.log)
    {x : Post (List UInt8)} (hx : x ∈ c.up.dispatched) {players : Players} {snap : MsgPlayerSnapshot}
    (hacc : accepted players p x.packet = some snap) : Reported w.log (reported snap) := by
  have hsent := dispatched_subset hsound.up hx
  obtain ⟨m, hfits, hpost, hown⟩ := hsound.said x hsent
  have hmem := htraced.up x hsent
  unfold accepted at hacc
  split at hacc
  swap
  · cases hacc
  rename_i htype
  have hpacket : x.packet = m.encode := by rw [hpost, postOf]
  have hm : m.type = .playerSnapshot := by
    have h := packetType_encode hfits
    rw [← hpacket] at h
    exact Option.some.inj (h.symm.trans htype.1)
  cases m with
  | heartbeat | disconnect | playerFire id => cases hm
  | playerSnapshot snapshot =>
    have hsnap : snapshot = snap := by
      rw [hpacket, ClientMessage.encode, Codec.decode_encode_self] at hacc
      exact Option.some.inj hacc
    subst hsnap
    refine ⟨snapshot, ?_, rfl⟩
    rw [hpost, ← hown _ rfl] at hmem
    exact hmem

theorem Traced.put (h : Traced w) {c' : Connection} (hc' : c'.Traced w.log) :
    Traced (w.put place c') :=
  ⟨h.table, forall_update h.connection fun _ hd => Option.some.inj hd ▸ hc'⟩

theorem Traced.step (h : Traced w) (hsound : Sound w) (hstep : Step w w') : Traced w' := by
  cases hstep with
  | @connect p g now hfree hnew =>
    exact h.deliver (e := .connect p now) rfl
      (forall_update hsound.connection fun _ hd => Option.some.inj hd ▸ .fresh _ hnew)
      (forall_update h.connection fun _ hd => Option.some.inj hd ▸ .fresh _ _ hnew)
      (fun _ _ _ => nofun) _
  | @pass e server acts he hs =>
    refine h.deliver hs hsound.connection h.connection ?_ w.ids
    rintro p data now rfl
    exact he.elim
  | @gone p n server acts hfree hs =>
    exact h.deliver hs (forall_dismiss hsound.connection p n) (forall_dismiss h.connection p n)
      (fun _ _ _ => nofun) w.ids
  | @serve p c received rest now server acts hc hreceived hs =>
    have hc' := h.connection _ c hc
    have hreceive : Connection.Traced w.log { c with up := c.up.step .receive } :=
      ⟨by rw [(receive_adds hreceived).1]; exact hc'.up, hc'.down, hc'.net, hc'.manager⟩
    refine h.deliver hs
      (forall_update hsound.connection fun _ hd =>
        Option.some.inj hd ▸ (hsound.connection _ c hc).receive hreceived)
      (forall_update h.connection fun _ hd => Option.some.inj hd ▸ hreceive) ?_ w.ids
    rintro q data now' heq snap hacc
    cases heq
    refine reported_of_accepted (hsound.connection _ c hc) hc' (List.mem_append_right _ ?_) hacc
    rw [hreceived]
    exact List.mem_cons_self
  | @networkUp p c e hc he hfresh =>
    have hc' := h.connection p c hc
    exact h.put ⟨by rw [(network_adds c.up he).1]; exact hc'.up, hc'.down, hc'.net, hc'.manager⟩
  | @networkDown p c e hc he hfresh =>
    have hc' := h.connection p c hc
    exact h.put ⟨hc'.up, by rw [(network_adds c.down he).1]; exact hc'.down, hc'.net, hc'.manager⟩
  | @frame p c x libm g g' t sent n hc hgame hwaiting hloop =>
    have hc' := h.connection p c hc
    have hstates : ∀ data ∈ t.frame.waiting.filterMap packet, ∀ es ∈ statesIn data,
        Reported w.log es := by
      intro data hdata
      rw [hwaiting] at hdata
      obtain ⟨x, hx, rfl⟩ := List.mem_map.mp hdata
      exact hc'.down x (dispatched_subset (hsound.connection p c hc).down
        (List.mem_append_right _ (List.mem_of_mem_take hx)))
    obtain ⟨hmirrors, hentities⟩ :=
      mainGameLoop_mirrors (hc'.manager g hgame) (hc'.net g hgame) hstates hloop
    have hframe : Connection.Traced w.log { c with
        game := some g'
        down := c.down.run (List.replicate n .receive) } :=
      { up := hc'.up
        down := by
          rw [(receives_add (hsound.connection p c hc).down n).2.1]
          exact hc'.down
        net := fun _ hg => Option.some.inj hg ▸ hentities
        manager := fun _ hg => Option.some.inj hg ▸ hmirrors }
    refine h.say (hsound.connection p c hc).up (fun x hx => ?_) hframe
    obtain ⟨s, -, rfl⟩ := List.mem_map.mp hx
    exact s.channel.code_lt
  | @leave p c g served hc hgame =>
    have hc' := h.connection p c hc
    have hleft : Connection.Traced w.log { c with game := none } :=
      ⟨hc'.up, hc'.down, fun _ => nofun, fun _ => nofun⟩
    exact h.say (hsound.connection p c hc).up
      (fun x hx => (said_farewell g served c.id x hx).channel) hleft

theorem Run.traced {now : ℚ} (h : Run (start now) w) : Traced w := by
  induction h with
  | refl => exact ⟨fun p info hp => by simp [start, Server.start] at hp, fun _ _ => nofun⟩
  | tail hrun hstep ih => exact ih.step (Run.sound hrun) hstep

/-- In every run of the whole system, whatever a game shows of another player is out of one
snapshot, bit for bit, that a game with that id put on its link. -/
theorem picture_reported {now : ℚ} (h : Run (start now) w) {g : Game}
    (hc : w.connections place = some c) (hg : c.game = some g) :
    Mirrors (Reported w.log) g.plugin.manager :=
  (h.traced.connection place c hc).manager g hg

theorem picture_reported_meeting : ∃ w c g ent, Run (start 0) w ∧
    w.connections (.peer 2) = some c ∧
    c.game = some g ∧ g.plugin.manager.entities.find? 1 = some ent ∧
    ∃ es, Reported w.log es ∧ es.netEntityId = 1 ∧
      RemoteEntity.current ent = (es.cellId, EntityState.net es) := by
  obtain ⟨w, -, c, g, hrun, -, hc, hg, -, -, hsome, -⟩ := meeting
  obtain ⟨ent, hent⟩ := Option.isSome_iff_exists.mp hsome
  exact ⟨w, c, g, ent, hrun, hc, hg, hent, (picture_reported hrun hc hg).current 1 ent hent⟩

end Fnvmp.Online
