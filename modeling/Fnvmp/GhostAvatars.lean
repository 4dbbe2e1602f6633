import Fnvmp.Delivery
import Fnvmp.SnapshotPacket
import Fnvmp.TickPhases

/-!
# Whether the departed stay gone

A departure queues the entity, and the next tick that passes its guards erases it. From
then on the only way back is a world snapshot that still shows the player.
-/

namespace Fnvmp.EntityManager

open Engine Protocol

/-- The entity is not tracked, or it will not be once the queue is worked off. -/
def Leaving (id : UInt32) (s : Manager) : Prop :=
  s.entities.find? id = none ∨ id ∈ s.pendingDespawns

/-- Some state of a snapshot puts the entity into the local player's cell. -/
def Shows (w : World) (states : List EntityState) (id : UInt32) : Prop :=
  getLocalPlayerCellID w ≠ 0 ∧
    ∃ es ∈ states, es.netEntityId = id ∧ es.cellId = getLocalPlayerCellID w

theorem removeEntity_leaving {id : UInt32} {s : Manager} (h : Leaving id s) (k : UInt32) :
    Leaving id (removeEntity k s) := by
  unfold removeEntity
  split
  · exact h
  · exact h.imp_right fun hmem => List.mem_append_left _ hmem

theorem removeEntity_self (id : UInt32) (s : Manager) : Leaving id (removeEntity id s) := by
  unfold removeEntity
  split
  · rename_i hnone
    exact .inl hnone
  · exact .inr (by simp)

theorem removeEntity_find? (k : UInt32) (s : Manager) (id : UInt32) :
    (removeEntity k s).entities.find? id = s.entities.find? id := by
  unfold removeEntity
  split <;> rfl

theorem applyFireEvent_keeps (w : World) (k : UInt32) (t : ℚ) (s : Manager) (id : UInt32) :
    (((applyFireEvent w k t s).entities.find? id).isSome,
      (applyFireEvent w k t s).pendingDespawns) =
      ((s.entities.find? id).isSome, s.pendingDespawns) := by
  obtain heq | ⟨ent, sc, -, -, -, -, heq⟩ := applyFireEvent_cases w k t s
  · rw [heq]
  · rw [heq]
    dsimp only
    rw [OrderedMap.find?_modify]
    split
    · rename_i hid
      rw [hid, Option.isSome_map]
    · rfl

theorem updateEntity_untracked {cell : UInt32} {t : ℚ} {s : Manager} {es : EntityState}
    {id : UInt32} (h : s.entities.find? id = none) (hcell : cell ≠ 0)
    (hes : ¬ (es.netEntityId = id ∧ es.cellId = cell)) :
    (updateEntity cell t s es).entities.find? id = none := by
  unfold updateEntity
  split
  · split
    · exact h
    · rename_i hskip
      have hne : id ≠ es.netEntityId := by
        rintro rfl
        refine hes ⟨rfl, ?_⟩
        by_contra hother
        exact hskip ⟨hcell, hother⟩
      simp only [pushSample]
      rw [OrderedMap.find?_insert, if_neg hne, h]
  · simp only [pushSample]
    rw [OrderedMap.find?_modify]
    split <;> simp [h]

theorem updateFromWorldSnapshot_untracked {w : World} {states : List EntityState} {t : ℚ}
    {s : Manager} {id : UInt32} (h : s.entities.find? id = none) (hshown : ¬ Shows w states id) :
    (updateFromWorldSnapshot w states t s).entities.find? id = none := by
  unfold updateFromWorldSnapshot
  dsimp only
  split
  · exact h
  · rename_i hcell
    have hnone : ∀ es ∈ states, ¬ (es.netEntityId = id ∧ es.cellId = getLocalPlayerCellID w) :=
      fun es hmem hes => hshown ⟨hcell, es, hmem, hes⟩
    clear hshown
    induction states generalizing s with
    | nil => exact h
    | cons es states ih =>
      obtain ⟨hes, hrest⟩ := List.forall_mem_cons.mp hnone
      exact ih (updateEntity_untracked h hcell hes) hrest

theorem updateFromWorldSnapshot_leaving {w : World} {states : List EntityState} {t : ℚ}
    {s : Manager} {id : UInt32} (h : Leaving id s)
    (hshown : s.entities.find? id = none → ¬ Shows w states id) :
    Leaving id (updateFromWorldSnapshot w states t s) := by
  have hqueue := (Prod.mk.inj (Prod.mk.inj (updateFromWorldSnapshot_keeps w states t s)).2).2
  by_cases hnone : s.entities.find? id = none
  · exact .inl (updateFromWorldSnapshot_untracked hnone (hshown hnone))
  · exact .inr (hqueue ▸ h.resolve_left hnone)

theorem updateEntity_tracks {cell : UInt32} {t : ℚ} {s : Manager} {es : EntityState} {id : UInt32}
    (h : (s.entities.find? id).isSome ∨ es.netEntityId = id ∧ es.cellId = cell) :
    ((updateEntity cell t s es).entities.find? id).isSome := by
  unfold updateEntity
  split
  · rename_i hnone
    split
    · rename_i hskip
      exact h.resolve_right fun hes => hskip.2 hes.2
    · simp only [pushSample]
      rw [OrderedMap.find?_insert]
      split
      · rfl
      · rename_i hne
        exact h.resolve_right fun hes => hne hes.1.symm
  · rename_i ent hsome
    have htracked : (s.entities.find? id).isSome := by
      refine h.elim (fun h => h) fun hes => ?_
      rw [← hes.1, hsome]
      rfl
    simp only [pushSample]
    rw [OrderedMap.find?_modify]
    split
    · rw [Option.isSome_map]
      exact htracked
    · exact htracked

/-- A snapshot that shows an entity makes it tracked. -/
theorem updateFromWorldSnapshot_tracks {w : World} {states : List EntityState} {t : ℚ}
    {s : Manager} {id : UInt32} (h : Shows w states id) :
    ((updateFromWorldSnapshot w states t s).entities.find? id).isSome := by
  obtain ⟨hcell, es, hmem, hes⟩ := h
  have hkeeps : ∀ (states : List EntityState) (s : Manager), (s.entities.find? id).isSome →
      ((states.foldl (updateEntity (getLocalPlayerCellID w) t) s).entities.find? id).isSome := by
    intro states
    induction states with
    | nil => exact fun s h => h
    | cons e states ih => exact fun s h => ih _ (updateEntity_tracks (.inl h))
  obtain ⟨before, after, rfl⟩ := List.append_of_mem hmem
  rw [updateFromWorldSnapshot, if_neg hcell, List.foldl_append, List.foldl_cons]
  exact hkeeps after _ (updateEntity_tracks (.inr hes))

/-- A tick that passes its guards completes the departure. -/
theorem tick_erases {fuel : Nat} {w : World} {t : ℚ} {s s' : Manager} {id : UInt32}
    (h : Leaving id s) (hready : ready w s = true) (ht : tick fuel w t s = some s') :
    s'.entities.find? id = none := by
  cases hwork : hasPendingWork s with
  | false =>
    obtain rfl := tick_idle (.inr hwork) ht
    refine h.resolve_right ?_
    rw [(idle_queues hwork).2]
    exact List.not_mem_nil
  | true =>
    cases hid : s'.entities.find? id with
    | none => rfl
    | some ent' =>
      obtain ⟨ent, mid, past, hent, hkept, -⟩ := tick_source hready hwork ht hid
      rcases h with hnone | hqueued
      · rw [hnone] at hent
        cases hent
      · exact absurd hqueued hkept

theorem tick_leaving {fuel : Nat} {w : World} {t : ℚ} {s s' : Manager} {id : UInt32}
    (h : Leaving id s) (ht : tick fuel w t s = some s') : Leaving id s' := by
  by_cases hready : ready w s = true
  · exact .inl (tick_erases h hready ht)
  · obtain rfl := tick_idle (.inl (by simpa using hready)) ht
    exact h

end Fnvmp.EntityManager

namespace Fnvmp.Client

open Engine Protocol Net EntityManager

/-- The frame takes a departure of the entity. -/
def Takes (c : Plugin) (f : Frame) (id : UInt32) : Prop :=
  ∃ net sent, poll c.net f.dt f.waiting = some (net, sent) ∧ id ∈ net.disconnectedEntities

/-- The frame passes on a snapshot that shows the entity in the local player's cell,
while it is not tracked. -/
def Revives (c : Plugin) (f : Frame) (id : UInt32) : Prop :=
  c.manager.entities.find? id = none ∧
  ∃ net sent, poll c.net f.dt f.waiting = some (net, sent) ∧ net.hasNewWorldSnapshot = true ∧
    Shows f.world (worldStates net) id

/-- No frame of the run revives the entity. -/
def NeverRevives (id : UInt32) : Plugin → List Frame → Prop
  | _, [] => True
  | c, f :: fs => ¬ Revives c f id ∧ ∀ c' sent, frame c f = some (c', sent) → NeverRevives id c' fs

theorem removals_find? (net : NetClient) (s : Manager) (id : UInt32) :
    (removals net s).entities.find? id = s.entities.find? id :=
  foldl_keeps (fun s => s.entities.find? id) _ (fun s k => removeEntity_find? k s id)
    net.disconnectedEntities s

theorem removals_leaving {net : NetClient} {s : Manager} {id : UInt32}
    (h : Leaving id s ∨ id ∈ net.disconnectedEntities) : Leaving id (removals net s) := by
  have hfold : ∀ (ids : List UInt32) (s : Manager), Leaving id s ∨ id ∈ ids →
      Leaving id (ids.foldl (fun s id => EntityManager.removeEntity id s) s) := by
    intro ids
    induction ids with
    | nil => exact fun s h => h.resolve_right List.not_mem_nil
    | cons k ids ih =>
      intro s h
      refine ih _ ?_
      rcases h with h | h
      · exact .inl (removeEntity_leaving h k)
      · rcases List.mem_cons.mp h with rfl | h
        · exact .inl (removeEntity_self id s)
        · exact .inr h
  exact hfold net.disconnectedEntities s h

theorem fires_keeps (net : NetClient) (w : World) (t : ℚ) (s : Manager) (id : UInt32) :
    (((fires net w t s).entities.find? id).isSome, (fires net w t s).pendingDespawns) =
      ((s.entities.find? id).isSome, s.pendingDespawns) :=
  foldl_keeps (fun s => ((s.entities.find? id).isSome, s.pendingDespawns)) _
    (fun s k => applyFireEvent_keeps w k t s id) net.fireEvents s

theorem fires_untracked (net : NetClient) (w : World) (t : ℚ) (s : Manager) (id : UInt32) :
    (fires net w t (removals net s)).entities.find? id = none ↔ s.entities.find? id = none := by
  have hfires := (Prod.mk.inj (fires_keeps net w t (removals net s) id)).1
  rw [removals_find?] at hfires
  rw [← Option.not_isSome_iff_eq_none, ← Option.not_isSome_iff_eq_none, hfires]

theorem received_untracked {net : NetClient} {w : World} {t : ℚ} {s : Manager} {id : UInt32}
    (h : s.entities.find? id = none)
    (hshown : net.hasNewWorldSnapshot = true → ¬ Shows w (worldStates net) id) :
    (received net w t s).entities.find? id = none := by
  have hfires := (fires_untracked net w t s id).mpr h
  unfold received
  dsimp only
  split
  · rename_i hnew
    exact updateFromWorldSnapshot_untracked hfires (hshown hnew.1)
  · exact hfires

/-- A snapshot that shows an entity makes it tracked when the tick begins. -/
theorem received_tracks {net : NetClient} {w : World} (hnew : net.hasNewWorldSnapshot = true)
    {id : UInt32} (hshown : Shows w (worldStates net) id) (t : ℚ) (s : Manager) :
    ((received net w t s).entities.find? id).isSome := by
  have hsome : net.worldEntities ≠ [] := by
    intro hnil
    obtain ⟨-, es, hmem, -⟩ := hshown
    simp [worldStates, hnil] at hmem
  rw [received, if_pos ⟨hnew, hsome⟩]
  exact updateFromWorldSnapshot_tracks hshown

/-- A frame that revives an entity tracks it again when its tick begins. -/
theorem received_revived {c : Plugin} {f : Frame} {id : UInt32} (h : Revives c f id) :
    ∃ net sent, poll c.net f.dt f.waiting = some (net, sent) ∧
      ((received net f.world (c.gameTime + f.dt) c.manager).entities.find? id).isSome := by
  obtain ⟨-, net, sent, hpoll, hnew, hshown⟩ := h
  exact ⟨net, sent, hpoll, received_tracks hnew hshown _ _⟩

theorem received_leaving {net : NetClient} {w : World} {t : ℚ} {s : Manager} {id : UInt32}
    (h : Leaving id s ∨ id ∈ net.disconnectedEntities)
    (hshown : s.entities.find? id = none → net.hasNewWorldSnapshot = true →
      ¬ Shows w (worldStates net) id) :
    Leaving id (received net w t s) := by
  obtain ⟨-, hqueue⟩ := Prod.mk.inj (fires_keeps net w t (removals net s) id)
  have hremoved := removals_leaving h
  have hfires : Leaving id (fires net w t (removals net s)) := by
    refine hremoved.imp (fun hnone => ?_) (fun hmem => hqueue ▸ hmem)
    rw [removals_find?] at hnone
    exact (fires_untracked net w t s id).mpr hnone
  unfold received
  dsimp only
  split
  · rename_i hnew
    exact updateFromWorldSnapshot_leaving hfires fun hnone =>
      hshown ((fires_untracked net w t s id).mp hnone) hnew.1
  · exact hfires

theorem received_settings (net : NetClient) (w : World) (t : ℚ) (s : Manager) :
    settings (received net w t s) = settings s := by
  have hop : ∀ op s s', step s op = some s' → settings s' = settings s :=
    fun _ _ _ => step_settings
  have hremovals : settings (removals net s) = settings s :=
    foldl_keeps settings _ (fun s k => hop (.removeEntity k) s _ rfl) net.disconnectedEntities s
  have hfires : settings (fires net w t (removals net s)) = settings (removals net s) :=
    foldl_keeps settings _ (fun s k => hop (.applyFireEvent w k t) s _ rfl) net.fireEvents _
  unfold received
  dsimp only
  split
  · exact (hop (.updateFromWorldSnapshot w (worldStates net) t) _ _ rfl).trans
      (hfires.trans hremovals)
  · exact hfires.trans hremovals

/-! ## Frames and runs -/

theorem ready_settings {s s' : Manager} (h : settings s' = settings s) (w : World) :
    ready w s' = ready w s := by
  simp only [settings, Prod.mk.injEq] at h
  simp [ready, h.1, h.2.1]

theorem frame_settings {c c' : Plugin} {f : Frame} {sent : List Sent}
    (h : frame c f = some (c', sent)) : settings c'.manager = settings c.manager := by
  obtain ⟨net, -, htick, -⟩ := frame_cases h
  exact (tick_settings htick).trans (received_settings net f.world _ c.manager)

/-- Whoever is not tracked stays so, unless revived. -/
theorem frame_untracked {c c' : Plugin} {f : Frame} {sent : List Sent} {id : UInt32}
    (h : c.manager.entities.find? id = none) (hno : ¬ Revives c f id)
    (hf : frame c f = some (c', sent)) : c'.manager.entities.find? id = none := by
  obtain ⟨net, hpoll, htick, -⟩ := frame_cases hf
  have hreceived : (received net f.world (c.gameTime + f.dt) c.manager).entities.find? id = none :=
    received_untracked h fun hnew hshown => hno ⟨h, net, sent, hpoll, hnew, hshown⟩
  by_cases hready : ready f.world (received net f.world (c.gameTime + f.dt) c.manager) = true
  · exact tick_erases (.inl hreceived) hready htick
  · rw [tick_idle (.inl (by simpa using hready)) htick]
    exact hreceived

/-- Whoever is leaving, or is reported gone, is leaving; a tick that passes its guards
completes it. -/
theorem frame_leaving {c c' : Plugin} {f : Frame} {sent : List Sent} {id : UInt32}
    (h : Leaving id c.manager ∨ Takes c f id) (hno : ¬ Revives c f id)
    (hf : frame c f = some (c', sent)) : Leaving id c'.manager ∧
      (ready f.world c.manager = true → c'.manager.entities.find? id = none) := by
  obtain ⟨net, hpoll, htick, -⟩ := frame_cases hf
  have htaken : Leaving id c.manager ∨ id ∈ net.disconnectedEntities := by
    refine h.imp_right ?_
    rintro ⟨net', sent', hpoll', hmem⟩
    rw [hpoll] at hpoll'
    cases hpoll'
    exact hmem
  have hreceived : Leaving id (received net f.world (c.gameTime + f.dt) c.manager) :=
    received_leaving htaken fun hnone hnew hshown => hno ⟨hnone, net, sent, hpoll, hnew, hshown⟩
  refine ⟨tick_leaving hreceived htick, fun hready => tick_erases hreceived ?_ htick⟩
  rw [ready_settings (received_settings net f.world _ c.manager)]
  exact hready

/-- The entity is leaving, nothing that is still to come revives it, and it is gone or
some frame to come passes the guards. -/
def Departing (id : UInt32) (c : Plugin) (frames : List Frame) : Prop :=
  Leaving id c.manager ∧ NeverRevives id c frames ∧
    (c.manager.entities.find? id = none ∨ ∃ g ∈ frames, ready g.world c.manager = true)

theorem frame_departing {c c' : Plugin} {f : Frame} {frames : List Frame} {sent : List Sent}
    {id : UInt32} (h : Leaving id c.manager ∨ Takes c f id)
    (hno : NeverRevives id c (f :: frames)) (hdue : c.manager.entities.find? id = none ∨
      ∃ g ∈ f :: frames, ready g.world c.manager = true)
    (hf : frame c f = some (c', sent)) : Departing id c' frames := by
  obtain ⟨hleaving, herased⟩ := frame_leaving h hno.1 hf
  refine ⟨hleaving, hno.2 c' sent hf, ?_⟩
  rcases hdue with hnone | ⟨g, hmem, hready⟩
  · exact .inl (frame_untracked hnone hno.1 hf)
  · rcases List.mem_cons.mp hmem with rfl | hmem
    · exact .inl (herased hready)
    · refine .inr ⟨g, hmem, ?_⟩
      rw [ready_settings (frame_settings hf)]
      exact hready

/-- A departure taken in the first frame of a run is complete at its end. -/
theorem run_gone {f : Frame} {frames : List Frame} {c d : Plugin} {sent : List Sent}
    {id : UInt32} (htaken : Takes c f id) (hno : NeverRevives id c (f :: frames))
    (hguards : ∃ g ∈ f :: frames, ready g.world c.manager = true)
    (hrun : run c (f :: frames) = some (d, sent)) : d.manager.entities.find? id = none := by
  obtain ⟨c', out, rest, hf, hrest, -⟩ := EventRun.exec_cons_eq_some.mp hrun
  obtain ⟨-, -, hnone | ⟨g, hmem, -⟩⟩ :=
    EventRun.exec_rule (fun c frames _ => Departing id c frames) []
      (fun _ _ _ _ _ _ h hf => frame_departing (.inl h.1) h.2.1 h.2.2 hf)
      (frame_departing (.inr htaken) hno (.inr hguards) hf) hrest
  · exact hnone
  · cases hmem

/-- A run of frames is a run of the entity manager. -/
theorem run_ops {frames : List Frame} (hw : ∀ f ∈ frames, f.world.Honest) {c d : Plugin}
    {sent : List Sent} (hrun : run c frames = some (d, sent)) :
    ∃ ops, (∀ op ∈ ops, op.Honest) ∧ EntityManager.run c.manager ops = some d.manager := by
  refine ⟨calls c frames, fun op hop => ?_, run_calls hrun⟩
  have hworlds : ∀ w ∈ op.world, w.Honest := fun w hmem => by
    obtain ⟨f, hf, rfl⟩ := mem_calls hop w hmem
    exact hw f hf
  cases op with
  | removeEntity id => trivial
  | updateFromWorldSnapshot w states t => exact hworlds w rfl
  | applyFireEvent w id t => exact hworlds w rfl
  | tick fuel w t => exact hworlds w rfl
  | shutdown w => exact hworlds w rfl

/-- Once a departure is taken and a tick passes its guards, then as long as no frame
revives the player, it is not tracked after any later frame, and every NPC that was ever
its avatar is disabled and deleted. -/
theorem departed_stay_gone (gameTime : ℚ) (script console compilesSpawn : Bool)
    (compiles : Script → Bool) (before : List Frame) (f : Frame) (after : List Frame)
    (hw : ∀ g ∈ before ++ f :: after, g.world.Honest) (c d : Plugin) (sent sent' : List Sent)
    (id : UInt32)
    (hbefore : run (start gameTime script console compilesSpawn compiles) before = some (c, sent))
    (htaken : Takes c f id) (hafter : run c (f :: after) = some (d, sent'))
    (hguards : ∃ g ∈ f :: after, ready g.world c.manager = true)
    (hno : NeverRevives id c (f :: after)) :
    d.manager.entities.find? id = none ∧
    ∀ early late m log r, before ++ f :: after = early ++ late →
      run (start gameTime script console compilesSpawn compiles) early = some (m, log) →
      avatar m.manager.entities id = some r →
      .disable ∈ linesTo r d.manager.acts ∧ .markForDelete ∈ linesTo r d.manager.acts := by
  have hgone := run_gone htaken hno hguards hafter
  refine ⟨hgone, fun early late m log r hsplit hearly hheld => ?_⟩
  have hall : run (start gameTime script console compilesSpawn compiles) (early ++ late) =
      some (d, sent ++ sent') := by
    rw [← hsplit]
    exact EventRun.exec_append.mpr ⟨c, sent, sent', hbefore, hafter, rfl⟩
  obtain ⟨m', out, rest, hm, hlate, -⟩ := EventRun.exec_append.mp hall
  cases hearly.symm.trans hm
  rw [hsplit] at hw
  obtain ⟨ops, hops, hrun⟩ := run_ops (fun g hg => hw g (List.mem_append_left _ hg)) hearly
  obtain ⟨ops', hops', hrun'⟩ := run_ops (fun g hg => hw g (List.mem_append_right _ hg)) hlate
  obtain ⟨howns, -⟩ := run_owns (owns_init script console compilesSpawn compiles) hops hrun
  obtain ⟨howns', hsteps⟩ := run_owns howns hops' hrun'
  have hdeleted : 0 < (linesTo r d.manager.acts).count .markForDelete := by
    refine (hsteps.kept hheld).resolve_left fun hstill => ?_
    simp [custody, ledger, avatar, hgone] at hstill
  have hdisabled := hdeleted
  rw [← howns'.tidy.paired r] at hdisabled
  exact ⟨List.count_pos_iff.mp hdisabled, List.count_pos_iff.mp hdeleted⟩

open Delivery PackedCodec
open Server (State Event Action Peer encodeWorld)

/-- Player 1 is broadcast once and leaves. -/
def departure : List Event :=
  [.connect 1 0, .connect 2 0, .receive 1 (msgPlayerSnapshot.encode (.still 0 1 1)) 0,
    .broadcast snapshotSendInterval, .disconnect 1]

def connectAck : List UInt8 := msgEntity.encode ⟨MessageType.connectAck.code, 2⟩
def departed : List UInt8 := msgEntity.encode ⟨MessageType.playerDisconnect.code, 1⟩
def shown : List UInt8 := encodeWorld [standing 1 1]

/-- A frame of a hundredth of a second. -/
def quietFrame (waiting : List HostEvent) : Frame := ⟨1 / 100, waiting, quietWorld, 0⟩

/-- Player 2 hears of the departure before the broadcast reaches it. -/
def overtaken : List (Channel × List UInt8) :=
  [(.system, connectAck), (.gameEvents, departed), (.unreliable, shown)]

def greeted : Frame := quietFrame [.connect, .receive connectAck]
def parting : Frame := quietFrame [.receive departed]
def belated : Frame := quietFrame [.receive shown]

def freshClient : Plugin := start 0 true true true fun _ => true

theorem overtaken_delivered {s : State} {acts : List Action}
    (h : Server.run (Server.start 0) departure = some (s, acts)) :
    Delivers (packetsTo 2 acts) overtaken := by
  have hsent : packetsTo 2 acts =
      [(.system, connectAck), (.unreliable, shown), (.gameEvents, departed)] := by
    have hall : (Server.run (Server.start 0) departure).all (fun r => packetsTo 2 r.2 =
        [(.system, connectAck), (.unreliable, shown), (.gameEvents, departed)]) := by
      decide +kernel
    simpa [h] using hall
  rw [hsent]
  refine ⟨fun channel hne => ?_, ?_⟩
  · cases channel with
    | unreliable => exact absurd rfl hne
    | gameEvents => simp [on, overtaken]
    | system => simp [on, overtaken]
  · simp [on, overtaken]

theorem ghost_avatar_returns :
    ¬ ∀ (es : List Event) (s : State) (acts : List Action) (p : Peer)
      (got : List (Channel × List UInt8)) (before : List Frame) (f : Frame) (after : List Frame)
      (c d : Plugin) (sent sent' : List Sent) (id : UInt32),
      Server.run (Server.start 0) es = some (s, acts) → Delivers (packetsTo p acts) got →
      packetsAt (before ++ f :: after) = got.map Prod.snd →
      (∀ g ∈ before ++ f :: after, g.world.Honest) → run freshClient before = some (c, sent) →
      Takes c f id → run c (f :: after) = some (d, sent') → ready f.world c.manager = true →
      d.manager.entities.find? id = none := by
  intro h
  obtain ⟨⟨s, acts⟩, hserver⟩ := Option.isSome_iff_exists.mp
    (show (Server.run (Server.start 0) departure).isSome from by decide +kernel)
  obtain ⟨⟨c, sent⟩, hbefore⟩ := Option.isSome_iff_exists.mp
    (show (run freshClient [greeted]).isSome from by decide +kernel)
  have hend : (run freshClient [greeted]).all (fun r =>
      ready parting.world r.1.manager &&
      (poll r.1.net parting.dt parting.waiting).any (fun q => 1 ∈ q.1.disconnectedEntities) &&
      (run r.1 [parting, belated]).any fun r' => (r'.1.manager.entities.find? 1).isSome) := by
    decide +kernel
  simp only [hbefore, Option.all_some, Bool.and_eq_true, Option.any_eq_true,
    decide_eq_true_eq, Prod.exists] at hend
  obtain ⟨⟨hready, net, out, hpoll, htaken⟩, d, sent', hafter, htracked⟩ := hend
  have hgone := h departure s acts 2 overtaken [greeted] parting [belated] c d sent sent' 1
    hserver (overtaken_delivered hserver) rfl ?_ hbefore ⟨net, out, hpoll, htaken⟩ hafter hready
  · simp [hgone] at htracked
  · intro g hg
    simp only [List.cons_append, List.nil_append, List.mem_cons, List.not_mem_nil, or_false] at hg
    rcases hg with rfl | rfl | rfl <;> exact quietWorld_honest

/-- A frame that no snapshot came in revives nobody. -/
theorem not_revives {c : Plugin} {f : Frame} {id : UInt32}
    (h : (poll c.net f.dt f.waiting).all fun r => !r.1.hasNewWorldSnapshot) : ¬ Revives c f id := by
  rintro ⟨-, net, sent, hpoll, hnew, -⟩
  simp [hpoll, hnew] at h

/-- Player 1 is seen first, then leaves, and nothing comes late. -/
theorem departed_stay_gone_seen :
    ∃ c d sent sent', run freshClient [greeted, belated] = some (c, sent) ∧
      run c [parting, quietFrame []] = some (d, sent') ∧ d.manager.entities.find? 1 = none ∧
      .disable ∈ linesTo 100 d.manager.acts ∧ .markForDelete ∈ linesTo 100 d.manager.acts := by
  obtain ⟨⟨c, sent⟩, hbefore⟩ := Option.isSome_iff_exists.mp
    (show (run freshClient [greeted, belated]).isSome from by decide +kernel)
  have hend : (run freshClient [greeted, belated]).all (fun r =>
      ready parting.world r.1.manager && decide (avatar r.1.manager.entities 1 = some 100) &&
      (poll r.1.net parting.dt parting.waiting).any (fun q => 1 ∈ q.1.disconnectedEntities) &&
      (run r.1 [parting, quietFrame []]).isSome && (frame r.1 parting).all fun r' =>
        (poll r'.1.net (1 / 100) []).all fun q => !q.1.hasNewWorldSnapshot) := by
    decide +kernel
  simp only [hbefore, Option.all_some, Bool.and_eq_true, Option.any_eq_true,
    decide_eq_true_eq, Prod.exists] at hend
  obtain ⟨⟨⟨⟨hready, hheld⟩, net, out, hpoll, htaken⟩, hsome⟩, hquiet⟩ := hend
  obtain ⟨⟨d, sent'⟩, hafter⟩ := Option.isSome_iff_exists.mp hsome
  have hno : NeverRevives 1 c [parting, quietFrame []] := by
    refine ⟨?_, fun c' log hf => ⟨not_revives ?_, fun _ _ _ => trivial⟩⟩
    · rintro ⟨hnone, -⟩
      simp [avatar, hnone] at hheld
    · rw [hf] at hquiet
      exact hquiet
  have hw : ∀ g ∈ [greeted, belated, parting, quietFrame []], g.world.Honest := by
    intro g hg
    simp only [List.mem_cons, List.not_mem_nil, or_false] at hg
    rcases hg with rfl | rfl | rfl | rfl <;> exact quietWorld_honest
  obtain ⟨hgone, hdeleted⟩ := departed_stay_gone 0 true true true (fun _ => true)
    [greeted, belated] parting [quietFrame []] hw c d sent sent' 1 hbefore
    ⟨net, out, hpoll, htaken⟩ hafter ⟨parting, List.mem_cons_self, hready⟩ hno
  exact ⟨c, d, sent, sent', hbefore, hafter, hgone,
    hdeleted [greeted, belated] [parting, quietFrame []] c sent 100 rfl hbefore hheld⟩

end Fnvmp.Client
