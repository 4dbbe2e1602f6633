import Fnvmp.Coverage

/-!
# Avatars that the engine loses

Between two ticks the engine may invalidate a reference. The entity keeps the reference
it was spawned with, so a lost avatar stays lost as long as the entity is tracked.
-/

namespace Fnvmp.Engine

/-- The engine lost the reference: it was placed and not deleted, and does not resolve. -/
def World.Lost (w : World) (refID : UInt32) : Prop :=
  ∃ past, refID ∈ placedRefs past ∧ .markForDelete ∉ linesTo refID past ∧
    w.resolve past refID = false

/-- An engine that gives out fresh references, and resolves all that were placed, except
for the deleted ones and those it lost. -/
structure World.Loses (w : World) : Prop where
  fresh : ∀ past refID, w.placeAtMe past = .ref refID → refID ≠ 0 ∧ refID ∉ placedRefs past
  finds : ∀ past refID, w.resolve past refID = true ↔
    refID ∈ placedRefs past ∧ .markForDelete ∉ linesTo refID past ∧ ¬ w.Lost refID

end Fnvmp.Engine

namespace Fnvmp.EntityManager

open ExactFloat Engine Protocol

/-! ## References held -/

/-- Every reference that an entity holds was placed, is held by no other and was not
deleted. -/
structure Kept (queue : List UInt32) (entities : Entities) (acts : List Act) : Prop where
  marks : Marked queue entities
  guarded : Custody.Guarded (ledger entities acts)

/-- A despawn releases the reference, or loses one that does not resolve any more. -/
theorem Kept.delete {queue : List UInt32} {entities : Entities} {acts : List Act}
    (h : Kept queue entities acts) (w : World) {id : UInt32} {ent : RemoteEntity}
    (hid : entities.find? id = some ent) :
    Kept queue (entities.erase id) (deleteRef w acts ent) := by
  refine ⟨h.marks.erase id, ?_⟩
  by_cases hresolve : resolveRefr w acts ent.refID = true
  · have href : ent.refID ≠ 0 := by
      intro hzero
      simp [resolveRefr, hzero] at hresolve
    rw [ledger_delete hresolve]
    exact Custody.guarded_release h.guarded (by simp [ledger, avatar, hid, href])
  · rw [deleteRef, if_neg hresolve, ledger, avatar_erase]
    exact Custody.guarded_lose h.guarded id

theorem kept_upkeep : Upkeep World.Fresh Kept where
  quiet h hmore := ⟨h.marks, by rw [hmore.ledger]; exact h.guarded⟩
  same entities' h hsame := ⟨h.marks.same entities' hsame, by rw [ledger_same hsame]; exact h.guarded⟩
  track id _ h hnew href hsp :=
    ⟨h.marks.track id href hsp, by rw [ledger_track hnew href]; exact h.guarded⟩
  dequeue h hid := ⟨h.marks.dequeue hid, h.guarded⟩
  forget h hid hsp :=
    ⟨h.marks.erase _, by rw [ledger_erase (h.marks.vacant hid hsp)]; exact h.guarded⟩
  delete _ h hid := h.delete _ hid
  place hw h hid hsp hplaced := by
    obtain ⟨href, hfresh⟩ := hw _ _ hplaced
    refine ⟨h.marks.place href, ?_⟩
    rw [ledger_place hid href]
    exact Custody.guarded_acquire h.guarded hfresh

/-- The trace only grows. -/
theorem grows_upkeep (past : List Act) :
    Upkeep (fun _ => True) fun _ _ acts => past <+: acts where
  quiet h _ := h.trans (List.prefix_append _ _)
  same _ h _ := h
  track _ _ h _ _ _ := h
  dequeue h _ := h
  forget h _ _ := h
  delete _ h _ := h.trans (deleteRef_extends _ _ _)
  place _ h _ _ _ := by
    refine h.trans ?_
    simp [configure, runLine]

/-- A reference that is held resolves unless the engine lost it. -/
theorem Kept.resolves {queue : List UInt32} {entities : Entities} {acts : List Act}
    (h : Kept queue entities acts) {w : World} (hw : w.Loses) {id r : UInt32}
    (hr : avatar entities id = some r) : resolveRefr w acts r = true ↔ ¬ w.Lost r := by
  obtain ⟨hplaced, hcount⟩ := h.guarded.held id r hr
  have hne : r ≠ 0 := by
    obtain ⟨ent, -, hent⟩ := Option.bind_eq_some_iff.mp hr
    split at hent
    · cases hent
    · rename_i href
      exact Option.some.inj hent ▸ href
  have hlive : .markForDelete ∉ linesTo r acts := List.count_eq_zero.mp hcount
  simp only [resolveRefr, hne, ne_eq, not_false_eq_true, decide_true, Bool.true_and, hw.finds]
  exact ⟨fun h => h.2.2, fun h => ⟨hplaced, hlive, h⟩⟩

/-! ## Spawning -/

/-- When all the references asked for were placed, no spawn failed. -/
theorem spawnsSucceed_of_places {w : World} (ids : List UInt32) {s : Manager}
    (hexpr : s.spawnExpr = true) (hplaced : ∀ placed,
      .place placed ∈ (ids.foldl (spawnEntity w) s).acts → ∃ refID, placed = .ref refID) :
    SpawnsSucceed w ids s := by
  induction ids generalizing s with
  | nil => trivial
  | cons k ids ih =>
    have hrest := foldl_extends (spawnEntity w) (spawnEntity_extends w) ids (spawnEntity w s k)
    refine ⟨fun ent hent hsp => ⟨hexpr, hplaced _ (hrest.subset ?_)⟩, ih ?_ hplaced⟩
    · simp only [spawnEntity, hent, hsp, hexpr, Bool.false_eq_true, if_false, Bool.true_eq_false]
      split
      · simp_all
      · simp_all
      · rename_i refID href
        simp [configure, runLine]
    · have hsettings := (Prod.mk.inj (spawnEntity_keeps w s k)).1
      simp only [settings, Prod.mk.injEq] at hsettings
      rw [hsettings.2.2.1]
      exact hexpr

theorem despawned_spawnExpr (w : World) (s : Manager) :
    (despawnPhase w { s with acts := s.acts ++ [.suppressConsole] }).spawnExpr = s.spawnExpr := by
  have hsettings := (Prod.mk.inj (despawnPhase_keeps w
    { s with acts := s.acts ++ [.suppressConsole] })).1
  simp only [settings, Prod.mk.injEq] at hsettings
  exact hsettings.2.2.1

/-- After a tick through its guards a tracked entity has a reference, if no placement failed. -/
theorem tick_spawns {fuel : Nat} {w : World} {t : ℚ} {s s' : Manager} {k : UInt32}
    (h : Kept s'.pendingSpawns s'.entities s'.acts) (hready : ready w s = true)
    (hexpr : s.spawnExpr = true) (htracked : k ∈ s.entities.keys) (hkept : k ∉ s.pendingDespawns)
    (hplaced : ∀ placed, .place placed ∈ s'.acts → ∃ refID, placed = .ref refID)
    (ht : tick fuel w t s = some s') : ∃ r, avatar s'.entities k = some r := by
  have hstays : k ∈ s'.entities.keys := by
    cases hwork : hasPendingWork s with
    | false =>
      rw [tick_idle (.inr hwork) ht]
      exact htracked
    | true =>
      have hstart : (s.pendingSpawns.foldl (spawnEntity w)
          (despawnPhase w { s with acts := s.acts ++ [.suppressConsole] })).acts <+: s'.acts := by
        have hextends := tick_extends hready hwork ht
        rw [respawned, spawnPhase, despawned_pendingSpawns] at hextends
        exact hextends
      have hsucceed := spawnsSucceed_of_places s.pendingSpawns
        (s := despawnPhase w { s with acts := s.acts ++ [.suppressConsole] })
        (by rw [despawned_spawnExpr]; exact hexpr)
        fun placed hmem => hplaced placed (hstart.subset hmem)
      rw [tick_keys hready hwork ht, respawned, spawnPhase, despawned_pendingSpawns]
      exact (spawnsSucceed_iff w _ _).mp hsucceed k (despawned_tracked.mpr ⟨htracked, hkept⟩)
  rw [OrderedMap.mem_keys] at hstays
  obtain ⟨ent, hent⟩ := Option.isSome_iff_exists.mp hstays
  have hsp : ent.spawned = true := by
    by_contra hnot
    have hqueued := h.marks.queued k ent hent (by simpa using hnot)
    rw [(tick_queues hready ht).1] at hqueued
    cases hqueued
  exact ⟨ent.refID, by simp [avatar, hent, (h.marks.marked k ent hent).mp hsp]⟩

end Fnvmp.EntityManager

namespace Fnvmp.Client

open Engine Protocol Net EntityManager

/-! ## Frames -/

section
variable {W : World → Prop} {P : List UInt32 → Entities → List Act → Prop}

theorem received_upkeep (hP : Upkeep W P) (net : NetClient) (w : World) (t : ℚ) {s : Manager}
    (h : P s.pendingSpawns s.entities s.acts) : P (received net w t s).pendingSpawns
      (received net w t s).entities (received net w t s).acts := by
  have hremovals : P (removals net s).pendingSpawns (removals net s).entities
      (removals net s).acts := by
    have hkeeps := foldl_keeps (fun s => (s.pendingSpawns, s.entities, s.acts))
      (fun s id => EntityManager.removeEntity id s) (fun s id => by
        unfold EntityManager.removeEntity
        split <;> rfl) net.disconnectedEntities s
    simp only [Prod.mk.injEq] at hkeeps
    rw [removals, hkeeps.1, hkeeps.2.1, hkeeps.2.2]
    exact h
  have hfires : ∀ (ids : List UInt32) (s : Manager), P s.pendingSpawns s.entities s.acts →
      P (ids.foldl (fun s id => applyFireEvent w id t s) s).pendingSpawns
        (ids.foldl (fun s id => applyFireEvent w id t s) s).entities
        (ids.foldl (fun s id => applyFireEvent w id t s) s).acts := by
    intro ids
    induction ids with
    | nil => exact fun s h => h
    | cons id ids ih => exact fun s h => ih _ (applyFireEvent_upkeep hP w id t s h)
  unfold received
  dsimp only
  split
  · exact updateFromWorldSnapshot_upkeep hP w _ t _ (hfires net.fireEvents _ hremovals)
  · exact hfires net.fireEvents _ hremovals

theorem frame_upkeep (hP : Upkeep W P) {c c' : Plugin} {f : Frame} {sent : List Sent}
    (hw : W f.world) (h : P c.manager.pendingSpawns c.manager.entities c.manager.acts)
    (hf : frame c f = some (c', sent)) :
    P c'.manager.pendingSpawns c'.manager.entities c'.manager.acts := by
  obtain ⟨net, -, htick, -⟩ := frame_cases hf
  exact tick_upkeep hP hw (received_upkeep hP net f.world _ h) htick

end

/-- What comes in between two ticks changes no reference. -/
theorem received_avatar (net : NetClient) (w : World) (t : ℚ) (s : Manager) :
    avatar (received net w t s).entities = avatar s.entities := by
  have hremovals : avatar (removals net s).entities = avatar s.entities :=
    foldl_keeps (fun s : Manager => avatar s.entities) _ (fun s id => by
      unfold EntityManager.removeEntity
      split <;> rfl) net.disconnectedEntities s
  have hfires : avatar (fires net w t (removals net s)).entities = avatar (removals net s).entities :=
    foldl_keeps (fun s : Manager => avatar s.entities) _ (fun s id =>
      avatar_same (applyFireEvent_quiet w id t s).2.1) net.fireEvents _
  have hupdate : ∀ cell (s : Manager) (es : EntityState),
      avatar (updateEntity cell t s es).entities = avatar s.entities := by
    intro cell s es
    unfold updateEntity
    split
    · rename_i hnew
      split
      · rfl
      · exact congrArg Custody.Ledger.holder (@ledger_track _ [] _ _ hnew rfl)
    · exact avatar_same (sameRef_modify s.entities es.netEntityId fun _ => ⟨rfl, rfl⟩)
  unfold received
  dsimp only
  split
  · rw [← hremovals, ← hfires]
    unfold updateFromWorldSnapshot
    dsimp only
    split
    · rfl
    · exact foldl_keeps (fun s : Manager => avatar s.entities) _ (hupdate _) (worldStates net) _
  · rw [hfires, hremovals]

/-- Nobody queues an entity for despawn but a removal. -/
theorem received_unqueued {net : NetClient} {k : UInt32} (hno : k ∉ net.disconnectedEntities)
    (w : World) (t : ℚ) {s : Manager} (h : k ∉ s.pendingDespawns) :
    k ∉ (received net w t s).pendingDespawns := by
  have hremovals : ∀ (ids : List UInt32) (s : Manager), k ∉ ids → k ∉ s.pendingDespawns →
      k ∉ (ids.foldl (fun s id => EntityManager.removeEntity id s) s).pendingDespawns := by
    intro ids
    induction ids with
    | nil => exact fun s _ h => h
    | cons id ids ih =>
      intro s hids h
      obtain ⟨hne, hrest⟩ := not_or.mp (mt List.mem_cons.mpr hids)
      refine ih _ hrest ?_
      change k ∉ (EntityManager.removeEntity id s).pendingDespawns
      unfold EntityManager.removeEntity
      split
      · exact h
      · simp only [List.mem_append, List.mem_singleton, not_or]
        exact ⟨h, hne⟩
  have hfires := (Prod.mk.inj (fires_keeps net w t (removals net s) k)).2
  have hmid : k ∉ (fires net w t (removals net s)).pendingDespawns := by
    rw [hfires]
    exact hremovals net.disconnectedEntities s hno h
  unfold received
  dsimp only
  split
  · rw [(Prod.mk.inj (Prod.mk.inj (updateFromWorldSnapshot_keeps w _ t _)).2).2]
    exact hmid
  · exact hmid

theorem taken_unqueued {c c' : Plugin} {f : Frame} {sent : List Sent} {k : UInt32}
    (h : k ∉ c.manager.pendingDespawns) (hno : ¬ Takes c f k)
    (hf : frame c f = some (c', sent)) : ∃ net, poll c.net f.dt f.waiting = some (net, sent) ∧
      tick f.fuel f.world (c.gameTime + f.dt)
        (received net f.world (c.gameTime + f.dt) c.manager) = some c'.manager ∧
      k ∉ (received net f.world (c.gameTime + f.dt) c.manager).pendingDespawns := by
  obtain ⟨net, hpoll, htick, -⟩ := frame_cases hf
  exact ⟨net, hpoll, htick, received_unqueued (fun hmem => hno ⟨net, sent, hpoll, hmem⟩) _ _ h⟩

theorem frame_unqueued {c c' : Plugin} {f : Frame} {sent : List Sent} {k : UInt32}
    (h : k ∉ c.manager.pendingDespawns) (hno : ¬ Takes c f k)
    (hf : frame c f = some (c', sent)) : k ∉ c'.manager.pendingDespawns := by
  obtain ⟨net, -, htick, hqueue⟩ := taken_unqueued h hno hf
  by_cases hready : ready f.world (received net f.world (c.gameTime + f.dt) c.manager) = true
  · rw [(tick_queues hready htick).2]
    exact List.not_mem_nil
  · rw [tick_idle (.inl (by simpa using hready)) htick]
    exact hqueue

/-- An entity that is not removed keeps its reference. -/
theorem frame_avatar {c c' : Plugin} {f : Frame} {sent : List Sent} {k r : UInt32}
    (h : Kept c.manager.pendingSpawns c.manager.entities c.manager.acts)
    (hqueue : k ∉ c.manager.pendingDespawns) (hno : ¬ Takes c f k)
    (hr : avatar c.manager.entities k = some r) (hf : frame c f = some (c', sent)) :
    avatar c'.manager.entities k = some r := by
  obtain ⟨net, -, htick, hunqueued⟩ := taken_unqueued hqueue hno hf
  have hkept := received_upkeep kept_upkeep net f.world (c.gameTime + f.dt) h
  rw [← received_avatar net f.world (c.gameTime + f.dt)] at hr
  generalize received net f.world (c.gameTime + f.dt) c.manager = s at *
  by_cases hready : ready f.world s = true
  · obtain ⟨ent, hent, href⟩ := Option.bind_eq_some_iff.mp hr
    split at href
    · cases href
    · rename_i hne
      have hsp := (hkept.marks.marked k ent hent).mpr hne
      obtain ⟨past, -, hend⟩ := tick_visits hready htick hent hunqueued hsp
      obtain ⟨-, hsame, -⟩ := animateEntity_harmless s.anim f.world (getLocalPlayerCellID f.world)
        (c.gameTime + f.dt) past k ent
      rw [avatar, hend, Option.bind_some, hsame, if_neg hne]
      exact href
  · rw [tick_idle (.inl (by simpa using hready)) htick]
    exact hr

/-- The frame passes its guards, with a new snapshot that lists the entity in the local
player's cell. -/
def Lists (c : Plugin) (f : Frame) (id : UInt32) : Prop :=
  ready f.world c.manager = true ∧ ∃ net sent, poll c.net f.dt f.waiting = some (net, sent) ∧
    net.hasNewWorldSnapshot = true ∧ Shows f.world (worldStates net) id

/-- A frame that lists an entity gives it a reference, if no placement fails. -/
theorem frame_spawns {c c' : Plugin} {f : Frame} {sent : List Sent} {k : UInt32}
    (h : Kept c'.manager.pendingSpawns c'.manager.entities c'.manager.acts)
    (hqueue : k ∉ c.manager.pendingDespawns) (hno : ¬ Takes c f k) (hlists : Lists c f k)
    (hexpr : c.manager.spawnExpr = true) (hplaced : ∀ placed, .place placed ∈ c'.manager.acts →
      ∃ refID, placed = .ref refID) (hf : frame c f = some (c', sent)) :
    ∃ r, avatar c'.manager.entities k = some r := by
  obtain ⟨net, hpoll, htick, hunqueued⟩ := taken_unqueued hqueue hno hf
  obtain ⟨hready, net', sent', hpoll', hnew, hshown⟩ := hlists
  rw [hpoll] at hpoll'
  cases hpoll'
  have hsettings := received_settings net f.world (c.gameTime + f.dt) c.manager
  refine tick_spawns h ?_ ?_ ?_ hunqueued hplaced htick
  · rw [ready_settings hsettings]
    exact hready
  · simp only [settings, Prod.mk.injEq] at hsettings
    rw [hsettings.2.2.1]
    exact hexpr
  · rw [OrderedMap.mem_keys]
    exact received_tracks hnew hshown _ _

/-! ## Runs -/

/-- A property of the state and the frame, at every frame of a run. -/
def Along (P : Plugin → Frame → Prop) : Plugin → List Frame → Prop
  | _, [] => True
  | c, f :: fs => P c f ∧ ∀ c' sent, frame c f = some (c', sent) → Along P c' fs

theorem along_append {P : Plugin → Frame → Prop} {c d : Plugin} {fs gs : List Frame}
    {sent : List Sent} (h : Along P c (fs ++ gs)) (hrun : run c fs = some (d, sent)) :
    Along P c fs ∧ Along P d gs := by
  induction fs generalizing c sent with
  | nil =>
    cases hrun
    exact ⟨trivial, h⟩
  | cons f fs ih =>
    obtain ⟨mid, out, rest, hf, hrest, -⟩ := EventRun.exec_cons_eq_some.mp hrun
    have hnext := ih (h.2 mid out hf) hrest
    refine ⟨⟨h.1, fun c' sent' hf' => ?_⟩, hnext.2⟩
    rw [hf] at hf'
    cases hf'
    exact hnext.1

/-- What holds as long as an entity is not removed: the references are kept, and it is not
queued for despawn. -/
structure Unremoved (k : UInt32) (c : Plugin) : Prop where
  kept : Kept c.manager.pendingSpawns c.manager.entities c.manager.acts
  unqueued : k ∉ c.manager.pendingDespawns

theorem frame_unremoved {c c' : Plugin} {f : Frame} {sent : List Sent} {k : UInt32}
    (hw : f.world.Loses) (h : Unremoved k c) (hno : ¬ Takes c f k)
    (hf : frame c f = some (c', sent)) : Unremoved k c' :=
  ⟨frame_upkeep kept_upkeep hw.fresh h.kept hf, frame_unqueued h.unqueued hno hf⟩

theorem run_unremoved {c d : Plugin} {frames : List Frame} {sent : List Sent} {k : UInt32}
    (hw : ∀ f ∈ frames, f.world.Loses) (h : Unremoved k c)
    (hno : Along (fun c f => ¬ Takes c f k) c frames) (hrun : run c frames = some (d, sent)) :
    Unremoved k d ∧ (∀ r, avatar c.manager.entities k = some r →
      avatar d.manager.entities k = some r) ∧ settings d.manager = settings c.manager ∧
      c.manager.acts <+: d.manager.acts := by
  induction frames generalizing c sent with
  | nil =>
    cases hrun
    exact ⟨h, fun _ hr => hr, rfl, List.prefix_rfl⟩
  | cons f frames ih =>
    obtain ⟨mid, out, rest, hf, hrest, -⟩ := EventRun.exec_cons_eq_some.mp hrun
    obtain ⟨hfirst, hw'⟩ := List.forall_mem_cons.mp hw
    have hmid := frame_unremoved hfirst h hno.1 hf
    obtain ⟨hend, havatar, hsettings, hacts⟩ := ih hw' hmid (hno.2 mid out hf) hrest
    refine ⟨hend, fun r hr => havatar r ?_, hsettings.trans (frame_settings hf), ?_⟩
    · exact frame_avatar h.kept h.unqueued hno.1 hr hf
    · exact (frame_upkeep (grows_upkeep c.manager.acts) trivial List.prefix_rfl hf).trans hacts

theorem start_unremoved (gameTime : ℚ) (script console compilesSpawn : Bool)
    (compiles : Script → Bool) (k : UInt32) :
    Unremoved k (start gameTime script console compilesSpawn compiles) := by
  have hentities : (start gameTime script console compilesSpawn compiles).manager.entities = ∅ := by
    unfold start init
    dsimp only
    split <;> rfl
  have hacts : (start gameTime script console compilesSpawn compiles).manager.acts = [] := by
    unfold start init
    dsimp only
    split <;> rfl
  refine ⟨⟨⟨by simp [hentities], by simp [hentities]⟩, ?_⟩, ?_⟩
  · rw [hentities, hacts]
    exact Custody.sound_vacant.guarded
  · unfold start init
    dsimp only
    split <;> exact List.not_mem_nil

/-- From the first frame that lists an entity on, it is tracked with one and the same
reference as long as it is not removed. That reference resolves unless the engine lost it,
and one that is lost is not replaced. -/
theorem lost_reference_kept (gameTime : ℚ) (script console : Bool) (compiles : Script → Bool)
    (before : List Frame) (f : Frame) (between : List Frame) (g : Frame)
    (hw : ∀ h ∈ before ++ f :: (between ++ [g]), h.world.Loses) (c d e : Plugin)
    (log log' log'' : List Sent)
    (hbefore : run (start gameTime script console true compiles) before = some (c, log))
    (hf : frame c f = some (d, log')) (hafter : run d (between ++ [g]) = some (e, log''))
    (hplaced : ∀ placed, .place placed ∈ e.manager.acts → ∃ refID, placed = .ref refID)
    (k : UInt32) (hkept : Along (fun c f => ¬ Takes c f k)
      (start gameTime script console true compiles) (before ++ f :: (between ++ [g])))
    (hlists : Lists c f k) :
    ∃ r, avatar d.manager.entities k = some r ∧ r ∈ placedRefs d.manager.acts ∧
      (resolveRefr f.world d.manager.acts r = true ↔ ¬ f.world.Lost r) ∧
      avatar e.manager.entities k = some r ∧
      (resolveRefr g.world e.manager.acts r = true ↔ ¬ g.world.Lost r) := by
  have hall := List.forall_mem_append.mp hw
  obtain ⟨hwf, hwafter⟩ := List.forall_mem_cons.mp hall.2
  obtain ⟨halong, hlate⟩ := along_append hkept hbefore
  obtain ⟨hc, -, hsettings, -⟩ :=
    run_unremoved hall.1 (start_unremoved gameTime script console true compiles k) halong hbefore
  have hd := frame_unremoved hwf hc hlate.1 hf
  obtain ⟨he, havatar, -, hacts⟩ := run_unremoved hwafter hd (hlate.2 d log' hf) hafter
  have hexpr : c.manager.spawnExpr = true := by
    have hready := hlists.1
    simp only [settings, Prod.mk.injEq] at hsettings
    simp only [ready, hsettings.1, Bool.and_eq_true] at hready
    rw [hsettings.2.2.1]
    have hscript := hready.1.1
    revert hscript
    unfold start init
    dsimp only
    split
    · intro hscript
      simp_all
    · exact fun _ => rfl
  obtain ⟨r, hr⟩ := frame_spawns hd.kept hc.unqueued hlate.1 hlists hexpr
    (fun placed hmem => hplaced placed (hacts.subset hmem)) hf
  have hend := havatar r hr
  exact ⟨r, hr, (hd.kept.guarded.held k r hr).1, hd.kept.resolves hwf hr, hend,
    he.kept.resolves (hwafter g (by simp)) hend⟩

/-! ## A lost avatar -/

/-- The quiet world, with some references lost. -/
def losing (lost : List UInt32) : World :=
  { quietWorld with
    resolve := fun past r => decide (r ∈ placedRefs past) &&
      decide (.markForDelete ∉ linesTo r past) && decide (r ∉ lost) }

theorem losing_lost (lost : List UInt32) (r : UInt32) : (losing lost).Lost r ↔ r ∈ lost := by
  constructor
  · rintro ⟨past, hplaced, hlive, hnot⟩
    simpa [losing, hplaced, hlive] using hnot
  · exact fun hlost => ⟨[.place (.ref r)], by simp [placedRefs, Act.placed],
      by simp [linesTo, Act.linesTo], by simp [losing, hlost]⟩

theorem losing_loses (lost : List UInt32) : (losing lost).Loses where
  fresh := quietWorld_honest.fresh
  finds past refID := by
    rw [losing_lost]
    simp [losing, and_assoc]

/-- A frame in which player 1 is shown. -/
def sighting (lost : List UInt32) : Frame := ⟨1 / 100, [.receive shown], losing lost, 0⟩

/-- The client connects and spawns the avatar of player 1. -/
def spawning : List Frame := [⟨1 / 100, [.connect, .receive connectAck], losing [], 0⟩, sighting []]

instance (c : Plugin) (f : Frame) (id : UInt32) : Decidable (Takes c f id) :=
  decidable_of_iff ((poll c.net f.dt f.waiting).any fun r =>
    decide (id ∈ r.1.disconnectedEntities)) (by simp [Takes, Option.any_eq_true])

instance (w : World) (states : List EntityState) (id : UInt32) : Decidable (Shows w states id) :=
  inferInstanceAs (Decidable (_ ∧ _))

instance (c : Plugin) (f : Frame) (id : UInt32) : Decidable (Lists c f id) :=
  decidable_of_iff (ready f.world c.manager = true ∧ (poll c.net f.dt f.waiting).any fun r =>
    r.1.hasNewWorldSnapshot && decide (Shows f.world (worldStates r.1) id))
    (by simp [Lists, Option.any_eq_true])

instance decidableAlong (P : Plugin → Frame → Prop) [∀ c f, Decidable (P c f)] :
    ∀ c fs, Decidable (Along P c fs)
  | _, [] => isTrue trivial
  | c, f :: fs =>
    match hf : frame c f with
    | none => decidable_of_iff (P c f) (by simp [Along, hf])
    | some (c', _) =>
      have := decidableAlong P c' fs
      decidable_of_iff (P c f ∧ Along P c' fs) (by simp [Along, hf])

/-- No placement has failed so far. -/
def allPlaced (acts : List Act) : Bool :=
  acts.all fun a => decide (a ≠ .place .failed ∧ a ≠ .place .notARef)

theorem allPlaced_places {acts : List Act} (h : allPlaced acts = true) (placed : Placed)
    (hmem : .place placed ∈ acts) : ∃ refID, placed = .ref refID := by
  have hone := List.all_eq_true.mp h _ hmem
  cases placed with
  | failed => simp at hone
  | notARef => simp at hone
  | ref refID => exact ⟨refID, rfl⟩

theorem lost_avatar_not_recovered :
    ¬ ∀ (before : List Frame) (f g : Frame) (c d e : Plugin) (log log' log'' : List Sent)
      (k : UInt32), (∀ h ∈ before ++ [f, g], h.world.Loses) →
      (∀ r, g.world.Lost r → f.world.Lost r) → run freshClient before = some (c, log) →
      frame c f = some (d, log') → frame d g = some (e, log'') →
      (∀ placed, .place placed ∈ e.manager.acts → ∃ refID, placed = .ref refID) →
      Along (fun c f => ¬ Takes c f k) freshClient (before ++ [f, g]) → Lists c f k → Lists d g k →
      ∃ r, avatar e.manager.entities k = some r ∧ resolveRefr g.world e.manager.acts r = true := by
  intro h
  have hrun : (run freshClient spawning).any fun r => decide (Lists r.1 (sighting [100]) 1) &&
      (frame r.1 (sighting [100])).any fun r' => decide (Lists r'.1 (sighting [100]) 1) &&
        (frame r'.1 (sighting [100])).any fun r'' => allPlaced r''.1.manager.acts &&
          decide (avatar r''.1.manager.entities 1 = some 100) &&
          !resolveRefr (losing [100]) r''.1.manager.acts 100 := by decide +kernel
  simp only [Option.any_eq_true, Bool.and_eq_true, decide_eq_true_eq, Bool.not_eq_true',
    Prod.exists] at hrun
  obtain ⟨c, log, hc, hlists, d, log', hd, hlists', e, log'', he, ⟨hplaced, havatar⟩, hlost⟩ := hrun
  have hw : ∀ f ∈ spawning ++ [sighting [100], sighting [100]], f.world.Loses := by
    intro f hf
    simp only [spawning, List.cons_append, List.nil_append, List.mem_cons, List.not_mem_nil,
      or_false] at hf
    rcases hf with rfl | rfl | rfl | rfl <;> exact losing_loses _
  obtain ⟨r, hr, hresolves⟩ := h spawning (sighting [100]) (sighting [100]) c d e log log' log'' 1
    hw (fun _ hr => hr) hc hd he (allPlaced_places hplaced) (by decide +kernel) hlists hlists'
  rw [havatar, Option.some.injEq] at hr
  subst hr
  exact absurd hresolves (by simp [sighting, hlost])

/-- The avatar of player 1 is lost after a while. -/
theorem lost_reference_kept_sighted : ∃ d e log log', run freshClient spawning = some (d, log) ∧
    run d [sighting [], sighting [100]] = some (e, log') ∧ ∃ r,
      avatar d.manager.entities 1 = some r ∧ r ∈ placedRefs d.manager.acts ∧
      (resolveRefr (losing []) d.manager.acts r = true ↔ ¬ (losing []).Lost r) ∧
      avatar e.manager.entities 1 = some r ∧
      (resolveRefr (losing [100]) e.manager.acts r = true ↔ ¬ (losing [100]).Lost r) := by
  have hrun : (run freshClient (spawning.take 1)).any fun r =>
      decide (Lists r.1 (sighting []) 1) && (frame r.1 (sighting [])).any fun r' =>
        (run r'.1 [sighting [], sighting [100]]).any fun r'' => allPlaced r''.1.manager.acts := by
    decide +kernel
  simp only [Option.any_eq_true, Bool.and_eq_true, decide_eq_true_eq, Prod.exists] at hrun
  obtain ⟨c, log, hc, hlists, d, log', hd, e, log'', he, hplaced⟩ := hrun
  have hspawned : run freshClient spawning = some (d, log ++ log') :=
    EventRun.exec_append.mpr ⟨c, log, log', hc,
      EventRun.exec_cons_eq_some.mpr ⟨d, log', [], hd, rfl, by simp⟩, rfl⟩
  refine ⟨d, e, _, log'', hspawned, he, lost_reference_kept 0 true true (fun _ => true)
    (spawning.take 1) (sighting []) [sighting []] (sighting [100]) ?_ c d e log log' log'' hc hd he
    (allPlaced_places hplaced) 1 (by decide +kernel) hlists⟩
  intro f hf
  simp only [spawning, List.take_succ_cons, List.take_zero, List.cons_append, List.nil_append,
    List.mem_cons, List.not_mem_nil, or_false] at hf
  rcases hf with rfl | rfl | rfl | rfl <;> exact losing_loses _

end Fnvmp.Client
