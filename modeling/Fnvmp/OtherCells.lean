import Fnvmp.CommandLog
import Fnvmp.GhostAvatars
import Fnvmp.LostRefs

/-!
# Avatars in other cells

An entity whose player is in another cell is frozen: a tick looks at its cell before it
moves or animates it. A fire event looks only at whether the entity is spawned.
-/

namespace Fnvmp.EntityManager

open ExactFloat Engine Protocol CommandLog

/-! ## Cells received -/

def Op.states : Op → List EntityState
  | .updateFromWorldSnapshot _ states _ => states
  | _ => []

def cellOf (k : UInt32) (es : EntityState) : Option UInt32 :=
  if es.netEntityId = k then some es.cellId else none

/-- The cell of an entity in the latest snapshot that shows it. -/
def latestCell (k : UInt32) (ops : List Op) : Option UInt32 :=
  latest (cellOf k) (ops.flatMap Op.states)

/-- The cell kept with each entity is the latest one seen. -/
def Current (seen : List EntityState) (s : Manager) : Prop :=
  ∀ k ent, s.entities.find? k = some ent → latest (cellOf k) seen = some ent.cellId

theorem Current.of_source {seen : List EntityState} {s s' : Manager} (h : Current seen s)
    (hsource : ∀ k ent', s'.entities.find? k = some ent' →
      ∃ ent, s.entities.find? k = some ent ∧ ent'.cellId = ent.cellId) : Current seen s' := by
  intro k ent' hent'
  obtain ⟨ent, hent, hcell⟩ := hsource k ent' hent'
  rw [hcell]
  exact h k ent hent

theorem updateEntity_current {seen : List EntityState} {s : Manager} (h : Current seen s)
    (cell : UInt32) (t : ℚ) (es : EntityState) :
    Current (seen ++ [es]) (updateEntity cell t s es) := by
  have other : ∀ k ent, k ≠ es.netEntityId → s.entities.find? k = some ent →
      latest (cellOf k) (seen ++ [es]) = some ent.cellId := by
    intro k ent hne hent
    rw [latest_snoc, cellOf, if_neg (Ne.symm hne), Option.none_or]
    exact h k ent hent
  have self : latest (cellOf es.netEntityId) (seen ++ [es]) = some es.cellId := by
    simp [latest_snoc, cellOf]
  intro k ent hent
  unfold updateEntity at hent
  split at hent
  · rename_i hnone
    split at hent
    · refine other k ent ?_ hent
      rintro rfl
      rw [hnone] at hent
      cases hent
    · simp only [pushSample, OrderedMap.find?_insert] at hent
      split at hent
      · rename_i heq
        rw [heq, ← Option.some.inj hent]
        exact self
      · rename_i hne
        exact other k ent hne hent
  · simp only [pushSample, OrderedMap.find?_modify] at hent
    split at hent
    · rename_i heq
      obtain ⟨old, -, rfl⟩ := Option.map_eq_some_iff.mp hent
      rw [heq]
      exact self
    · rename_i hne
      exact other k ent hne hent

theorem updateFromWorldSnapshot_current {seen : List EntityState} {s : Manager}
    (h : Current seen s) {w : World} (hw : getLocalPlayerCellID w ≠ 0) (states : List EntityState)
    (t : ℚ) : Current (seen ++ states) (updateFromWorldSnapshot w states t s) := by
  rw [updateFromWorldSnapshot, if_neg hw]
  induction states generalizing seen s with
  | nil =>
    rw [List.append_nil]
    exact h
  | cons es states ih =>
    have hrest := ih (updateEntity_current h (getLocalPlayerCellID w) t es)
    rw [List.append_assoc] at hrest
    exact hrest

theorem animateEntity_cellId (m : Animation.Module) (w : World) (cell : UInt32) (t : ℚ)
    (acts : List Act) (id : UInt32) (ent : RemoteEntity) :
    (animateEntity m w cell t acts id ent).2.cellId = ent.cellId := by
  obtain heq | ⟨-, -, -, sc, -, heq⟩ := animateEntity_cases m w cell t acts id ent
  · rw [heq]
  · rw [heq]

theorem Spawned.cellId {ent ent' : RemoteEntity} (h : Spawned ent ent') :
    ent'.cellId = ent.cellId := by
  rcases h with rfl | ⟨-, refID, rfl⟩
  · rfl
  · rfl

theorem tick_cellId {fuel : Nat} {w : World} {t : ℚ} {s s' : Manager} {k : UInt32}
    {ent' : RemoteEntity} (ht : tick fuel w t s = some s') (hent' : s'.entities.find? k = some ent') :
    ∃ ent, s.entities.find? k = some ent ∧ ent'.cellId = ent.cellId := by
  obtain ⟨rfl, -⟩ | ⟨hready, hwork, -⟩ := tick_cases ht
  · exact ⟨ent', hent', rfl⟩
  · obtain ⟨ent, mid, past, hent, -, hsp, -, rfl⟩ := tick_source hready hwork ht hent'
    exact ⟨ent, hent, (animateEntity_cellId ..).trans hsp.cellId⟩

theorem applyFireEvent_cellId {w : World} {id : UInt32} {t : ℚ} {s : Manager} {k : UInt32}
    {ent' : RemoteEntity} (hent' : (applyFireEvent w id t s).entities.find? k = some ent') :
    ∃ ent, s.entities.find? k = some ent ∧ ent'.cellId = ent.cellId := by
  obtain heq | ⟨-, sc, -, -, -, -, heq⟩ := applyFireEvent_cases w id t s
  · rw [heq] at hent'
    exact ⟨ent', hent', rfl⟩
  · rw [heq] at hent'
    simp only [OrderedMap.find?_modify] at hent'
    split at hent'
    · rename_i hk
      obtain ⟨ent, hent, rfl⟩ := Option.map_eq_some_iff.mp hent'
      exact ⟨ent, hk ▸ hent, rfl⟩
    · exact ⟨ent', hent', rfl⟩

theorem step_current {ops : List Op} {s s' : Manager} (h : Current (ops.flatMap Op.states) s)
    {op : Op} (hop : ∀ w ∈ op.world, getLocalPlayerCellID w ≠ 0) (hs : step s op = some s') :
    Current ((ops ++ [op]).flatMap Op.states) s' := by
  rw [List.flatMap_append, List.flatMap_singleton]
  have quiet : op.states = [] → (∀ k ent', s'.entities.find? k = some ent' →
      ∃ ent, s.entities.find? k = some ent ∧ ent'.cellId = ent.cellId) →
      Current (ops.flatMap Op.states ++ op.states) s' := by
    intro hnil hsource
    rw [hnil, List.append_nil]
    exact h.of_source hsource
  cases op with
  | updateFromWorldSnapshot w states t =>
    cases hs
    exact updateFromWorldSnapshot_current h (hop w rfl) states t
  | applyFireEvent w id t =>
    cases hs
    exact quiet rfl fun k ent' hent' => applyFireEvent_cellId hent'
  | removeEntity id =>
    cases hs
    refine quiet rfl fun k ent' hent' => ⟨ent', ?_, rfl⟩
    rw [removeEntity_find?] at hent'
    exact hent'
  | tick fuel w t => exact quiet rfl fun k ent' hent' => tick_cellId hs hent'
  | shutdown w =>
    cases hs
    refine quiet rfl fun k ent' hent' => ?_
    unfold EntityManager.shutdown at hent'
    dsimp only at hent'
    split at hent' <;> cases hent'

/-! ## References over a run -/

/-- What is forgotten is not held. -/
theorem Kept.clear {queue : List UInt32} {entities : Entities} {acts : List Act}
    (h : Kept queue entities acts) : Kept [] ∅ acts :=
  ⟨⟨by simp, by simp⟩, ⟨by simp [ledger, avatar], by simp [ledger, avatar], h.guarded.unknown⟩⟩

theorem step_kept {s s' : Manager} (h : Kept s.pendingSpawns s.entities s.acts) {op : Op}
    (hop : ∀ w ∈ op.world, w.Fresh) (hs : step s op = some s') :
    Kept s'.pendingSpawns s'.entities s'.acts := by
  cases op with
  | updateFromWorldSnapshot w states t =>
    cases hs
    exact updateFromWorldSnapshot_upkeep kept_upkeep w states t s h
  | applyFireEvent w id t =>
    cases hs
    exact applyFireEvent_upkeep kept_upkeep w id t s h
  | removeEntity id =>
    cases hs
    unfold EntityManager.removeEntity
    split
    · exact h
    · exact h
  | tick fuel w t => exact tick_upkeep kept_upkeep (hop w rfl) h hs
  | shutdown w =>
    cases hs
    unfold EntityManager.shutdown
    dsimp only
    split
    · exact h.clear
    · have hmuted := kept_upkeep.quiet h (harmless_console .suppressConsole (.inl rfl))
      have hdone := deleteAll_upkeep kept_upkeep (hop w rfl) s.entities.entries hmuted
        (fun e he => (s.entities.find?_eq_some e.1 e.2).mpr he) s.entities.keys_nodup
      exact kept_upkeep.quiet hdone.clear (harmless_console .restoreConsole (.inr rfl))

/-- Whoever holds a reference that was placed before held it before. -/
theorem heirs_upkeep (s : Manager) : Upkeep World.Fresh fun _ entities acts =>
    s.acts <+: acts ∧ ∀ k r, avatar entities k = some r → r ∈ placedRefs s.acts →
      avatar s.entities k = some r where
  quiet h _ := ⟨h.1.trans (List.prefix_append _ _), h.2⟩
  same _ h hsame := ⟨h.1, by rw [avatar_same hsame]; exact h.2⟩
  track id ent h hnew href _ := by
    have hsame : avatar (OrderedMap.insert _ id ent) = avatar _ :=
      congrArg Custody.Ledger.holder (ledger_track hnew href : _ = ledger _ [])
    exact ⟨h.1, by rw [hsame]; exact h.2⟩
  dequeue h _ := h
  forget h _ _ := by
    refine ⟨h.1, fun k r hr => h.2 k r ?_⟩
    rw [avatar_erase, Function.update_apply] at hr
    split at hr
    · cases hr
    · exact hr
  delete _ h _ := by
    refine ⟨h.1.trans (deleteRef_extends _ _ _), fun k r hr => h.2 k r ?_⟩
    rw [avatar_erase, Function.update_apply] at hr
    split at hr
    · cases hr
    · exact hr
  place hw h hid _ hplaced := by
    obtain ⟨href, hfresh⟩ := hw _ _ hplaced
    refine ⟨h.1.trans (by simp [configure, runLine]), fun k r hr hold => ?_⟩
    rw [avatar_modify _ hid rfl href, Function.update_apply] at hr
    split at hr
    · rw [← Option.some.inj hr] at hold
      exact absurd ((h.1.filterMap _).subset hold) hfresh
    · exact h.2 k r hr hold

/-! ## Commands that keep house -/

/-- The commands on a fresh reference. -/
def spawnLines (x y z rotZ : FloatVal) : List Line :=
  [.setRestrained true, .setCombatDisabled true, .addToFaction 0x0001b2a4 1,
    .setPlayerTeammate true] ++ poseLines x y z rotZ

/-- Spawn configurations and despawn commands, one after the other. -/
inductive Housekeeping : List Line → Prop where
  | nil : Housekeeping []
  | despawn {lines : List Line} (h : Housekeeping lines) :
      Housekeeping (lines ++ [.disable, .markForDelete])
  | spawn {lines : List Line} (h : Housekeeping lines) (x y z rotZ : FloatVal) :
      Housekeeping (lines ++ spawnLines x y z rotZ)

theorem Housekeeping.append {lines lines' : List Line} (h : Housekeeping lines)
    (h' : Housekeeping lines') : Housekeeping (lines ++ lines') := by
  induction h' with
  | nil =>
    rw [List.append_nil]
    exact h
  | despawn _ ih =>
    rw [← List.append_assoc]
    exact ih.despawn
  | spawn _ x y z rotZ ih =>
    rw [← List.append_assoc]
    exact ih.spawn x y z rotZ

theorem Housekeeping.not_playGroup {lines : List Line} (h : Housekeeping lines)
    (group : AnimGroup) (flag : Nat) : .playGroup group flag ∉ lines := by
  induction h with
  | nil => exact List.not_mem_nil
  | despawn _ ih => simp [ih]
  | spawn _ x y z rotZ ih => simp [ih, spawnLines, poseLines]

/-- Nothing else came to a reference between two traces. -/
def LeavesAlone (r : UInt32) (acts acts' : List Act) : Prop :=
  ∃ more, Housekeeping more ∧ linesTo r acts' = linesTo r acts ++ more

theorem LeavesAlone.of_silent {r : UInt32} {acts acts' : List Act}
    (h : linesTo r acts' = linesTo r acts) : LeavesAlone r acts acts' :=
  ⟨[], .nil, by rw [h, List.append_nil]⟩

theorem LeavesAlone.trans {r : UInt32} {a b c : List Act} (h : LeavesAlone r a b)
    (h' : LeavesAlone r b c) : LeavesAlone r a c := by
  obtain ⟨more, hmore, hb⟩ := h
  obtain ⟨more', hmore', hc⟩ := h'
  exact ⟨more ++ more', hmore.append hmore', by rw [hc, hb, List.append_assoc]⟩

theorem deleteRef_alone (w : World) (r : UInt32) (acts : List Act) (ent : RemoteEntity) :
    LeavesAlone r acts (deleteRef w acts ent) := by
  by_cases hresolve : resolveRefr w acts ent.refID = true
  · refine ⟨_, ?_, deleteRef_lines hresolve r⟩
    split
    · exact .despawn .nil
    · exact .nil
  · rw [deleteRef, if_neg hresolve]
    exact .of_silent rfl

theorem despawnEntity_alone (w : World) (r : UInt32) (s : Manager) (id : UInt32) :
    LeavesAlone r s.acts (despawnEntity w s id).acts := by
  unfold despawnEntity
  split
  · exact .of_silent rfl
  · exact deleteRef_alone w r s.acts _

theorem configure_lines (acts : List Act) (refID : UInt32) (ent : RemoteEntity) (r : UInt32) :
    linesTo r (configure acts refID ent) = linesTo r acts ++ if r = refID then
      spawnLines ent.spawnPosX ent.spawnPosY ent.spawnPosZ ent.spawnRotZ else [] := by
  simp only [configure, linesTo_runLine, eq_comm (a := r)]
  by_cases hr : refID = r
  · simp [spawnLines, hr]
  · simp [hr]

theorem spawnEntity_alone (w : World) (r : UInt32) (s : Manager) (id : UInt32) :
    LeavesAlone r s.acts (spawnEntity w s id).acts := by
  obtain ⟨heq, -⟩ | ⟨ent, -, -, ⟨more, hmore, heq⟩ | ⟨refID, -, heq⟩⟩ := spawnEntity_cases w s id
  · rw [heq]
    exact .of_silent rfl
  · rw [heq]
    refine .of_silent ?_
    have hnone : linesTo r more = [] := by
      refine List.flatMap_eq_nil_iff.mpr fun a ha => ?_
      obtain ⟨placed, rfl, -⟩ := hmore a ha
      rfl
    rw [linesTo_append, hnone, List.append_nil]
  · rw [heq]
    refine ⟨_, ?_, by rw [configure_lines, linesTo_place]⟩
    split
    · exact .spawn .nil _ _ _ _
    · exact .nil

/-- Working off the queues only spawns and despawns. -/
theorem respawned_alone (w : World) (r : UInt32) (s : Manager) :
    LeavesAlone r s.acts (respawned w s).acts := by
  have hmuted : LeavesAlone r s.acts (s.acts ++ [.suppressConsole]) :=
    .of_silent (by simp [linesTo, Act.linesTo])
  have hdespawn := foldl_relates (R := fun a b : Manager => LeavesAlone r a.acts b.acts)
    (fun _ => .of_silent rfl) LeavesAlone.trans (despawnEntity w) (despawnEntity_alone w r)
    s.pendingDespawns { s with acts := s.acts ++ [.suppressConsole] }
  have hspawn := foldl_relates (R := fun a b : Manager => LeavesAlone r a.acts b.acts)
    (fun _ => .of_silent rfl) LeavesAlone.trans (spawnEntity w) (spawnEntity_alone w r)
    (despawnPhase w { s with acts := s.acts ++ [.suppressConsole] }).pendingSpawns
    (despawnPhase w { s with acts := s.acts ++ [.suppressConsole] })
  exact (hmuted.trans hdespawn).trans hspawn

/-! ## The two loops of a tick -/

/-- Every spawned entity with this reference is in another cell. -/
def Elsewhere (cell r : UInt32) (entities : Entities) : Prop :=
  ∀ k ent, entities.find? k = some ent → ent.spawned = true → ent.refID = r → ent.cellId ≠ cell

theorem positionLoop_silent {fuel : Nat} {w : World} {cell : UInt32} {t : ℚ}
    {interp : Interp.InterpStates FloatVal} {r : UInt32} (hcell : cell ≠ 0)
    (l : List (UInt32 × RemoteEntity))
    (hl : ∀ e ∈ l, e.2.spawned = true → e.2.refID = r → e.2.cellId ≠ cell) {acts acts' : List Act}
    (h : positionLoop fuel w cell t interp l acts = some acts') :
    linesTo r acts' = linesTo r acts := by
  induction l generalizing acts with
  | nil =>
    cases h
    rfl
  | cons e l ih =>
    obtain ⟨mid, hmid, hrest⟩ := Option.bind_eq_some_iff.mp h
    obtain ⟨hfirst, hl'⟩ := List.forall_mem_cons.mp hl
    rw [ih hl' hrest]
    obtain rfl | ⟨hsp, hhere, x, y, z, rotZ, rfl⟩ := positionEntity_cases hmid
    · rfl
    · have hother : e.2.refID ≠ r := fun href => hhere ⟨hcell, hfirst hsp href⟩
      rw [linesTo_runLine, if_neg hother, List.append_nil]

theorem animationPhase_silent {w : World} {t : ℚ} {s : Manager} {r : UInt32}
    (hcell : getLocalPlayerCellID w ≠ 0)
    (h : Elsewhere (getLocalPlayerCellID w) r s.entities) :
    linesTo r (animationPhase w t s).acts = linesTo r s.acts := by
  have hsweep := OrderedMap.sweep_rule (P := fun acts => linesTo r acts = linesTo r s.acts)
    (R := fun _ _ _ => True) (animateEntity s.anim w (getLocalPlayerCellID w) t) s.entities
    (s := s.acts) rfl (by
      intro acts k ent hent hacts
      refine ⟨?_, trivial⟩
      obtain heq | ⟨hsp, hhere, -, sc, hsc, heq⟩ :=
        animateEntity_cases s.anim w (getLocalPlayerCellID w) t acts k ent
      · rw [heq]
        exact hacts
      · have hother : r ≠ ent.refID := fun href => hhere ⟨hcell, h k ent hent hsp href.symm⟩
        obtain ⟨more, hmore, hdrives⟩ :=
          Animation.applyState_adds s.anim w ent.refID ent.net t ⟨ent.animState, acts⟩
        rw [heq, hsc, hmore, linesTo_append, linesTo_other hother hdrives, List.append_nil]
        exact hacts)
  exact hsweep.1

/-- A tick leaves a reference alone whose holders are all in other cells. -/
theorem tick_alone {fuel : Nat} {w : World} {t : ℚ} {s s' : Manager} {r : UInt32}
    (hcell : getLocalPlayerCellID w ≠ 0)
    (h : Elsewhere (getLocalPlayerCellID w) r (respawned w s).entities)
    (ht : tick fuel w t s = some s') : LeavesAlone r s.acts s'.acts := by
  obtain ⟨rfl, -⟩ | ⟨-, -, mid, acts, rfl, hloop, rfl⟩ := tick_cases ht
  · exact .of_silent rfl
  · refine (respawned_alone w r s).trans (.of_silent ?_)
    have hposition := positionLoop_silent hcell _ (fun e he =>
      h e.1 e.2 ((OrderedMap.find?_eq_some _ e.1 e.2).mpr he)) hloop
    have hanimate := animationPhase_silent (t := t)
      (s := { respawned w s with acts := acts }) hcell h
    have hrestored : linesTo r [.restoreConsole] = [] := rfl
    rw [linesTo_append, hrestored, List.append_nil]
    exact hanimate.trans hposition

theorem shutdown_alone (w : World) (s : Manager) (r : UInt32) :
    LeavesAlone r s.acts (shutdown w s).acts := by
  unfold shutdown
  dsimp only
  split
  · exact .of_silent rfl
  · have hmuted : LeavesAlone r s.acts (s.acts ++ [.suppressConsole]) :=
      .of_silent (by simp [linesTo, Act.linesTo])
    have hdeleted := foldl_relates (R := LeavesAlone r) (fun _ => .of_silent rfl)
      LeavesAlone.trans (fun acts (e : UInt32 × RemoteEntity) => deleteRef w acts e.2)
      (fun acts e => deleteRef_alone w r acts e.2) s.entities.entries
      (s.acts ++ [.suppressConsole])
    exact (hmuted.trans hdeleted).trans (.of_silent (by simp [linesTo, Act.linesTo]))

/-! ## Runs -/

/-- An operation in the world `w` leaves the avatars of all entities alone whose latest
cell is not the local player's. -/
def Spares (before : List Op) (w : World) (s s' : Manager) : Prop :=
  ∀ k ent, (s.entities.find? k = some ent ∨ s'.entities.find? k = some ent) →
    ent.spawned = true → latestCell k before ≠ some (getLocalPlayerCellID w) →
    LeavesAlone ent.refID s.acts s'.acts

/-- Every operation of the run does. -/
def SparesOthers (s : Manager) (ops : List Op) : Prop :=
  ∀ before op after a b, ops = before ++ op :: after → run s before = some a →
    step a op = some b → ∀ w ∈ op.world, Spares before w a b

/-- The shot is played on an avatar whose entity is in another cell. -/
def Strikes (w : World) (id : UInt32) (s : Manager) : Prop :=
  ∃ ent, s.entities.find? id = some ent ∧ ent.spawned = true ∧
    resolveRefr w s.acts ent.refID = true ∧ s.anim.console = true ∧
    ent.cellId ≠ getLocalPlayerCellID w

theorem run_snoc {s s' : Manager} {ops : List Op} {op : Op} :
    run s (ops ++ [op]) = some s' ↔ ∃ mid, run s ops = some mid ∧ step mid op = some s' := by
  rw [run, List.foldlM_append, ← run]
  simp [Option.bind_eq_some_iff]

theorem init_empty (script console compilesSpawn : Bool) (compiles : Script → Bool) :
    (init {} script console compilesSpawn compiles).entities = ∅ ∧
      (init {} script console compilesSpawn compiles).acts = [] := by
  unfold init
  dsimp only
  split
  · exact ⟨rfl, rfl⟩
  · exact ⟨rfl, rfl⟩

/-- What every run knows of the references and the cells of its entities. -/
theorem run_known (script console compilesSpawn : Bool) (compiles : Script → Bool)
    {ops : List Op} (hops : ∀ op ∈ ops, ∀ w ∈ op.world, w.Fresh ∧ getLocalPlayerCellID w ≠ 0)
    {s : Manager} (hrun : run (init {} script console compilesSpawn compiles) ops = some s) :
    Kept s.pendingSpawns s.entities s.acts ∧ Current (ops.flatMap Op.states) s := by
  obtain ⟨hentities, hacts⟩ := init_empty script console compilesSpawn compiles
  induction ops using List.reverseRecOn generalizing s with
  | nil =>
    cases hrun
    refine ⟨⟨⟨by simp [hentities], by simp [hentities]⟩, ?_⟩, by simp [Current, hentities]⟩
    rw [hentities, hacts]
    exact Custody.sound_vacant.guarded
  | append_singleton ops op ih =>
    obtain ⟨mid, hmid, hs⟩ := run_snoc.mp hrun
    obtain ⟨hkept, hcurrent⟩ := ih (fun o ho => hops o (List.mem_append_left _ ho)) hmid
    have hop := hops op (List.mem_append_right _ (List.mem_singleton_self op))
    exact ⟨step_kept hkept (fun w hw => (hop w hw).1) hs,
      step_current hcurrent (fun w hw => (hop w hw).2) hs⟩

section
variable {before : List Op} {w : World} {a b : Manager}

/-- After a tick's queues no one else holds the reference of an entity it starts or ends with. -/
theorem respawned_holder (hw : w.Fresh) (hkept : Kept a.pendingSpawns a.entities a.acts)
    {fuel : Nat} {t : ℚ} (ht : tick fuel w t a = some b) {k k' : UInt32} {ent ent' : RemoteEntity}
    (hent : a.entities.find? k = some ent ∨ b.entities.find? k = some ent)
    (hsp : ent.spawned = true) (hent' : (respawned w a).entities.find? k' = some ent')
    (hsp' : ent'.spawned = true) (href : ent'.refID = ent.refID) : k' = k := by
  have hmid : Kept [] (respawned w a).entities (respawned w a).acts :=
    respawned_upkeep kept_upkeep hw hkept
  have hne : ent.refID ≠ 0 := href ▸ (hmid.marks.marked k' ent' hent').mp hsp'
  have hheld' : avatar (respawned w a).entities k' = some ent.refID := by
    simp [avatar, hent', href, hne]
  have hold : ∀ ent, a.entities.find? k = some ent → ent.refID ≠ 0 →
      avatar (respawned w a).entities k' = some ent.refID → k' = k := by
    intro ent hent hne hheld'
    have hheld : avatar a.entities k = some ent.refID := by simp [avatar, hent, hne]
    have hplaced := (hkept.guarded.held k ent.refID hheld).1
    have hheirs := (respawned_upkeep (heirs_upkeep a) hw ⟨List.prefix_rfl, fun _ _ h _ => h⟩).2
    exact hkept.guarded.one_holder k' k ent.refID (hheirs k' ent.refID hheld' hplaced) hheld
  rcases hent with hent | hent
  · exact hold ent hent hne hheld'
  · obtain ⟨rfl, -⟩ | ⟨hready, hwork, -⟩ := tick_cases ht
    · exact hold ent hent hne hheld'
    · have hvisit := tick_animates hready hwork ht k
      rw [hent] at hvisit
      cases hfound : (respawned w a).entities.find? k with
      | none =>
        rw [hfound] at hvisit
        cases hvisit
      | some mid =>
        rw [hfound] at hvisit
        obtain ⟨past, -, rfl⟩ | _ := hvisit
        obtain ⟨-, hsame, -⟩ :=
          animateEntity_harmless a.anim w (getLocalPlayerCellID w) t past k mid
        refine hmid.guarded.one_holder k' k _ hheld' ?_
        rw [hsame] at hne
        simp [ledger, avatar, hfound, hsame, hne]

theorem tick_spares (hw : w.Fresh) (hcell : getLocalPlayerCellID w ≠ 0)
    (hkept : Kept a.pendingSpawns a.entities a.acts)
    (hcurrent : Current (before.flatMap Op.states) a) {fuel : Nat} {t : ℚ}
    (ht : tick fuel w t a = some b) : Spares before w a b := by
  intro k ent hent hsp hother
  refine tick_alone hcell (fun k' ent' hent' hsp' href hhere => hother ?_) ht
  obtain rfl := respawned_holder hw hkept ht hent hsp hent' hsp' href
  obtain ⟨ent₀, hent₀, -, hspawned⟩ := respawned_source hent'
  rw [latestCell, hcurrent k' ent₀ hent₀, ← hhere, hspawned.cellId]

theorem applyFireEvent_spares (hkept : Kept a.pendingSpawns a.entities a.acts)
    (hcurrent : Current (before.flatMap Op.states) a) {id : UInt32} (h : ¬ Strikes w id a)
    (t : ℚ) : Spares before w a (applyFireEvent w id t a) := by
  intro k ent hent hsp hother
  refine .of_silent ?_
  obtain ⟨old, hold, hsame⟩ : ∃ old, a.entities.find? k = some old ∧ SameRef old ent := by
    rcases hent with hent | hent
    · exact ⟨ent, hent, rfl, rfl⟩
    · have hrel := (applyFireEvent_quiet w id t a).2.1 k
      rw [hent] at hrel
      cases hfound : a.entities.find? k with
      | none =>
        rw [hfound] at hrel
        cases hrel
      | some old =>
        rw [hfound] at hrel
        obtain hsame | _ := hrel
        exact ⟨old, rfl, hsame⟩
  obtain heq | ⟨target, sc, htarget, hspawned, hfound, rfl, heq⟩ := applyFireEvent_cases w id t a
  · rw [heq]
  · have hsuppressed : linesTo ent.refID [.suppressConsole] = [] := rfl
    have hrestored : linesTo ent.refID [.restoreConsole] = [] := rfl
    rw [heq]
    dsimp only
    by_cases hconsole : a.anim.console = true
    · have hne : ent.refID ≠ target.refID := by
        intro href
        have hnonzero : target.refID ≠ 0 := (hkept.marks.marked id target htarget).mp hspawned
        have hk : k = id := by
          refine hkept.guarded.one_holder k id target.refID ?_ ?_
          · simp [ledger, avatar, hold, ← hsame.1, href, hnonzero]
          · simp [ledger, avatar, htarget, hnonzero]
        refine h ⟨target, htarget, hspawned, hfound, hconsole, fun hhere => hother ?_⟩
        rw [hk, latestCell, hcurrent id target htarget, hhere]
      obtain ⟨more, hmore, hdrives⟩ := Animation.applyFire_adds a.anim target.refID t
        ⟨target.animState, a.acts ++ [.suppressConsole]⟩
      rw [hmore, linesTo_append, linesTo_append, linesTo_append, linesTo_other hne hdrives,
        hsuppressed, hrestored]
      simp
    · rw [Animation.applyFire, if_pos (by simpa using hconsole), linesTo_append, linesTo_append,
        hsuppressed, hrestored]
      simp

/-- Every shot that is played puts an animation group on the avatar. -/
theorem applyFire_plays {m : Animation.Module} (hconsole : m.console = true) (npc : UInt32)
    (t : ℚ) (sc : Animation.Scene) : ∃ lines group flag, .playGroup group flag ∈ lines ∧
      linesTo npc (Animation.applyFire m npc t sc).acts = linesTo npc sc.acts ++ lines := by
  rw [Animation.applyFire, if_neg (by simp [hconsole])]
  dsimp only
  split
  · split
    · exact ⟨[.playGroup .attackLeftIS 1, .playGroup .aimIS 0, .playWeaponSound],
        .attackLeftIS, 1, by simp, by simp [Animation.runCmd, linesTo_runLine]⟩
    · exact ⟨[.playGroup .attackLeft 1, .playWeaponSound], .attackLeft, 1, by simp,
        by simp [Animation.runCmd, linesTo_runLine]⟩
  · split
    · exact ⟨[.playGroup .attackRight 1], .attackRight, 1, by simp,
        by simp [Animation.runCmd, linesTo_runLine]⟩
    · split
      · exact ⟨[.playGroup .attackThrow6 1], .attackThrow6, 1, by simp,
          by simp [Animation.runCmd, linesTo_runLine]⟩
      · exact ⟨[.playGroup .attackLeft 1], .attackLeft, 1, by simp,
          by simp [Animation.runCmd, linesTo_runLine]⟩

theorem Strikes.not_spared (hcurrent : Current (before.flatMap Op.states) a) {id : UInt32}
    (h : Strikes w id a) (t : ℚ) : ¬ Spares before w a (applyFireEvent w id t a) := by
  intro hspares
  obtain ⟨ent, hent, hsp, hfound, hconsole, hother⟩ := h
  obtain ⟨more, hmore, hlines⟩ := hspares id ent (.inl hent) hsp (by
    rw [latestCell, hcurrent id ent hent]
    simpa using hother)
  obtain ⟨lines, group, flag, hgroup, hplayed⟩ := applyFire_plays hconsole ent.refID t
    ⟨ent.animState, a.acts ++ [.suppressConsole]⟩
  have hacts : linesTo ent.refID (applyFireEvent w id t a).acts =
      linesTo ent.refID a.acts ++ lines := by
    simp only [applyFireEvent, hent, hsp, hfound, Bool.true_eq_false, if_false, linesTo_append,
      hplayed]
    simp [linesTo, Act.linesTo]
  rw [hacts] at hlines
  rw [← List.append_cancel_left hlines] at hmore
  exact hmore.not_playGroup group flag hgroup

end

/-- In a run with a local player whose cell is known, where `PlaceAtMe` gives out fresh
references: beyond spawning and despawning nothing is put on the avatar of an entity in
another cell, exactly when no fire event finds its entity spawned there. -/
theorem others_spared_iff (script console compilesSpawn : Bool) (compiles : Script → Bool)
    (ops : List Op) (hops : ∀ op ∈ ops, ∀ w ∈ op.world, w.Fresh ∧ getLocalPlayerCellID w ≠ 0) :
    SparesOthers (init {} script console compilesSpawn compiles) ops ↔
      ∀ before w id t after a, ops = before ++ .applyFireEvent w id t :: after →
        run (init {} script console compilesSpawn compiles) before = some a →
        ¬ Strikes w id a := by
  have known : ∀ before op after a, ops = before ++ op :: after →
      run (init {} script console compilesSpawn compiles) before = some a →
      Kept a.pendingSpawns a.entities a.acts ∧ Current (before.flatMap Op.states) a := by
    intro before op after a hsplit hrun
    refine run_known script console compilesSpawn compiles (fun o ho => hops o ?_) hrun
    rw [hsplit]
    exact List.mem_append_left _ ho
  constructor
  · intro h before w id t after a hsplit hrun hstrikes
    refine hstrikes.not_spared (known before _ after a hsplit hrun).2 t ?_
    exact h before _ after a _ hsplit hrun rfl w rfl
  · intro h before op after a b hsplit hrun hs w hw
    obtain ⟨hkept, hcurrent⟩ := known before op after a hsplit hrun
    obtain ⟨hfresh, hcell⟩ := hops op (by rw [hsplit]; simp) w hw
    cases op with
    | updateFromWorldSnapshot v states t =>
      cases hs
      have hacts := (Prod.mk.inj (Prod.mk.inj (updateFromWorldSnapshot_keeps v states t a)).2).1
      intro k ent _ _ _
      rw [hacts]
      exact .of_silent rfl
    | applyFireEvent v id t =>
      cases hs
      cases hw
      exact applyFireEvent_spares hkept hcurrent (h before w id t after a hsplit hrun) t
    | removeEntity id => cases hw
    | tick fuel v t =>
      cases hw
      exact tick_spares hfresh hcell hkept hcurrent hs
    | shutdown v =>
      cases hs
      intro k ent _ _ _
      exact shutdown_alone v a ent.refID

theorem quietWorld_fresh : quietWorld.Fresh ∧ getLocalPlayerCellID quietWorld ≠ 0 :=
  ⟨quietWorld_honest.fresh, by decide⟩

/-- A player goes into another cell. -/
theorem others_spared_leaving : SparesOthers (init {} true true true fun _ => true)
    [.updateFromWorldSnapshot quietWorld [standing 7 1] 0, .tick 0 quietWorld 0,
      .updateFromWorldSnapshot quietWorld [standing 7 2] 1, .tick 0 quietWorld 1] := by
  refine (others_spared_iff true true true (fun _ => true) _ ?_).mpr ?_
  · intro op hop w hw
    simp only [List.mem_cons, List.not_mem_nil, or_false] at hop
    obtain rfl : w = quietWorld := by
      rcases hop with rfl | rfl | rfl | rfl <;> cases hw <;> rfl
    exact quietWorld_fresh
  · intro before w id t after a hsplit
    have hmem : Op.applyFireEvent w id t ∈ before ++ .applyFireEvent w id t :: after := by simp
    rw [← hsplit] at hmem
    simp at hmem

end Fnvmp.EntityManager

namespace Fnvmp.Client

open Engine Protocol Net EntityManager PackedCodec Server

/-- Player 1 is seen in the next cell. -/
def crossing : Frame := quietFrame [.receive (encodeWorld [standing 1 2])]

def shooting : Frame := quietFrame [.receive (msgEntity.encode ⟨MessageType.remoteFire.code, 1⟩)]

/-- Player 1 is seen, goes into another cell and fires there. -/
theorem other_cell_fired_in :
    ¬ ∀ frames : List Frame,
      (∀ f ∈ frames, f.world.Fresh ∧ getLocalPlayerCellID f.world ≠ 0) →
      SparesOthers freshClient.manager (calls freshClient frames) := by
  intro h
  obtain ⟨⟨c, sent⟩, hearly⟩ := Option.isSome_iff_exists.mp
    (show (run freshClient [greeted, belated, crossing]).isSome from by decide +kernel)
  have hend : (run freshClient [greeted, belated, crossing]).all (fun r =>
      (poll r.1.net shooting.dt shooting.waiting).any (fun q =>
        decide (q.1.disconnectedEntities = [] ∧ q.1.fireEvents = [1])) &&
      (r.1.manager.entities.find? 1).any fun ent => decide (ent.spawned = true ∧
        resolveRefr quietWorld r.1.manager.acts ent.refID = true ∧
        r.1.manager.anim.console = true ∧ ent.cellId ≠ getLocalPlayerCellID quietWorld)) := by
    decide +kernel
  simp only [hearly, Option.all_some, Bool.and_eq_true, Option.any_eq_true, decide_eq_true_eq,
    Prod.exists] at hend
  obtain ⟨⟨net, out, hpoll, hgone, hfired⟩, hstrikes⟩ := hend
  have hw : ∀ f ∈ [greeted, belated, crossing] ++ [shooting],
      f.world.Fresh ∧ getLocalPlayerCellID f.world ≠ 0 := by
    intro f hf
    simp only [List.cons_append, List.nil_append, List.mem_cons, List.not_mem_nil, or_false] at hf
    rcases hf with rfl | rfl | rfl | rfl <;> exact quietWorld_fresh
  have hcalls : ∃ after, calls freshClient ([greeted, belated, crossing] ++ [shooting]) =
      calls freshClient [greeted, belated, crossing] ++
        .applyFireEvent quietWorld 1 (c.gameTime + shooting.dt) :: after := by
    rw [calls_append hearly]
    generalize calls freshClient [greeted, belated, crossing] = before
    simp only [calls, hpoll, frameOps, hgone, hfired, List.map_nil, List.nil_append, List.map_cons,
      List.cons_append]
    exact ⟨_, rfl⟩
  obtain ⟨after, hcalls⟩ := hcalls
  have hops : ∀ op ∈ calls freshClient [greeted, belated, crossing], ∀ w ∈ op.world,
      w.Fresh ∧ getLocalPlayerCellID w ≠ 0 := by
    intro op hop w hmem
    obtain ⟨f, hf, rfl⟩ := mem_calls hop w hmem
    exact hw f (List.mem_append_left _ hf)
  have hcurrent := (run_known true true true (fun _ => true) hops (run_calls hearly)).2
  refine Strikes.not_spared hcurrent (w := quietWorld) hstrikes (c.gameTime + shooting.dt) ?_
  exact h _ hw _ _ after c.manager _ hcalls (run_calls hearly) rfl quietWorld rfl

end Fnvmp.Client
