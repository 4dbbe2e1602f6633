import Fnvmp.Animation
import Fnvmp.Interpolation

/-!
# The entity manager

The remote entities of the client, the queues of entities to spawn and to despawn, and
the operations of the main loop on them. The state also carries the trace of engine
interactions, which answers the engine's side of every call. `none` is a tick that an
angle loop keeps from ending within the given number of passes.
-/

namespace Fnvmp.EntityManager

open ExactFloat Engine Protocol

structure RemoteEntity where
  netEntityId : UInt32 := 0
  refID : UInt32 := 0
  spawned : Bool := false
  cellId : UInt32 := 0
  spawnPosX : FloatVal := .fin 0
  spawnPosY : FloatVal := .fin 0
  spawnPosZ : FloatVal := .fin 0
  spawnRotZ : FloatVal := .fin 0
  /-- `moveDirection` to `actionState`. -/
  net : Animation.NetState := {}
  animState : Animation.EntityAnimState := {}
  deriving DecidableEq

abbrev Entities := OrderedMap UInt32 RemoteEntity

/-- `script`, `console` and `spawnExpr` say that `s_script`, `s_console` and `s_spawnExpr`
are not null; `anim` and `interp` are the state of the other two modules. -/
structure Manager where
  entities : Entities := ∅
  pendingSpawns : List UInt32 := []
  pendingDespawns : List UInt32 := []
  script : Bool := false
  console : Bool := false
  spawnExpr : Bool := false
  anim : Animation.Module := {}
  interp : Interp.InterpStates FloatVal := ∅
  acts : List Act := []

/-- `57.2957795f`, the binary32 number nearest to that decimal. -/
def radToDeg : FloatVal := .fin (15019745 / 262144)

/-- `EntityManager_Init`; `compiles` and `compilesSpawn` say which expressions compile. -/
def init (s : Manager) (script console compilesSpawn : Bool) (compiles : Script → Bool) : Manager :=
  let s := { s with script := script, console := console }
  if script = false then s
  else { s with
    spawnExpr := compilesSpawn
    anim := Animation.init s.anim script console compiles }

/-! ## Helpers -/

def resolveRefr (w : World) (acts : List Act) (refID : UInt32) : Bool :=
  refID ≠ 0 && w.resolve acts refID

def getLocalPlayerCellID (w : World) : UInt32 := if w.thePlayer then w.playerCell else 0

/-- The command that moves a reference: `SetPos X/Y/Z` and `SetAngle Z` in degrees. -/
def poseLines (posX posY posZ rotZ : FloatVal) : List Line :=
  [.setPos .x posX, .setPos .y posY, .setPos .z posZ, .setAngleZ (rotZ * radToDeg)]

/-! ## World snapshots -/

def EntityState.net (es : EntityState) : Animation.NetState where
  moveDirection := es.moveDirection
  isRunning := es.isRunning
  isWeaponOut := es.isWeaponOut
  actionState := es.actionState
  isSneaking := es.isSneaking

/-- A new entity, kept with its position until it is spawned. -/
def newEntity (es : EntityState) : RemoteEntity where
  netEntityId := es.netEntityId
  cellId := es.cellId
  spawnPosX := .ofBits es.posX
  spawnPosY := .ofBits es.posY
  spawnPosZ := .ofBits es.posZ
  spawnRotZ := .ofBits es.rotZ
  net := EntityState.net es

def pushSample (es : EntityState) (snapshotTime : ℚ) (s : Manager) : Manager :=
  { s with
    interp := Interp.pushSnapshot s.interp es.netEntityId (.ofBits es.posX)
      (.ofBits es.posY) (.ofBits es.posZ) (.ofBits es.rotZ) snapshotTime }

/-- One pass of the loop over the entities of a snapshot. -/
def updateEntity (localCellId : UInt32) (snapshotTime : ℚ) (s : Manager) (es : EntityState) :
    Manager :=
  match s.entities.find? es.netEntityId with
  | none =>
    if localCellId ≠ 0 ∧ es.cellId ≠ localCellId then s
    else pushSample es snapshotTime
      { s with
        entities := s.entities.insert es.netEntityId (newEntity es)
        pendingSpawns := s.pendingSpawns ++ [es.netEntityId] }
  | some _ => pushSample es snapshotTime
      { s with entities := s.entities.modify es.netEntityId fun ent =>
          { ent with cellId := es.cellId, net := EntityState.net es } }

def updateFromWorldSnapshot (w : World) (states : List EntityState) (snapshotTime : ℚ)
    (s : Manager) : Manager :=
  let localCellId := getLocalPlayerCellID w
  if localCellId = 0 then s else states.foldl (updateEntity localCellId snapshotTime) s

/-! ## Events -/

def applyFireEvent (w : World) (netEntityId : UInt32) (currentTime : ℚ) (s : Manager) : Manager :=
  match s.entities.find? netEntityId with
  | none => s
  | some ent =>
    if ent.spawned = false then s
    else if resolveRefr w s.acts ent.refID = false then s
    else
      let sc := Animation.applyFire s.anim ent.refID currentTime
        ⟨ent.animState, s.acts ++ [.suppressConsole]⟩
      { s with
        entities := s.entities.modify netEntityId fun ent => { ent with animState := sc.st }
        acts := sc.acts ++ [.restoreConsole] }

def removeEntity (netEntityId : UInt32) (s : Manager) : Manager :=
  match s.entities.find? netEntityId with
  | none => s
  | some _ =>
    { s with
      pendingDespawns := s.pendingDespawns ++ [netEntityId]
      interp := Interp.removeEntity s.interp netEntityId }

/-! ## Ticks -/

/-- `Disable` and `MarkForDelete`, if there is a reference and it resolves. -/
def deleteRef (w : World) (acts : List Act) (ent : RemoteEntity) : List Act :=
  if resolveRefr w acts ent.refID then
    runLine (runLine acts ent.refID [.disable]) ent.refID [.markForDelete]
  else acts

def despawnEntity (w : World) (s : Manager) (id : UInt32) : Manager :=
  match s.entities.find? id with
  | none => s
  | some ent => { s with acts := deleteRef w s.acts ent, entities := s.entities.erase id }

/-- The commands on a fresh reference, one by one. -/
def configure (acts : List Act) (refID : UInt32) (ent : RemoteEntity) : List Act :=
  let acts := runLine acts refID [.setRestrained true]
  let acts := runLine acts refID [.setCombatDisabled true]
  let acts := runLine acts refID [.addToFaction 0x0001b2a4 1]
  let acts := runLine acts refID [.setPlayerTeammate true]
  runLine acts refID (poseLines ent.spawnPosX ent.spawnPosY ent.spawnPosZ ent.spawnRotZ)

def spawnEntity (w : World) (s : Manager) (id : UInt32) : Manager :=
  match s.entities.find? id with
  | none => s
  | some ent =>
    if ent.spawned then s
    else if s.spawnExpr = false then { s with entities := s.entities.erase id }
    else
      let placed := w.placeAtMe s.acts
      let acts := s.acts ++ [.place placed]
      match placed with
      | .failed => { s with acts := acts, entities := s.entities.erase id }
      | .notARef => { s with acts := acts, entities := s.entities.erase id }
      | .ref refID =>
        { s with
          entities := s.entities.modify id fun ent => { ent with refID := refID, spawned := true }
          acts := configure acts refID ent }

/-- One entity of the position loop. -/
def positionEntity (fuel : Nat) (w : World) (localCellId : UInt32) (currentTime : ℚ)
    (interp : Interp.InterpStates FloatVal) (acts : List Act) (ent : RemoteEntity) :
    Option (List Act) :=
  if ent.spawned = false then some acts
  else if localCellId ≠ 0 ∧ ent.cellId ≠ localCellId then some acts
  else
    (Interp.getState fuel interp ent.netEntityId (currentTime - Interp.interpDelay)
      currentTime).map fun state =>
    match state with
    | none => acts
    | some pose =>
      if resolveRefr w acts ent.refID then
        runLine acts ent.refID (poseLines pose.posX pose.posY pose.posZ pose.rotZ)
      else acts

def positionLoop (fuel : Nat) (w : World) (localCellId : UInt32) (currentTime : ℚ)
    (interp : Interp.InterpStates FloatVal) : List (UInt32 × RemoteEntity) → List Act →
    Option (List Act)
  | [], acts => some acts
  | (_, ent) :: rest, acts =>
    (positionEntity fuel w localCellId currentTime interp acts ent).bind
      (positionLoop fuel w localCellId currentTime interp rest)

/-- One entity of the animation loop. -/
def animateEntity (m : Animation.Module) (w : World) (localCellId : UInt32) (currentTime : ℚ)
    (acts : List Act) (_id : UInt32) (ent : RemoteEntity) : List Act × RemoteEntity :=
  if ent.spawned = false then (acts, ent)
  else if localCellId ≠ 0 ∧ ent.cellId ≠ localCellId then (acts, ent)
  else if resolveRefr w acts ent.refID = false then (acts, ent)
  else
    let sc := Animation.applyState m w ent.refID ent.net currentTime ⟨ent.animState, acts⟩
    (sc.acts, { ent with animState := sc.st })

/-- The first two guards of `EntityManager_Tick`. -/
def ready (w : World) (s : Manager) : Bool := s.script && s.console && w.thePlayer

def hasPendingWork (s : Manager) : Bool :=
  !s.pendingSpawns.isEmpty || !s.pendingDespawns.isEmpty ||
    s.entities.entries.any fun e => e.2.spawned

def despawnPhase (w : World) (s : Manager) : Manager :=
  { s.pendingDespawns.foldl (despawnEntity w) s with pendingDespawns := [] }

def spawnPhase (w : World) (s : Manager) : Manager :=
  { s.pendingSpawns.foldl (spawnEntity w) s with pendingSpawns := [] }

def positionPhase (fuel : Nat) (w : World) (currentTime : ℚ) (s : Manager) : Option Manager :=
  (positionLoop fuel w (getLocalPlayerCellID w) currentTime s.interp s.entities.entries s.acts).map
    fun acts => { s with acts := acts }

def animationPhase (w : World) (currentTime : ℚ) (s : Manager) : Manager :=
  let r := s.entities.sweep (animateEntity s.anim w (getLocalPlayerCellID w) currentTime) s.acts
  { s with entities := r.2, acts := r.1 }

def tick (fuel : Nat) (w : World) (currentTime : ℚ) (s : Manager) : Option Manager :=
  if ready w s = false then some s
  else if hasPendingWork s = false then some s
  else
    let s := { s with acts := s.acts ++ [.suppressConsole] }
    (positionPhase fuel w currentTime (spawnPhase w (despawnPhase w s))).map fun s =>
      let s := animationPhase w currentTime s
      { s with acts := s.acts ++ [.restoreConsole] }

/-! ## Shutdown -/

def shutdown (w : World) (s : Manager) : Manager :=
  let cleared (s : Manager) : Manager :=
    { s with entities := ∅, pendingSpawns := [], pendingDespawns := [], interp := Interp.clear }
  if s.console = false then cleared s
  else
    let acts := s.acts ++ [.suppressConsole]
    let acts := s.entities.entries.foldl (fun acts e => deleteRef w acts e.2) acts
    { cleared s with acts := acts ++ [.restoreConsole], anim := Animation.shutdown s.anim }

/-! ## Runs -/

/-- One call from the main loop, with the engine as it is then. -/
inductive Op where
  | updateFromWorldSnapshot (w : World) (states : List EntityState) (snapshotTime : ℚ)
  | applyFireEvent (w : World) (netEntityId : UInt32) (currentTime : ℚ)
  | removeEntity (netEntityId : UInt32)
  | tick (fuel : Nat) (w : World) (currentTime : ℚ)
  | shutdown (w : World)

/-- The engine of an operation that looks at it. -/
def Op.world : Op → Option World
  | .updateFromWorldSnapshot w _ _ => some w
  | .applyFireEvent w _ _ => some w
  | .removeEntity _ => none
  | .tick _ w _ => some w
  | .shutdown w => some w

def step (s : Manager) : Op → Option Manager
  | .updateFromWorldSnapshot w states snapshotTime =>
    some (EntityManager.updateFromWorldSnapshot w states snapshotTime s)
  | .applyFireEvent w netEntityId currentTime =>
    some (EntityManager.applyFireEvent w netEntityId currentTime s)
  | .removeEntity netEntityId => some (EntityManager.removeEntity netEntityId s)
  | .tick fuel w currentTime => EntityManager.tick fuel w currentTime s
  | .shutdown w => some (EntityManager.shutdown w s)

def run (s : Manager) (ops : List Op) : Option Manager := ops.foldlM step s

/-! ## What one call does -/

/-- A shot either does nothing or is played on the avatar, between the two console acts. -/
theorem applyFireEvent_cases (w : World) (id : UInt32) (t : ℚ) (s : Manager) :
    applyFireEvent w id t s = s ∨
    ∃ ent sc, s.entities.find? id = some ent ∧ ent.spawned = true ∧
      resolveRefr w s.acts ent.refID = true ∧
      sc = Animation.applyFire s.anim ent.refID t ⟨ent.animState, s.acts ++ [.suppressConsole]⟩ ∧
      applyFireEvent w id t s = { s with
        entities := s.entities.modify id fun ent => { ent with animState := sc.st }
        acts := sc.acts ++ [.restoreConsole] } := by
  unfold applyFireEvent
  split
  · exact .inl rfl
  · rename_i ent hent
    split
    · exact .inl rfl
    · rename_i hsp
      split
      · exact .inl rfl
      · rename_i hfound
        exact .inr ⟨ent, _, hent, by simpa using hsp, by simpa using hfound, rfl, rfl⟩

/-- An entity is queued once more for nothing, is lost when it cannot be placed, or is
placed and configured. -/
theorem spawnEntity_cases (w : World) (s : Manager) (id : UInt32) :
    (spawnEntity w s id = s ∧ ∀ ent, s.entities.find? id = some ent → ent.spawned = true) ∨
    ∃ ent, s.entities.find? id = some ent ∧ ent.spawned = false ∧
      ((∃ more, (∀ a ∈ more, ∃ placed, a = .place placed ∧ ∀ refID, placed ≠ .ref refID) ∧
          spawnEntity w s id =
            { s with acts := s.acts ++ more, entities := s.entities.erase id }) ∨
        ∃ refID, w.placeAtMe s.acts = .ref refID ∧ spawnEntity w s id = { s with
          entities := s.entities.modify id fun ent => { ent with refID := refID, spawned := true }
          acts := configure (s.acts ++ [.place (.ref refID)]) refID ent }) := by
  unfold spawnEntity
  split
  · rename_i hnone
    exact .inl ⟨rfl, by simp [hnone]⟩
  · rename_i ent hent
    split
    · rename_i hsp
      exact .inl ⟨rfl, by simp [hent, hsp]⟩
    · rename_i hsp
      refine .inr ⟨ent, hent, by simpa using hsp, ?_⟩
      split
      · exact .inl ⟨[], by simp, by simp⟩
      · cases hplaced : w.placeAtMe s.acts with
        | failed => exact .inl ⟨[.place .failed], by simp, rfl⟩
        | notARef => exact .inl ⟨[.place .notARef], by simp, rfl⟩
        | ref refID => exact .inr ⟨refID, rfl, rfl⟩

/-- A position is set only on a spawned entity that is not in another cell. -/
theorem positionEntity_cases {fuel : Nat} {w : World} {cell : UInt32} {t : ℚ}
    {interp : Interp.InterpStates FloatVal} {acts acts' : List Act} {ent : RemoteEntity}
    (h : positionEntity fuel w cell t interp acts ent = some acts') :
    acts' = acts ∨ ent.spawned = true ∧ ¬ (cell ≠ 0 ∧ ent.cellId ≠ cell) ∧
      ∃ posX posY posZ rotZ, acts' = runLine acts ent.refID (poseLines posX posY posZ rotZ) := by
  unfold positionEntity at h
  split at h
  · exact .inl (Option.some.inj h).symm
  · rename_i hsp
    split at h
    · exact .inl (Option.some.inj h).symm
    · rename_i hhere
      obtain ⟨state, -, heq⟩ := Option.map_eq_some_iff.mp h
      cases state with
      | none => exact .inl heq.symm
      | some pose =>
        dsimp only at heq
        split at heq
        · exact .inr ⟨by simpa using hsp, hhere, _, _, _, _, heq.symm⟩
        · exact .inl heq.symm

/-- The animation state is applied only to a spawned entity that is not in another cell,
and whose avatar resolves. -/
theorem animateEntity_cases (m : Animation.Module) (w : World) (cell : UInt32) (t : ℚ)
    (acts : List Act) (id : UInt32) (ent : RemoteEntity) :
    animateEntity m w cell t acts id ent = (acts, ent) ∨
    ent.spawned = true ∧ ¬ (cell ≠ 0 ∧ ent.cellId ≠ cell) ∧
      resolveRefr w acts ent.refID = true ∧
      ∃ sc, sc = Animation.applyState m w ent.refID ent.net t ⟨ent.animState, acts⟩ ∧
        animateEntity m w cell t acts id ent = (sc.acts, { ent with animState := sc.st }) := by
  unfold animateEntity
  split
  · exact .inl rfl
  · rename_i hsp
    split
    · exact .inl rfl
    · rename_i hhere
      split
      · exact .inl rfl
      · rename_i hfound
        exact .inr ⟨by simpa using hsp, hhere, by simpa using hfound, _, rfl, rfl⟩

/-! ## What the operations leave alone -/

/-- What every pass of a loop keeps the whole loop keeps. -/
theorem foldl_keeps {σ α β : Type} (g : σ → β) (f : σ → α → σ) (h : ∀ s a, g (f s a) = g s)
    (l : List α) (s : σ) : g (l.foldl f s) = g s := by
  induction l generalizing s with
  | nil => rfl
  | cons a l ih => rw [List.foldl_cons, ih, h]

/-- The pointers set at the start. -/
def settings (s : Manager) : Bool × Bool × Bool × Bool × Bool :=
  (s.script, s.console, s.spawnExpr, s.anim.script, s.anim.console)

theorem updateEntity_keeps (cell : UInt32) (t : ℚ) (s : Manager) (es : EntityState) :
    (settings (updateEntity cell t s es), (updateEntity cell t s es).acts,
      (updateEntity cell t s es).pendingDespawns) = (settings s, s.acts, s.pendingDespawns) := by
  unfold updateEntity
  split
  · split <;> rfl
  · rfl

theorem updateFromWorldSnapshot_keeps (w : World) (states : List EntityState) (t : ℚ)
    (s : Manager) : (settings (updateFromWorldSnapshot w states t s),
      (updateFromWorldSnapshot w states t s).acts,
      (updateFromWorldSnapshot w states t s).pendingDespawns) =
      (settings s, s.acts, s.pendingDespawns) := by
  unfold updateFromWorldSnapshot
  dsimp only
  split
  · rfl
  · exact foldl_keeps (fun s => (settings s, s.acts, s.pendingDespawns)) _
      (updateEntity_keeps _ t) states s

theorem despawnEntity_keeps (w : World) (s : Manager) (id : UInt32) :
    (settings (despawnEntity w s id), (despawnEntity w s id).pendingSpawns) =
      (settings s, s.pendingSpawns) := by
  unfold despawnEntity
  split <;> rfl

theorem despawnPhase_keeps (w : World) (s : Manager) :
    (settings (despawnPhase w s), (despawnPhase w s).pendingSpawns) =
      (settings s, s.pendingSpawns) :=
  foldl_keeps (fun s => (settings s, s.pendingSpawns)) _ (despawnEntity_keeps w) _ s

theorem spawnEntity_keeps (w : World) (s : Manager) (id : UInt32) :
    (settings (spawnEntity w s id), (spawnEntity w s id).pendingDespawns) =
      (settings s, s.pendingDespawns) := by
  obtain ⟨h, -⟩ | ⟨ent, -, -, ⟨more, -, h⟩ | ⟨refID, -, h⟩⟩ := spawnEntity_cases w s id
  · rw [h]
  · rw [h]
    rfl
  · rw [h]
    rfl

theorem spawnPhase_keeps (w : World) (s : Manager) :
    (settings (spawnPhase w s), (spawnPhase w s).pendingDespawns) =
      (settings s, s.pendingDespawns) :=
  foldl_keeps (fun s => (settings s, s.pendingDespawns)) _ (spawnEntity_keeps w) _ s

/-- A tick that passes its guards and has work runs through its four phases. -/
theorem tick_cases {fuel : Nat} {w : World} {t : ℚ} {s s' : Manager}
    (h : tick fuel w t s = some s') :
    (s' = s ∧ (ready w s = false ∨ hasPendingWork s = false)) ∨
    (ready w s = true ∧ hasPendingWork s = true ∧ ∃ mid acts,
      mid = spawnPhase w (despawnPhase w { s with acts := s.acts ++ [.suppressConsole] }) ∧
      positionLoop fuel w (getLocalPlayerCellID w) t mid.interp mid.entities.entries mid.acts =
        some acts ∧
      s' = { animationPhase w t { mid with acts := acts } with
        acts := (animationPhase w t { mid with acts := acts }).acts ++ [.restoreConsole] }) := by
  unfold tick at h
  split at h
  · rename_i hready
    exact .inl ⟨(Option.some.inj h).symm, .inl hready⟩
  · rename_i hready
    split at h
    · rename_i hidle
      exact .inl ⟨(Option.some.inj h).symm, .inr hidle⟩
    · rename_i hwork
      obtain ⟨mid, hpos, rfl⟩ := Option.map_eq_some_iff.mp h
      obtain ⟨acts, hloop, rfl⟩ := Option.map_eq_some_iff.mp hpos
      exact .inr ⟨by simpa using hready, by simpa using hwork, _, acts, rfl, hloop, rfl⟩

theorem tick_idle {fuel : Nat} {w : World} {t : ℚ} {s s' : Manager}
    (hidle : ready w s = false ∨ hasPendingWork s = false) (h : tick fuel w t s = some s') :
    s' = s := by
  obtain ⟨rfl, -⟩ | ⟨hready, hwork, -⟩ := tick_cases h
  · rfl
  · simp [hready, hwork] at hidle

theorem tick_settings {fuel : Nat} {w : World} {t : ℚ} {s s' : Manager}
    (h : tick fuel w t s = some s') : settings s' = settings s := by
  obtain ⟨rfl, -⟩ | ⟨-, -, mid, acts, rfl, -, rfl⟩ := tick_cases h
  · rfl
  · exact (Prod.mk.inj (spawnPhase_keeps w _)).1.trans (Prod.mk.inj (despawnPhase_keeps w _)).1

theorem step_settings {s s' : Manager} {op : Op} (h : step s op = some s') :
    settings s' = settings s := by
  cases op with
  | updateFromWorldSnapshot w states t =>
    cases h
    exact (Prod.mk.inj (updateFromWorldSnapshot_keeps w states t s)).1
  | applyFireEvent w id t =>
    cases h
    obtain h | ⟨ent, sc, -, -, -, -, h⟩ := applyFireEvent_cases w id t s
    · rw [h]
    · rw [h]
      rfl
  | removeEntity id =>
    cases h
    simp only [EntityManager.removeEntity]
    split <;> rfl
  | tick fuel w t => exact tick_settings h
  | shutdown w =>
    cases h
    simp only [EntityManager.shutdown]
    split <;> rfl

/-- A property every operation keeps holds after every run. -/
theorem run_invariant (P : Manager → Prop) (ops : List Op)
    (hstep : ∀ s op s', op ∈ ops → P s → step s op = some s' → P s') {s s' : Manager} (h : P s)
    (hrun : run s ops = some s') : P s' := by
  induction ops generalizing s with
  | nil =>
    cases hrun
    exact h
  | cons op ops ih =>
    obtain ⟨mid, hmid, hrest⟩ := Option.bind_eq_some_iff.mp hrun
    exact ih (fun s op s' hmem => hstep s op s' (List.mem_cons_of_mem _ hmem))
      (hstep s op mid List.mem_cons_self h hmid) hrest

end Fnvmp.EntityManager
