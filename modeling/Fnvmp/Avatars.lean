import Fnvmp.AnimationEffects
import Fnvmp.Custody
import Fnvmp.EntityManager

/-!
# Every NPC has exactly one owner

The entity manager keeps a ledger of references: `PlaceAtMe` acquires one under an
entity, `Disable` with `MarkForDelete` releases it. Each operation is a number of steps
of that ledger, so each NPC ever placed belongs to one entity or was deleted once.
-/

namespace Fnvmp.EntityManager

open ExactFloat Engine Protocol Animation

/-- The reference of a spawned entity. -/
def avatar (entities : Entities) (id : UInt32) : Option UInt32 :=
  (entities.find? id).bind fun ent => if ent.refID = 0 then none else some ent.refID

/-- Entities hold references, and a `MarkForDelete` releases one. -/
def ledger (entities : Entities) (acts : List Act) : Custody.Ledger UInt32 UInt32 where
  holder := avatar entities
  acquired := placedRefs acts
  released := fun r => (linesTo r acts).count .markForDelete

/-- What holds while the ids in `queue` are still to be spawned. -/
structure Tidy (queue : List UInt32) (entities : Entities) (acts : List Act) : Prop where
  marked : ∀ id ent, entities.find? id = some ent → (ent.spawned = true ↔ ent.refID ≠ 0)
  queued : ∀ id ent, entities.find? id = some ent → ent.spawned = false → id ∈ queue
  paired : ∀ r, (linesTo r acts).count .disable = (linesTo r acts).count .markForDelete
  sound : Custody.Sound (ledger entities acts)

/-- The two of an entity that the ledger depends on. -/
def SameRef (ent ent' : RemoteEntity) : Prop :=
  ent'.refID = ent.refID ∧ ent'.spawned = ent.spawned

theorem avatar_same {entities entities' : Entities}
    (h : ∀ id, Option.Rel SameRef (entities.find? id) (entities'.find? id)) :
    avatar entities' = avatar entities := by
  funext id
  have hid := h id
  unfold avatar
  cases hid' : entities.find? id <;> cases hid'' : entities'.find? id <;>
    simp only [hid', hid''] at hid <;> cases hid
  · rfl
  · rename_i hsame
    simp [hsame.1]

theorem sameRef_modify (entities : Entities) (id : UInt32) {f : RemoteEntity → RemoteEntity}
    (hf : ∀ ent, SameRef ent (f ent)) (id' : UInt32) :
    Option.Rel SameRef (entities.find? id') ((entities.modify id f).find? id') := by
  rw [OrderedMap.find?_modify]
  cases entities.find? id' with
  | none =>
    split
    · exact .none
    · exact .none
  | some ent =>
    split
    · exact .some (hf ent)
    · exact .some ⟨rfl, rfl⟩

/-- Acts that neither place nor delete. -/
structure Harmless (acts : List Act) : Prop where
  places : placedRefs acts = []
  deletes : ∀ r, ∀ l ∈ linesTo r acts, l ≠ .disable ∧ l ≠ .markForDelete

theorem harmless_console (a : Act) (h : a = .suppressConsole ∨ a = .restoreConsole) :
    Harmless [a] := by
  rcases h with rfl | rfl
  · exact ⟨rfl, by simp [linesTo, Act.linesTo]⟩
  · exact ⟨rfl, by simp [linesTo, Act.linesTo]⟩

theorem harmless_nil : Harmless [] := ⟨rfl, by simp⟩

theorem harmless_places {more : List Act}
    (h : ∀ a ∈ more, ∃ placed, a = .place placed ∧ ∀ refID, placed ≠ .ref refID) :
    Harmless more where
  places := by
    refine List.filterMap_eq_nil_iff.mpr fun a ha => ?_
    obtain ⟨placed, rfl, hnone⟩ := h a ha
    cases placed with
    | failed => rfl
    | notARef => rfl
    | ref refID => exact absurd rfl (hnone refID)
  deletes := by
    intro r l hl
    obtain ⟨a, ha, hla⟩ := List.mem_flatMap.mp hl
    obtain ⟨placed, rfl, -⟩ := h a ha
    cases hla

theorem harmless_drives {P : Line → Prop} (refID : UInt32) {acts : List Act}
    (h : ∀ a ∈ acts, DrivesBy P refID a) (hP : ∀ l, P l → l ≠ .disable ∧ l ≠ .markForDelete) :
    Harmless acts := by
  refine ⟨placedRefs_drives h, fun r l hl => ?_⟩
  by_cases hr : r = refID
  · subst hr
    exact hP l (lines_of_drives h l hl)
  · rw [linesTo_other hr h] at hl
    cases hl

theorem Harmless.append {acts acts' : List Act} (h : Harmless acts) (h' : Harmless acts') :
    Harmless (acts ++ acts') where
  places := by simp [h.places, h'.places]
  deletes := by
    intro r l hl
    rw [linesTo_append] at hl
    exact (List.mem_append.mp hl).elim (h.deletes r l) (h'.deletes r l)

theorem Harmless.count {more : List Act} (h : Harmless more) (acts : List Act) (r : UInt32) :
    (linesTo r (acts ++ more)).count .disable = (linesTo r acts).count .disable ∧
    (linesTo r (acts ++ more)).count .markForDelete =
      (linesTo r acts).count .markForDelete := by
  have hd : (linesTo r more).count .disable = 0 :=
    List.count_eq_zero.mpr fun hl => (h.deletes r _ hl).1 rfl
  have hm : (linesTo r more).count .markForDelete = 0 :=
    List.count_eq_zero.mpr fun hl => (h.deletes r _ hl).2 rfl
  simp [hd, hm]

theorem Harmless.ledger {more : List Act} (h : Harmless more) (entities : Entities)
    (acts : List Act) : ledger entities (acts ++ more) = ledger entities acts := by
  simp only [EntityManager.ledger, placedRefs_append, h.places, List.append_nil, (h.count acts _).2]

section
variable {queue : List UInt32} {entities : Entities} {acts : List Act}

/-! ## Marks -/

/-- Spawned entities have a reference, and the others are queued. -/
structure Marked (queue : List UInt32) (entities : Entities) : Prop where
  marked : ∀ id ent, entities.find? id = some ent → (ent.spawned = true ↔ ent.refID ≠ 0)
  queued : ∀ id ent, entities.find? id = some ent → ent.spawned = false → id ∈ queue

/-- Changes to anything but references and the flag. -/
theorem Marked.same (h : Marked queue entities) (entities' : Entities)
    (hsame : ∀ id, Option.Rel SameRef (entities.find? id) (entities'.find? id)) :
    Marked queue entities' := by
  have old : ∀ id ent', entities'.find? id = some ent' →
      ∃ ent, entities.find? id = some ent ∧ SameRef ent ent' := by
    intro id ent' he'
    have hid := hsame id
    rw [he'] at hid
    cases he : entities.find? id with
    | none => rw [he] at hid; cases hid
    | some ent =>
      rw [he] at hid
      cases hid
      rename_i hr
      exact ⟨ent, rfl, hr⟩
  refine ⟨fun id ent' he' => ?_, fun id ent' he' hnot => ?_⟩
  · obtain ⟨ent, he, href, hsp⟩ := old id ent' he'
    rw [href, hsp]
    exact h.marked id ent he
  · obtain ⟨ent, he, -, hsp⟩ := old id ent' he'
    exact h.queued id ent he (hsp ▸ hnot)

theorem Marked.dequeue {id : UInt32} (h : Marked (id :: queue) entities)
    (hid : ∀ ent, entities.find? id = some ent → ent.spawned = true) : Marked queue entities where
  marked := h.marked
  queued := by
    intro id' ent he hnot
    rcases List.mem_cons.mp (h.queued id' ent he hnot) with rfl | hmem
    · rw [hid ent he] at hnot
      cases hnot
    · exact hmem

/-- A new entity has no reference and is queued. -/
theorem Marked.track (h : Marked queue entities) (id : UInt32) {ent : RemoteEntity}
    (href : ent.refID = 0) (hsp : ent.spawned = false) :
    Marked (queue ++ [id]) (entities.insert id ent) := by
  refine ⟨fun id' ent' he => ?_, fun id' ent' he hnot => ?_⟩
  · rw [OrderedMap.find?_insert] at he
    split at he
    · cases he
      simp [href, hsp]
    · exact h.marked id' ent' he
  · rw [OrderedMap.find?_insert] at he
    split at he
    · rename_i heq
      simp [heq]
    · exact List.mem_append_left _ (h.queued id' ent' he hnot)

theorem Marked.erase (h : Marked queue entities) (id : UInt32) :
    Marked queue (entities.erase id) := by
  have old : ∀ id' ent, (entities.erase id).find? id' = some ent →
      entities.find? id' = some ent := by
    intro id' ent he
    rw [OrderedMap.find?_erase] at he
    split at he
    · cases he
    · exact he
  exact ⟨fun id' ent he => h.marked id' ent (old id' ent he),
    fun id' ent he => h.queued id' ent (old id' ent he)⟩

theorem Marked.place {id refID : UInt32} (h : Marked (id :: queue) entities) (href : refID ≠ 0) :
    Marked queue (entities.modify id fun ent => { ent with refID := refID, spawned := true }) := by
  refine ⟨fun id' ent' he => ?_, fun id' ent' he hnot => ?_⟩
  · rw [OrderedMap.find?_modify] at he
    split at he
    · obtain ⟨old, -, rfl⟩ := Option.map_eq_some_iff.mp he
      simp [href]
    · exact h.marked id' ent' he
  · rw [OrderedMap.find?_modify] at he
    split at he
    · obtain ⟨old, -, rfl⟩ := Option.map_eq_some_iff.mp he
      cases hnot
    · rename_i hne
      exact (List.mem_cons.mp (h.queued id' ent' he hnot)).resolve_left hne

theorem Marked.vacant (h : Marked queue entities) {id : UInt32} {ent : RemoteEntity}
    (hid : entities.find? id = some ent) (hsp : ent.spawned = false) :
    avatar entities id = none := by
  have hzero : ent.refID = 0 := by
    by_contra hne
    rw [(h.marked id ent hid).mpr hne] at hsp
    cases hsp
  simp [avatar, hid, hzero]

/-! ## The ledger -/

theorem ledger_same {entities' : Entities}
    (hsame : ∀ id, Option.Rel SameRef (entities.find? id) (entities'.find? id)) :
    ledger entities' acts = ledger entities acts := by
  simp only [ledger, avatar_same hsame]

theorem ledger_track {id : UInt32} {ent : RemoteEntity} (hnew : entities.find? id = none)
    (href : ent.refID = 0) : ledger (entities.insert id ent) acts = ledger entities acts := by
  simp only [ledger]
  congr 1
  funext id'
  unfold avatar
  rw [OrderedMap.find?_insert]
  split
  · rename_i heq
    simp [heq, hnew, href]
  · rfl

theorem avatar_erase (entities : Entities) (id : UInt32) :
    avatar (entities.erase id) = Function.update (avatar entities) id none := by
  funext id'
  unfold avatar
  rw [OrderedMap.find?_erase, Function.update_apply]
  split <;> rfl

theorem ledger_erase {id : UInt32} (hvacant : avatar entities id = none) :
    ledger (entities.erase id) acts = ledger entities acts := by
  simp only [ledger, avatar_erase]
  rw [← hvacant, Function.update_eq_self]

theorem deleteRef_lines {w : World} {ent : RemoteEntity}
    (hresolve : resolveRefr w acts ent.refID = true) (r : UInt32) :
    linesTo r (deleteRef w acts ent) =
      linesTo r acts ++ if r = ent.refID then [.disable, .markForDelete] else [] := by
  rw [deleteRef, if_pos hresolve]
  by_cases hr : r = ent.refID
  · simp [runLine, linesTo, Act.linesTo, hr]
  · simp [runLine, linesTo, Act.linesTo, hr, Ne.symm hr]

/-- The two commands that delete a reference release it. -/
theorem ledger_delete {w : World} {id : UInt32} {ent : RemoteEntity}
    (hresolve : resolveRefr w acts ent.refID = true) :
    ledger (entities.erase id) (deleteRef w acts ent) =
      Custody.release (ledger entities acts) id ent.refID := by
  simp only [ledger, Custody.release, avatar_erase, deleteRef_lines hresolve]
  congr 1
  · simp [deleteRef, hresolve, runLine, placedRefs, Act.placed]
  · funext r
    rw [Function.update_apply]
    split
    · rename_i hr
      rw [hr, List.count_append]
      rfl
    · simp

theorem configure_harmless (acts : List Act) (refID : UInt32) (ent : RemoteEntity) :
    ∃ more, configure acts refID ent = acts ++ more ∧ Harmless more := by
  refine ⟨_, by simp only [configure, runLine, List.append_assoc]; rfl, ?_⟩
  refine harmless_drives (P := fun l => l ≠ .disable ∧ l ≠ .markForDelete) refID ?_
    fun _ hl => hl
  simp [DrivesBy, poseLines]

theorem avatar_modify (entities : Entities) {id refID : UInt32} {ent : RemoteEntity}
    {f : RemoteEntity → RemoteEntity} (hid : entities.find? id = some ent)
    (hf : (f ent).refID = refID) (href : refID ≠ 0) :
    avatar (entities.modify id f) = Function.update (avatar entities) id (some refID) := by
  funext id'
  unfold avatar
  rw [OrderedMap.find?_modify, Function.update_apply]
  split
  · rename_i heq
    simp [heq, hid, hf, href]
  · rfl

/-- Acts that put nothing on any reference. -/
theorem linesTo_place (acts : List Act) (placed : Placed) (r : UInt32) :
    linesTo r (acts ++ [.place placed]) = linesTo r acts := by
  simp [linesTo, Act.linesTo]

/-- A reference that was placed is acquired under its entity. -/
theorem ledger_place {id refID : UInt32} {ent : RemoteEntity}
    (hid : entities.find? id = some ent) (href : refID ≠ 0) :
    ledger (entities.modify id fun ent => { ent with refID := refID, spawned := true })
        (configure (acts ++ [.place (.ref refID)]) refID ent) =
      Custody.acquire (ledger entities acts) id refID := by
  obtain ⟨more, hacts, hmore⟩ := configure_harmless (acts ++ [.place (.ref refID)]) refID ent
  have havatar : avatar (entities.modify id fun ent =>
      { ent with refID := refID, spawned := true }) =
        Function.update (avatar entities) id (some refID) := avatar_modify entities hid rfl href
  rw [hacts, hmore.ledger]
  simp only [ledger, Custody.acquire, linesTo_place, havatar]
  simp [placedRefs, Act.placed]

/-! ## Tidiness -/

theorem Tidy.marks (h : Tidy queue entities acts) : Marked queue entities := ⟨h.marked, h.queued⟩

theorem Tidy.of (h : Marked queue entities)
    (hpaired : ∀ r, (linesTo r acts).count .disable = (linesTo r acts).count .markForDelete)
    (hsound : Custody.Sound (ledger entities acts)) : Tidy queue entities acts :=
  ⟨h.marked, h.queued, hpaired, hsound⟩

theorem Tidy.harmless (h : Tidy queue entities acts) {more : List Act} (hmore : Harmless more) :
    Tidy queue entities (acts ++ more) where
  marked := h.marked
  queued := h.queued
  paired := fun r => by rw [(hmore.count acts r).1, (hmore.count acts r).2, h.paired r]
  sound := by rw [hmore.ledger]; exact h.sound

theorem Tidy.same (h : Tidy queue entities acts) (entities' : Entities)
    (hsame : ∀ id, Option.Rel SameRef (entities.find? id) (entities'.find? id)) :
    Tidy queue entities' acts :=
  .of (h.marks.same entities' hsame) h.paired (by rw [ledger_same hsame]; exact h.sound)

/-- The two commands that delete a reference release it. -/
theorem Tidy.delete (h : Tidy queue entities acts) {w : World} (hw : w.Honest) {id : UInt32}
    {ent : RemoteEntity} (hid : entities.find? id = some ent) :
    Tidy queue (entities.erase id) (deleteRef w acts ent) ∧
      Custody.Steps (ledger entities acts) (ledger (entities.erase id) (deleteRef w acts ent)) := by
  by_cases href : ent.refID = 0
  · have hnone : deleteRef w acts ent = acts := by simp [deleteRef, resolveRefr, href]
    have hledger : ledger (entities.erase id) acts = ledger entities acts :=
      ledger_erase (by simp [avatar, hid, href])
    rw [hnone, hledger]
    exact ⟨.of (h.marks.erase id) h.paired (by rw [hledger]; exact h.sound), .refl⟩
  · have hholder : (ledger entities acts).holder id = some ent.refID := by
      simp [ledger, avatar, hid, href]
    obtain ⟨hplaced, hcount⟩ := h.sound.held id ent.refID hholder
    have hresolve : resolveRefr w acts ent.refID = true := by
      simp [resolveRefr, href, hw.finds acts ent.refID hplaced (List.count_eq_zero.mp hcount)]
    rw [ledger_delete hresolve]
    refine ⟨.of (h.marks.erase id) (fun r => ?_) ?_, .single (.release id ent.refID hholder)⟩
    · rw [deleteRef_lines hresolve, List.count_append, List.count_append, h.paired r]
      split <;> rfl
    · rw [ledger_delete hresolve]
      exact Custody.sound_release h.sound hholder

/-- A fresh reference is acquired under its entity. -/
theorem Tidy.place {id : UInt32} (h : Tidy (id :: queue) entities acts) {ent : RemoteEntity}
    (hid : entities.find? id = some ent) (hsp : ent.spawned = false) {refID : UInt32}
    (href : refID ≠ 0) (hfresh : refID ∉ placedRefs acts) :
    let entities' := entities.modify id fun ent => { ent with refID := refID, spawned := true }
    let acts' := configure (acts ++ [.place (.ref refID)]) refID ent
    Tidy queue entities' acts' ∧
      Custody.Steps (ledger entities acts) (ledger entities' acts') := by
  intro entities' acts'
  have hledger : ledger entities' acts' = Custody.acquire (ledger entities acts) id refID :=
    ledger_place hid href
  have hvacant := h.marks.vacant hid hsp
  rw [hledger]
  refine ⟨.of (h.marks.place href) (fun r => ?_) ?_, .single (.acquire id refID hvacant hfresh)⟩
  · obtain ⟨more, hacts, hmore⟩ := configure_harmless (acts ++ [.place (.ref refID)]) refID ent
    simp only [acts', hacts]
    rw [(hmore.count _ r).1, (hmore.count _ r).2, linesTo_place, h.paired r]
  · rw [hledger]
    exact Custody.sound_acquire h.sound hvacant hfresh

end

/-! ## Operations -/

/-- The rules by which the operations keep a property of the queue, the entities and the
trace, whatever worlds of the class `W` they run in. -/
structure Upkeep (W : World → Prop) (P : List UInt32 → Entities → List Act → Prop) : Prop where
  quiet : ∀ {queue entities acts more}, P queue entities acts → Harmless more →
    P queue entities (acts ++ more)
  same : ∀ {queue entities acts} (entities' : Entities), P queue entities acts →
    (∀ id, Option.Rel SameRef (entities.find? id) (entities'.find? id)) → P queue entities' acts
  track : ∀ {queue entities acts} id {ent : RemoteEntity}, P queue entities acts →
    entities.find? id = none → ent.refID = 0 → ent.spawned = false →
    P (queue ++ [id]) (entities.insert id ent) acts
  dequeue : ∀ {queue entities acts id}, P (id :: queue) entities acts →
    (∀ ent, entities.find? id = some ent → ent.spawned = true) → P queue entities acts
  forget : ∀ {queue entities acts id ent}, P queue entities acts → entities.find? id = some ent →
    ent.spawned = false → P queue (entities.erase id) acts
  delete : ∀ {w queue entities acts id ent}, W w → P queue entities acts →
    entities.find? id = some ent → P queue (entities.erase id) (deleteRef w acts ent)
  place : ∀ {w queue entities acts id ent refID}, W w → P (id :: queue) entities acts →
    entities.find? id = some ent → ent.spawned = false → w.placeAtMe acts = .ref refID →
    P queue (entities.modify id fun ent => { ent with refID := refID, spawned := true })
      (configure (acts ++ [.place (.ref refID)]) refID ent)

theorem poseLines_harmless (acts : List Act) (refID : UInt32) (x y z r : FloatVal) :
    ∃ more, runLine acts refID (poseLines x y z r) = acts ++ more ∧ Harmless more := by
  refine ⟨_, rfl, harmless_drives (P := fun l => l ≠ .disable ∧ l ≠ .markForDelete)
    refID ?_ fun _ hl => hl⟩
  simp [DrivesBy, poseLines]

theorem positionLoop_harmless (fuel : Nat) (w : World) (cell : UInt32) (t : ℚ)
    (interp : Interp.InterpStates FloatVal) (l : List (UInt32 × RemoteEntity))
    {acts acts' : List Act} (h : positionLoop fuel w cell t interp l acts = some acts') :
    ∃ more, acts' = acts ++ more ∧ Harmless more := by
  induction l generalizing acts with
  | nil =>
    cases h
    exact ⟨[], by simp, harmless_nil⟩
  | cons e l ih =>
    obtain ⟨mid, hmid, hrest⟩ := Option.bind_eq_some_iff.mp h
    obtain ⟨more', rfl, hmore'⟩ := ih hrest
    have hone : ∃ more, mid = acts ++ more ∧ Harmless more := by
      obtain rfl | ⟨-, -, x, y, z, rotZ, rfl⟩ := positionEntity_cases hmid
      · exact ⟨[], by simp, harmless_nil⟩
      · exact poseLines_harmless acts e.2.refID x y z rotZ
    obtain ⟨more, rfl, hmore⟩ := hone
    exact ⟨more ++ more', by simp, hmore.append hmore'⟩

theorem animateEntity_harmless (m : Module) (w : World) (cell : UInt32) (t : ℚ) (acts : List Act)
    (id : UInt32) (ent : RemoteEntity) :
    (∃ more, (animateEntity m w cell t acts id ent).1 = acts ++ more ∧ Harmless more) ∧
      SameRef ent (animateEntity m w cell t acts id ent).2 := by
  obtain h | ⟨-, -, -, sc, hsc, h⟩ := animateEntity_cases m w cell t acts id ent
  · rw [h]
    exact ⟨⟨[], by simp, harmless_nil⟩, rfl, rfl⟩
  · obtain ⟨more, hacts, hmore⟩ := applyState_adds m w ent.refID ent.net t ⟨ent.animState, acts⟩
    rw [h, hsc]
    refine ⟨⟨more, hacts, harmless_drives _ hmore ?_⟩, rfl, rfl⟩
    rintro l ((rfl | ⟨_, _, rfl⟩) | ⟨b, rfl | rfl | rfl | rfl⟩) <;> simp

section
variable {W : World → Prop} {P : List UInt32 → Entities → List Act → Prop}

theorem updateEntity_upkeep (hP : Upkeep W P) (localCellId : UInt32) (snapshotTime : ℚ)
    (s : Manager) (es : EntityState) (h : P s.pendingSpawns s.entities s.acts) :
    P (updateEntity localCellId snapshotTime s es).pendingSpawns
      (updateEntity localCellId snapshotTime s es).entities
      (updateEntity localCellId snapshotTime s es).acts := by
  unfold updateEntity
  split
  · rename_i hnew
    split
    · exact h
    · exact hP.track es.netEntityId h hnew rfl rfl
  · exact hP.same _ h (sameRef_modify s.entities es.netEntityId
      (f := fun ent => { ent with cellId := es.cellId, net := EntityState.net es })
      fun _ => ⟨rfl, rfl⟩)

theorem updateFromWorldSnapshot_upkeep (hP : Upkeep W P) (w : World) (states : List EntityState)
    (snapshotTime : ℚ) (s : Manager) (h : P s.pendingSpawns s.entities s.acts) :
    P (updateFromWorldSnapshot w states snapshotTime s).pendingSpawns
      (updateFromWorldSnapshot w states snapshotTime s).entities
      (updateFromWorldSnapshot w states snapshotTime s).acts := by
  unfold updateFromWorldSnapshot
  dsimp only
  split
  · exact h
  · rename_i hcell
    clear hcell
    induction states generalizing s with
    | nil => exact h
    | cons es states ih =>
      exact ih _ (updateEntity_upkeep hP (getLocalPlayerCellID w) snapshotTime s es h)

/-- A shot changes no reference, and only drives the avatar. -/
theorem applyFireEvent_quiet (w : World) (id : UInt32) (currentTime : ℚ) (s : Manager) :
    (applyFireEvent w id currentTime s).pendingSpawns = s.pendingSpawns ∧
    (∀ id', Option.Rel SameRef (s.entities.find? id')
      ((applyFireEvent w id currentTime s).entities.find? id')) ∧
    ∃ more, (applyFireEvent w id currentTime s).acts = s.acts ++ more ∧ Harmless more := by
  have hself : ∀ id', Option.Rel SameRef (s.entities.find? id') (s.entities.find? id') := by
    intro id'
    cases s.entities.find? id' with
    | none => exact .none
    | some ent => exact .some ⟨rfl, rfl⟩
  obtain h | ⟨ent, sc, -, -, -, hsc, h⟩ := applyFireEvent_cases w id currentTime s
  · rw [h]
    exact ⟨rfl, hself, [], by simp, harmless_nil⟩
  · obtain ⟨more, hacts, hmore⟩ := applyFire_adds s.anim ent.refID currentTime
      ⟨ent.animState, s.acts ++ [.suppressConsole]⟩
    have hharmless : Harmless ([.suppressConsole] ++ more ++ [.restoreConsole]) :=
      ((harmless_console _ (.inl rfl)).append (harmless_drives _ hmore (by
        rintro l (rfl | ⟨_, _, rfl⟩) <;> simp))).append (harmless_console _ (.inr rfl))
    rw [h]
    refine ⟨rfl, sameRef_modify s.entities id (fun _ => ⟨rfl, rfl⟩), _, ?_, hharmless⟩
    simp only [hsc, hacts, List.append_assoc]

theorem applyFireEvent_upkeep (hP : Upkeep W P) (w : World) (id : UInt32) (currentTime : ℚ)
    (s : Manager) (h : P s.pendingSpawns s.entities s.acts) :
    P (applyFireEvent w id currentTime s).pendingSpawns
      (applyFireEvent w id currentTime s).entities (applyFireEvent w id currentTime s).acts := by
  obtain ⟨hqueue, hsame, more, hacts, hmore⟩ := applyFireEvent_quiet w id currentTime s
  rw [hqueue, hacts]
  exact hP.same _ (hP.quiet h hmore) hsame

theorem despawnEntity_upkeep (hP : Upkeep W P) {w : World} (hw : W w) {queue : List UInt32}
    (s : Manager) (id : UInt32) (h : P queue s.entities s.acts) :
    P queue (despawnEntity w s id).entities (despawnEntity w s id).acts := by
  unfold despawnEntity
  split
  · exact h
  · rename_i ent hid
    exact hP.delete hw h hid

theorem despawnPhase_upkeep (hP : Upkeep W P) {w : World} (hw : W w) {queue : List UInt32}
    (s : Manager) (h : P queue s.entities s.acts) :
    P queue (despawnPhase w s).entities (despawnPhase w s).acts := by
  have hfold : ∀ (ids : List UInt32) (s : Manager), P queue s.entities s.acts →
      P queue (ids.foldl (despawnEntity w) s).entities (ids.foldl (despawnEntity w) s).acts := by
    intro ids
    induction ids with
    | nil => exact fun s h => h
    | cons id ids ih => exact fun s h => ih _ (despawnEntity_upkeep hP hw s id h)
  exact hfold s.pendingDespawns s h

theorem spawnEntity_upkeep (hP : Upkeep W P) {w : World} (hw : W w) (queue : List UInt32)
    (s : Manager) (id : UInt32) (h : P (id :: queue) s.entities s.acts) :
    P queue (spawnEntity w s id).entities (spawnEntity w s id).acts := by
  obtain ⟨heq, hsp⟩ | ⟨ent, hid, hsp, ⟨more, hmore, heq⟩ | ⟨refID, hplaced, heq⟩⟩ :=
    spawnEntity_cases w s id
  · rw [heq]
    exact hP.dequeue h hsp
  · rw [heq]
    have hgone : P queue (s.entities.erase id) s.acts := hP.dequeue (hP.forget h hid hsp) (by simp)
    exact hP.quiet hgone (harmless_places hmore)
  · rw [heq]
    exact hP.place hw h hid hsp hplaced

theorem spawnPhase_upkeep (hP : Upkeep W P) {w : World} (hw : W w) (s : Manager)
    (h : P s.pendingSpawns s.entities s.acts) :
    P [] (spawnPhase w s).entities (spawnPhase w s).acts := by
  have hfold : ∀ (queue : List UInt32) (s : Manager), P queue s.entities s.acts →
      P [] (queue.foldl (spawnEntity w) s).entities (queue.foldl (spawnEntity w) s).acts := by
    intro queue
    induction queue with
    | nil => exact fun s h => h
    | cons id queue ih => exact fun s h => ih _ (spawnEntity_upkeep hP hw queue s id h)
  exact hfold s.pendingSpawns s h

theorem animationPhase_upkeep (hP : Upkeep W P) (w : World) (t : ℚ) (s : Manager)
    {queue : List UInt32} (h : P queue s.entities s.acts) :
    P queue (animationPhase w t s).entities (animationPhase w t s).acts := by
  obtain ⟨⟨more, hacts, hmore⟩, hsame⟩ := OrderedMap.sweep_rule
    (P := fun acts => ∃ more, acts = s.acts ++ more ∧ Harmless more) (R := fun _ => SameRef)
    (animateEntity s.anim w (getLocalPlayerCellID w) t) s.entities
    (s := s.acts) ⟨[], by simp, harmless_nil⟩
    (by
      rintro acts id ent - ⟨more, rfl, hmore⟩
      obtain ⟨⟨more', hacts', hmore'⟩, href⟩ :=
        animateEntity_harmless s.anim w (getLocalPlayerCellID w) t (s.acts ++ more) id ent
      exact ⟨⟨more ++ more', by rw [hacts', List.append_assoc], hmore.append hmore'⟩, href⟩)
  unfold animationPhase
  dsimp only
  rw [hacts]
  exact hP.same _ (hP.quiet h hmore) hsame

theorem tick_upkeep (hP : Upkeep W P) {fuel : Nat} {w : World} (hw : W w) {t : ℚ}
    {s s' : Manager} (h : P s.pendingSpawns s.entities s.acts) (ht : tick fuel w t s = some s') :
    P s'.pendingSpawns s'.entities s'.acts := by
  obtain ⟨rfl, -⟩ | ⟨-, -, mid, acts, rfl, hloop, rfl⟩ := tick_cases ht
  · exact h
  · let s₀ : Manager := { s with acts := s.acts ++ [.suppressConsole] }
    have h₀ : P s.pendingSpawns s₀.entities s₀.acts :=
      hP.quiet h (harmless_console _ (.inl rfl))
    have hqueue : (despawnPhase w s₀).pendingSpawns = s.pendingSpawns :=
      (Prod.mk.inj (despawnPhase_keeps w s₀)).2
    have hspawn := spawnPhase_upkeep hP hw (despawnPhase w s₀)
      (by rw [hqueue]; exact despawnPhase_upkeep hP hw s₀ h₀)
    obtain ⟨more, rfl, hmore⟩ := positionLoop_harmless fuel w _ t _ _ hloop
    have hposition := hP.quiet hspawn hmore
    let s₁ : Manager := { spawnPhase w (despawnPhase w s₀) with
      acts := (spawnPhase w (despawnPhase w s₀)).acts ++ more }
    have hanimate := animationPhase_upkeep hP w t s₁ hposition
    exact hP.quiet hanimate (harmless_console .restoreConsole (.inr rfl))

end

theorem idle_queues {s : Manager} (h : hasPendingWork s = false) :
    s.pendingSpawns = [] ∧ s.pendingDespawns = [] := by
  simp only [hasPendingWork, Bool.or_eq_false_iff, Bool.not_eq_false', List.isEmpty_iff] at h
  exact h.1

/-- A tick that passes its guards empties both queues. -/
theorem tick_queues {fuel : Nat} {w : World} {t : ℚ} {s s' : Manager}
    (hready : ready w s = true) (ht : tick fuel w t s = some s') :
    s'.pendingSpawns = [] ∧ s'.pendingDespawns = [] := by
  obtain ⟨rfl, hidle⟩ | ⟨-, -, mid, acts, rfl, -, rfl⟩ := tick_cases ht
  · exact idle_queues (hidle.resolve_left (by simp [hready]))
  · exact ⟨rfl, (Prod.mk.inj (spawnPhase_keeps w _)).2⟩

/-! ## Owners -/

/-- The ledger of a manager. -/
def custody (s : Manager) : Custody.Ledger UInt32 UInt32 := ledger s.entities s.acts

/-- The invariant between two operations. -/
structure Owns (s : Manager) : Prop where
  tidy : Tidy s.pendingSpawns s.entities s.acts
  idle : s.console = false → placedRefs s.acts = []

/-- Tidiness with some queue, kept on the way from `s` to `s'` by steps of the ledger. -/
def Advances (s : Manager) (queue' : List UInt32) (s' : Manager) : Prop :=
  Tidy queue' s'.entities s'.acts ∧ Custody.Steps (custody s) (custody s')

/-- In an honest world all that happens are steps of the ledger. -/
theorem tidy_upkeep (l : Custody.Ledger UInt32 UInt32) : Upkeep World.Honest
    fun queue entities acts => Tidy queue entities acts ∧
      Custody.Steps l (ledger entities acts) where
  quiet h hmore := ⟨h.1.harmless hmore, by rw [hmore.ledger]; exact h.2⟩
  same entities' h hsame := ⟨h.1.same entities' hsame, by rw [ledger_same hsame]; exact h.2⟩
  track id _ h hnew href hsp :=
    ⟨.of (h.1.marks.track id href hsp) h.1.paired (by rw [ledger_track hnew href]; exact h.1.sound),
      by rw [ledger_track hnew href]; exact h.2⟩
  dequeue h hid := ⟨.of (h.1.marks.dequeue hid) h.1.paired h.1.sound, h.2⟩
  forget h hid hsp := by
    have hvacant := h.1.marks.vacant hid hsp
    exact ⟨.of (h.1.marks.erase _) h.1.paired (by rw [ledger_erase hvacant]; exact h.1.sound),
      by rw [ledger_erase hvacant]; exact h.2⟩
  delete hw h hid := by
    obtain ⟨htidy, hsteps⟩ := h.1.delete hw hid
    exact ⟨htidy, h.2.trans hsteps⟩
  place hw h hid hsp hplaced := by
    obtain ⟨href, hfresh⟩ := hw.fresh _ _ hplaced
    obtain ⟨htidy, hsteps⟩ := h.1.place hid hsp href hfresh
    exact ⟨htidy, h.2.trans hsteps⟩

theorem tick_advances {fuel : Nat} {w : World} (hw : w.Honest) {t : ℚ} {s s' : Manager}
    (h : Tidy s.pendingSpawns s.entities s.acts) (ht : tick fuel w t s = some s') :
    Advances s s'.pendingSpawns s' :=
  tick_upkeep (tidy_upkeep (custody s)) hw ⟨h, .refl⟩ ht

/-- Deleting the entities of a list one by one. -/
theorem deleteAll_upkeep {W : World → Prop} {P : List UInt32 → Entities → List Act → Prop}
    (hP : Upkeep W P) {w : World} (hw : W w) (l : List (UInt32 × RemoteEntity))
    {entities : Entities} {acts : List Act} {queue : List UInt32} (h : P queue entities acts)
    (hl : ∀ e ∈ l, entities.find? e.1 = some e.2) (hnodup : (l.map Prod.fst).Nodup) :
    P queue (l.foldl (fun m e => m.erase e.1) entities)
      (l.foldl (fun acts e => deleteRef w acts e.2) acts) := by
  induction l generalizing entities acts with
  | nil => exact h
  | cons e l ih =>
    have hfirst := hP.delete hw h (hl e List.mem_cons_self)
    have hnotin := (List.nodup_cons.mp hnodup).1
    refine ih hfirst (fun e' he' => ?_) (List.nodup_cons.mp hnodup).2
    rw [OrderedMap.find?_erase, if_neg]
    · exact hl e' (List.mem_cons_of_mem _ he')
    · rintro heq
      exact hnotin (heq ▸ List.mem_map_of_mem he')

theorem find?_eraseAll (l : List (UInt32 × RemoteEntity)) (entities : Entities) (id : UInt32) :
    (l.foldl (fun m e => m.erase e.1) entities).find? id =
      if id ∈ l.map Prod.fst then none else entities.find? id := by
  induction l generalizing entities with
  | nil => simp
  | cons e l ih =>
    rw [List.foldl_cons, ih, OrderedMap.find?_erase, List.map_cons]
    by_cases hid : id = e.1
    · simp [hid]
    · simp only [List.mem_cons, hid, false_or, if_false]

/-- A table without entries can be cleared. -/
theorem Tidy.clear {queue : List UInt32} {entities : Entities} {acts : List Act}
    (h : Tidy queue entities acts) (hnone : ∀ id, entities.find? id = none) :
    Tidy [] ∅ acts ∧ ledger ∅ acts = ledger entities acts := by
  have hrel : ∀ id, Option.Rel SameRef (entities.find? id) ((∅ : Entities).find? id) := by
    intro id
    rw [hnone id]
    exact .none
  exact ⟨⟨by simp, by simp, h.paired, (h.same ∅ hrel).sound⟩, ledger_same hrel⟩

theorem shutdown_advances {w : World} (hw : w.Honest) {s : Manager} (h : Owns s) :
    Advances s (shutdown w s).pendingSpawns (shutdown w s) := by
  unfold shutdown
  dsimp only
  split
  · rename_i hconsole
    have hnone : avatar s.entities = fun _ => none := by
      funext id
      cases hid : avatar s.entities id with
      | none => rfl
      | some r =>
        have hplaced := (h.tidy.sound.held id r hid).1
        simp [ledger, h.idle hconsole] at hplaced
    have hledger : ledger ∅ s.acts = ledger s.entities s.acts := by
      simp only [ledger, hnone]
      congr 1
    exact ⟨⟨by simp, by simp, h.tidy.paired, by rw [hledger]; exact h.tidy.sound⟩,
      by simp only [custody]; rw [hledger]⟩
  · have hquiet := harmless_console .suppressConsole (.inl rfl)
    have h₀ := (tidy_upkeep (custody s)).quiet ⟨h.tidy, .refl⟩ hquiet
    obtain ⟨hdone, hsteps⟩ := deleteAll_upkeep (tidy_upkeep (custody s)) hw s.entities.entries h₀
      (fun e he => (s.entities.find?_eq_some e.1 e.2).mpr he) s.entities.keys_nodup
    have hnone : ∀ id, (s.entities.entries.foldl (fun m e => m.erase e.1) s.entities).find? id =
        none := by
      intro id
      rw [find?_eraseAll]
      split
      · rfl
      · rename_i hid
        rw [← Option.not_isSome_iff_eq_none, ← OrderedMap.mem_keys]
        exact hid
    obtain ⟨htidy, hledger⟩ := hdone.clear hnone
    have hend := harmless_console .restoreConsole (.inr rfl)
    refine ⟨htidy.harmless hend, ?_⟩
    simp only [custody]
    rw [hend.ledger, hledger]
    exact hsteps

/-! ## Runs -/

/-- The engine of an operation is one the client can count on. -/
def Op.Honest : Op → Prop
  | .updateFromWorldSnapshot w _ _ => w.Honest
  | .applyFireEvent w _ _ => w.Honest
  | .removeEntity _ => True
  | .tick _ w _ => w.Honest
  | .shutdown w => w.Honest

theorem step_owns {s s' : Manager} {op : Op} (h : Owns s) (hop : op.Honest)
    (hs : step s op = some s') : Owns s' ∧ Custody.Steps (custody s) (custody s') := by
  have hconsole : s'.console = s.console := congrArg (fun c => c.2.1) (step_settings hs)
  cases op with
  | updateFromWorldSnapshot w states t =>
    cases hs
    have hadvances := updateFromWorldSnapshot_upkeep (tidy_upkeep (custody s)) w states t s
      ⟨h.tidy, .refl⟩
    have hacts := (Prod.mk.inj (Prod.mk.inj (updateFromWorldSnapshot_keeps w states t s)).2).1
    refine ⟨⟨hadvances.1, fun hc => ?_⟩, hadvances.2⟩
    rw [hacts]
    exact h.idle (hconsole ▸ hc)
  | applyFireEvent w id t =>
    cases hs
    have hadvances := applyFireEvent_upkeep (tidy_upkeep (custody s)) w id t s ⟨h.tidy, .refl⟩
    obtain ⟨-, -, more, hacts, hmore⟩ := applyFireEvent_quiet w id t s
    refine ⟨⟨hadvances.1, fun hc => ?_⟩, hadvances.2⟩
    rw [hacts, placedRefs_append, hmore.places, h.idle (hconsole ▸ hc)]
    rfl
  | removeEntity id =>
    cases hs
    unfold EntityManager.removeEntity
    split
    · exact ⟨h, .refl⟩
    · exact ⟨⟨h.tidy, h.idle⟩, .refl⟩
  | tick fuel w t =>
    have hadvances := tick_advances hop h.tidy hs
    refine ⟨⟨hadvances.1, fun hc => ?_⟩, hadvances.2⟩
    have hc' : s.console = false := hconsole ▸ hc
    obtain rfl := tick_idle (.inl (by simp [ready, hc'])) hs
    exact h.idle hc'
  | shutdown w =>
    cases hs
    have hadvances := shutdown_advances hop h
    refine ⟨⟨hadvances.1, fun hc => ?_⟩, hadvances.2⟩
    have hc' : s.console = false := hconsole ▸ hc
    simp only [EntityManager.shutdown, hc', ↓reduceIte]
    exact h.idle hc'

theorem owns_init (script console compilesSpawn : Bool) (compiles : Script → Bool) :
    Owns (init {} script console compilesSpawn compiles) := by
  have hentities : (init {} script console compilesSpawn compiles).entities = ∅ := by
    unfold init
    dsimp only
    split <;> rfl
  have hacts : (init {} script console compilesSpawn compiles).acts = [] := by
    unfold init
    dsimp only
    split <;> rfl
  refine ⟨⟨by simp [hentities], by simp [hentities], by simp [hacts], ?_⟩, by simp [hacts]⟩
  rw [hentities, hacts]
  exact Custody.sound_vacant

/-- The entity manager refines the ledger along every run. -/
theorem run_owns {s s' : Manager} {ops : List Op} (h : Owns s) (hops : ∀ op ∈ ops, op.Honest)
    (hrun : run s ops = some s') : Owns s' ∧ Custody.Steps (custody s) (custody s') :=
  run_invariant (fun s' => Owns s' ∧ Custody.Steps (custody s) (custody s')) ops
    (fun _ op _ hmem hs hstep =>
      have hnext := step_owns hs.1 (hops op hmem) hstep
      ⟨hnext.1, hs.2.trans hnext.2⟩) ⟨h, .refl⟩ hrun

/-- Whatever snapshots, removals, fire events, ticks and shutdowns come, in a world that
places fresh references and finds those not deleted: every NPC ever placed is the avatar
of exactly one entity, or of none and was disabled and deleted exactly once; and a tick
that passes its guards leaves both queues empty and every entity spawned, with a
reference of its own. -/
theorem avatars_owned_once (script console compilesSpawn : Bool) (compiles : Script → Bool)
    (ops : List Op) (hops : ∀ op ∈ ops, op.Honest) (s : Manager)
    (hrun : run (init {} script console compilesSpawn compiles) ops = some s) :
    (∀ r ∈ placedRefs s.acts,
      (∃ id, avatar s.entities id = some r ∧ ∀ id', avatar s.entities id' = some r → id' = id) ∧
        .disable ∉ linesTo r s.acts ∧ .markForDelete ∉ linesTo r s.acts ∨
      (∀ id, avatar s.entities id ≠ some r) ∧ (linesTo r s.acts).count .disable = 1 ∧
        (linesTo r s.acts).count .markForDelete = 1) ∧
    ∀ fuel w t s', w.Honest → ready w s = true → tick fuel w t s = some s' →
      s'.pendingSpawns = [] ∧ s'.pendingDespawns = [] ∧
      ∀ id ent, s'.entities.find? id = some ent → ent.spawned = true ∧ ent.refID ≠ 0 ∧
        ∀ id' ent', s'.entities.find? id' = some ent' → ent'.refID = ent.refID → id' = id := by
  obtain ⟨howns, -⟩ := run_owns (owns_init script console compilesSpawn compiles) hops hrun
  refine ⟨fun r hr => ?_, fun fuel w t s' hw hready ht => ?_⟩
  · have hpaired := howns.tidy.paired r
    by_cases hheld : ∃ id, avatar s.entities id = some r
    · obtain ⟨id, hid⟩ := hheld
      have hnone : (linesTo r s.acts).count .markForDelete = 0 := (howns.tidy.sound.held id r hid).2
      refine .inl ⟨⟨id, hid, fun id' hid' => howns.tidy.sound.one_holder id' id r hid' hid⟩, ?_, ?_⟩
      · exact List.count_eq_zero.mp (hpaired.trans hnone)
      · exact List.count_eq_zero.mp hnone
    · have hdone : (linesTo r s.acts).count .markForDelete = 1 :=
        (howns.tidy.sound.accounted r hr).resolve_left hheld
      exact .inr ⟨fun id hid => hheld ⟨id, hid⟩, hpaired.trans hdone, hdone⟩
  · obtain ⟨hspawns, hdespawns⟩ := tick_queues hready ht
    have htidy := (tick_advances hw howns.tidy ht).1
    rw [hspawns] at htidy
    refine ⟨hspawns, hdespawns, fun id ent hid => ?_⟩
    have hsp : ent.spawned = true := by
      by_contra hnot
      exact absurd (htidy.queued id ent hid (by simpa using hnot)) List.not_mem_nil
    have href := (htidy.marked id ent hid).mp hsp
    refine ⟨hsp, href, fun id' ent' hid' hsame => ?_⟩
    refine htidy.sound.one_holder id' id ent.refID ?_ ?_
    · simp [ledger, avatar, hid', hsame, href]
    · simp [ledger, avatar, hid, href]

/-- A world with one reference to give away, 100, and the player in cell 1. -/
def quietWorld : World where
  thePlayer := true
  playerCell := 1
  resolve := fun _ _ => true
  call := fun _ _ _ => some (.fin 0)
  placeAtMe := fun past => if placedRefs past = [] then .ref 100 else .failed

theorem quietWorld_honest : quietWorld.Honest where
  fresh := by
    intro past refID h
    simp only [quietWorld] at h
    split at h
    · rename_i hnone
      cases h
      simp [hnone]
    · cases h
  finds := fun _ _ _ _ => rfl

/-- One entity standing in a cell. -/
def standing (netEntityId cellId : UInt32) : EntityState :=
  ⟨netEntityId, cellId, 0, 0, 0, 0, 0, 0, 0, 0, 0⟩

/-- An entity is listed twice, spawned, and removed. -/
theorem avatars_owned_once_visit :
    ∃ s, run (init {} true true true fun _ => true)
        [.updateFromWorldSnapshot quietWorld [standing 7 1, standing 7 1] 0, .tick 0 quietWorld 0,
          .removeEntity 7, .tick 0 quietWorld 1] = some s ∧
      100 ∈ placedRefs s.acts ∧
      ((∃ id, avatar s.entities id = some 100 ∧
          ∀ id', avatar s.entities id' = some 100 → id' = id) ∧
        .disable ∉ linesTo 100 s.acts ∧ .markForDelete ∉ linesTo 100 s.acts ∨
      (∀ id, avatar s.entities id ≠ some 100) ∧ (linesTo 100 s.acts).count .disable = 1 ∧
        (linesTo 100 s.acts).count .markForDelete = 1) ∧
      ∀ fuel w t s', w.Honest → ready w s = true → tick fuel w t s = some s' →
        s'.pendingSpawns = [] ∧ s'.pendingDespawns = [] ∧
        ∀ id ent, s'.entities.find? id = some ent → ent.spawned = true ∧ ent.refID ≠ 0 ∧
          ∀ id' ent', s'.entities.find? id' = some ent' → ent'.refID = ent.refID →
            id' = id := by
  obtain ⟨s, hs⟩ := Option.isSome_iff_exists.mp
    (show (run (init {} true true true fun _ => true)
      [.updateFromWorldSnapshot quietWorld [standing 7 1, standing 7 1] 0, .tick 0 quietWorld 0,
        .removeEntity 7, .tick 0 quietWorld 1]).isSome from by decide +kernel)
  have hplaced : 100 ∈ placedRefs s.acts := by
    have hall : (run (init {} true true true fun _ => true)
        [.updateFromWorldSnapshot quietWorld [standing 7 1, standing 7 1] 0, .tick 0 quietWorld 0,
          .removeEntity 7, .tick 0 quietWorld 1]).all (fun s => 100 ∈ placedRefs s.acts) := by
      decide +kernel
    simpa [hs] using hall
  obtain ⟨howned, htick⟩ := avatars_owned_once true true true (fun _ => true) _ (fun op hop => by
    simp only [List.mem_cons, List.not_mem_nil, or_false] at hop
    rcases hop with rfl | rfl | rfl | rfl <;> simp [Op.Honest, quietWorld_honest]) s hs
  exact ⟨s, hs, hplaced, howned 100 hplaced, htick⟩

end Fnvmp.EntityManager
