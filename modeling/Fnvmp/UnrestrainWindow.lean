import Fnvmp.TickPhases

/-!
# How long an avatar stays unrestrained

The safety timeout is checked when the animation of an entity is applied, and a tick
skips entities in another cell and those whose reference does not resolve. The bound
holds after a tick exactly for the entities that are due and not skipped.
-/

namespace Fnvmp.Animation

open ExactFloat Engine Protocol

variable (m : Module) (w : World) (npc : UInt32)

/-- At time `t` the unrestrained window of an animation state has not run out. -/
def InWindow (t : ℚ) (st : EntityAnimState) : Prop :=
  st.isUnrestrained = true → t - st.unrestrainStartTime ≤ unrestrainTimeout

instance (t : ℚ) (st : EntityAnimState) : Decidable (InWindow t st) :=
  inferInstanceAs (Decidable (_ → _))

theorem pollUnrestrain_inWindow (t : ℚ) (sc : Scene) :
    InWindow t (pollUnrestrain m w npc t sc).st := by
  have hwatch := pollPending_watches m w npc sc
  obtain ⟨hfree, heq⟩ | ⟨-, -, heq⟩ | ⟨-, hsoon, mid, rfl, ⟨-, heq⟩ | ⟨-, heq⟩⟩ :=
    pollUnrestrain_cases m w npc t sc <;> rw [heq] <;> intro h
  · rw [hfree] at h
    cases h
  · cases h
  · rw [hwatch.unrestrainStartTime]
    exact hsoon
  · cases h

/-- A transition opens the window now or leaves it as it was. -/
theorem unrestrain_inWindow {t : ℚ} {sc : Scene} (h : InWindow t sc.st) :
    InWindow t (unrestrain npc t sc).st := by
  rw [unrestrain_st]
  intro _
  dsimp only
  split
  · rename_i hfree
    exact h hfree
  · rw [sub_self]
    decide +kernel

theorem applySneak_inWindow {t : ℚ} {sc : Scene} (h : InWindow t sc.st) (isSneaking : UInt8) :
    InWindow t (applySneak npc isSneaking t sc).st := by
  have hfree := unrestrain_inWindow npc h
  unfold applySneak
  split
  · exact h
  · split <;> exact hfree

theorem applyWeapon_inWindow {t : ℚ} {sc : Scene} (h : InWindow t sc.st) (out : UInt8) :
    InWindow t (applyWeapon m w npc out t sc).st := by
  have hwatch := weaponFallback_watches m w npc sc
  have hmid : InWindow t (weaponFallback m w npc sc).st := by
    unfold InWindow
    rw [hwatch.isUnrestrained, hwatch.unrestrainStartTime]
    exact h
  have hfree := unrestrain_inWindow npc hmid
  obtain ⟨-, heq⟩ | ⟨-, -, mid, rfl, ⟨-, heq⟩ | ⟨-, -, heq⟩ | ⟨-, -, heq⟩⟩ :=
    applyWeapon_cases m w npc out t sc <;> rw [heq]
  · exact h
  · exact hmid
  · exact hfree
  · exact hfree

/-- Whatever the window was before, a call closes it in time. -/
theorem applyState_inWindow (net : NetState) (t : ℚ) (sc : Scene) (hconsole : m.console = true) :
    InWindow t (applyState m w npc net t sc).st := by
  rw [applyState, if_neg (by simp [hconsole])]
  have hpoll := pollUnrestrain_inWindow m w npc t sc
  have hweapon := applyWeapon_inWindow m w npc (applySneak_inWindow npc hpoll net.isSneaking)
    net.isWeaponOut
  simp only [storePrev, InWindow, applyActions_st, applyLocomotion_st]
  exact hweapon

end Fnvmp.Animation

namespace Fnvmp.EntityManager

open ExactFloat Engine Protocol Animation

/-! ## Reachable states -/

/-- An entity that was not spawned yet has never been unrestrained. -/
def Fresh (entities : Entities) : Prop :=
  ∀ id ent, entities.find? id = some ent → ent.spawned = false →
    ent.animState.isUnrestrained = false

/-- Both modules were given the same console. -/
structure Primed (s : Manager) : Prop where
  console : s.script = true → s.anim.console = s.console
  fresh : Fresh s.entities

theorem primed_init (script console compilesSpawn : Bool) (compiles : Script → Bool) :
    Primed (init {} script console compilesSpawn compiles) := by
  constructor
  · intro h
    unfold init at h ⊢
    dsimp only at h ⊢
    split
    · rename_i hno
      simp [hno] at h
    · unfold Animation.init
      dsimp only
      split <;> rfl
  · intro id ent hid
    unfold init at hid
    dsimp only at hid
    split at hid <;> simp at hid

theorem updateEntity_fresh (cell : UInt32) (t : ℚ) (s : Manager) (es : EntityState)
    (h : Fresh s.entities) : Fresh (updateEntity cell t s es).entities := by
  intro id ent hid hnot
  unfold updateEntity at hid
  split at hid
  · split at hid
    · exact h id ent hid hnot
    · simp only [pushSample, OrderedMap.find?_insert] at hid
      split at hid
      · cases hid
        rfl
      · exact h id ent hid hnot
  · simp only [pushSample, OrderedMap.find?_modify] at hid
    split at hid
    · obtain ⟨old, hold, rfl⟩ := Option.map_eq_some_iff.mp hid
      exact h _ old hold hnot
    · exact h id ent hid hnot

theorem updateFromWorldSnapshot_fresh (w : World) (states : List EntityState) (t : ℚ)
    (s : Manager) (h : Fresh s.entities) :
    Fresh (updateFromWorldSnapshot w states t s).entities := by
  unfold updateFromWorldSnapshot
  dsimp only
  split
  · exact h
  · induction states generalizing s with
    | nil => exact h
    | cons es states ih => exact ih _ (updateEntity_fresh _ t s es h)

theorem applyFireEvent_fresh (w : World) (id : UInt32) (t : ℚ) (s : Manager)
    (h : Fresh s.entities) : Fresh (applyFireEvent w id t s).entities := by
  obtain heq | ⟨ent, sc, hent, hsp, -, -, heq⟩ := applyFireEvent_cases w id t s
  · rw [heq]
    exact h
  · rw [heq]
    intro k ent' hk hnot
    dsimp only at hk
    rw [OrderedMap.find?_modify] at hk
    split at hk
    · rename_i hid
      rw [hid, hent] at hk
      cases hk
      rw [hsp] at hnot
      cases hnot
    · exact h k ent' hk hnot

theorem animateEntity_spawned (m : Module) (w : World) (cell : UInt32) (t : ℚ) (past : List Act)
    (id : UInt32) (ent : RemoteEntity) :
    (animateEntity m w cell t past id ent).2.spawned = ent.spawned :=
  (animateEntity_harmless m w cell t past id ent).2.2

theorem tick_fresh {fuel : Nat} {w : World} {t : ℚ} {s s' : Manager}
    (ht : tick fuel w t s = some s') (h : Fresh s.entities) : Fresh s'.entities := by
  intro id ent' hid hnot
  obtain ⟨rfl, -⟩ | ⟨hready, hwork, -⟩ := tick_cases ht
  · exact h id ent' hid hnot
  · obtain ⟨ent, mid, past, hent, -, hsp, -, rfl⟩ := tick_source hready hwork ht hid
    rw [animateEntity_spawned] at hnot
    rcases hsp with rfl | ⟨-, refID, rfl⟩
    · rw [animateEntity, if_pos hnot]
      exact h id mid hent hnot
    · cases hnot

theorem step_primed {s s' : Manager} {op : Op} (h : Primed s) (hs : step s op = some s') :
    Primed s' := by
  have hsettings := step_settings hs
  simp only [settings, Prod.mk.injEq] at hsettings
  obtain ⟨hscript, hconsole, -, -, hanim⟩ := hsettings
  refine ⟨fun hready => ?_, ?_⟩
  · rw [hanim, hconsole]
    exact h.console (hscript ▸ hready)
  · cases op with
    | updateFromWorldSnapshot w states t =>
      cases hs
      exact updateFromWorldSnapshot_fresh w states t s h.fresh
    | applyFireEvent w id t =>
      cases hs
      exact applyFireEvent_fresh w id t s h.fresh
    | removeEntity id =>
      cases hs
      simp only [EntityManager.removeEntity]
      split <;> exact h.fresh
    | tick fuel w t => exact tick_fresh hs h.fresh
    | shutdown w =>
      cases hs
      simp only [EntityManager.shutdown]
      split <;> intro id ent hid <;> simp at hid

theorem run_primed {s s' : Manager} {ops : List Op} (h : Primed s) (hrun : run s ops = some s') :
    Primed s' :=
  run_invariant Primed ops (fun _ _ _ _ => step_primed) h hrun

/-! ## The bound -/

/-- After a tick at `t` no spawned avatar has been unrestrained for longer than the timeout. -/
def Bounded (t : ℚ) (s : Manager) : Prop :=
  ∀ id ent, s.entities.find? id = some ent → ent.spawned = true → InWindow t ent.animState

/-- The spawned entities whose timeout is due at `t`, but for those about to be removed. -/
def Overdue (t : ℚ) (s : Manager) (id : UInt32) (ent : RemoteEntity) : Prop :=
  s.entities.find? id = some ent ∧ id ∉ s.pendingDespawns ∧ ent.spawned = true ∧
    ¬ InWindow t ent.animState

/-- The entity is in the local player's cell, or that cell is not known. -/
def InCell (w : World) (ent : RemoteEntity) : Prop :=
  getLocalPlayerCellID w ≠ 0 → ent.cellId = getLocalPlayerCellID w

/-- An entity that is not skipped comes out within its window. -/
theorem animateEntity_inWindow {m : Module} (hconsole : m.console = true) {w : World} {t : ℚ}
    {past : List Act} (id : UInt32) {ent : RemoteEntity} (hsp : ent.spawned = true)
    (h : InWindow t ent.animState ∨ InCell w ent ∧ resolveRefr w past ent.refID = true) :
    InWindow t (animateEntity m w (getLocalPlayerCellID w) t past id ent).2.animState := by
  unfold animateEntity
  rw [if_neg (by simp [hsp])]
  split
  · rename_i hcell
    exact h.resolve_right fun hin => hcell.2 (hin.1 hcell.1)
  · split
    · rename_i hlost
      exact h.resolve_right fun hin => by simp [hin.2] at hlost
    · exact applyState_inWindow m w ent.refID ent.net t ⟨ent.animState, past⟩ hconsole

/-- A skipped entity keeps its window. -/
theorem animateEntity_skips {m : Module} {w : World} {t : ℚ} {past : List Act} (id : UInt32)
    {ent : RemoteEntity} (h : ¬ (InCell w ent ∧ resolveRefr w past ent.refID = true)) :
    (animateEntity m w (getLocalPlayerCellID w) t past id ent).2 = ent := by
  obtain heq | ⟨-, hhere, hfound, -⟩ :=
    animateEntity_cases m w (getLocalPlayerCellID w) t past id ent
  · rw [heq]
  · refine absurd ⟨fun hknown => ?_, hfound⟩ h
    by_contra hother
    exact hhere ⟨hknown, hother⟩

/-- If no overdue entity is skipped, the tick bounds them all. -/
theorem tick_bounds {fuel : Nat} {w : World} {t : ℚ} {s s' : Manager} (hs : Primed s)
    (hready : ready w s = true) (ht : tick fuel w t s = some s')
    (h : ∀ id ent, Overdue t s id ent → InCell w ent ∧
      ∀ past, During s s' past → resolveRefr w past ent.refID = true) : Bounded t s' := by
  have hconsole : s.anim.console = true := by
    simp only [ready, Bool.and_eq_true] at hready
    rw [hs.console hready.1.1, hready.1.2]
  intro id ent' hid hsp'
  cases hwork : hasPendingWork s with
  | false =>
    obtain rfl := tick_idle (.inr hwork) ht
    have hany : s'.entities.entries.any (fun e => e.2.spawned) = true :=
      List.any_eq_true.mpr ⟨(id, ent'), (s'.entities.find?_eq_some id ent').mp hid, hsp'⟩
    simp [hasPendingWork, hany] at hwork
  | true =>
    obtain ⟨ent, mid, past, hent, hkept, hspawned, hpast, rfl⟩ := tick_source hready hwork ht hid
    rw [animateEntity_spawned] at hsp'
    refine animateEntity_inWindow hconsole id hsp' ?_
    rcases hspawned with rfl | ⟨hnot, refID, rfl⟩
    · by_cases hwindow : InWindow t mid.animState
      · exact .inl hwindow
      · obtain ⟨hcell, hfound⟩ := h id mid ⟨hent, hkept, hsp', hwindow⟩
        exact .inr ⟨hcell, hfound past hpast⟩
    · refine .inl fun hfree => ?_
      rw [hs.fresh id ent hent hnot] at hfree
      cases hfree

/-- If the tick bounds them all, no overdue entity was skipped. -/
theorem bounded_visits {fuel : Nat} {w : World} {t : ℚ} {s s' : Manager}
    (hready : ready w s = true) (ht : tick fuel w t s = some s') (h : Bounded t s') {id : UInt32}
    {ent : RemoteEntity} (hdue : Overdue t s id ent) :
    InCell w ent ∧ ∃ past, During s s' past ∧ resolveRefr w past ent.refID = true := by
  obtain ⟨hid, hkept, hsp, hlate⟩ := hdue
  obtain ⟨past, hpast, hid'⟩ := tick_visits hready ht hid hkept hsp
  have hbound := h id _ hid' ((animateEntity_spawned _ _ _ _ _ _ _).trans hsp)
  by_contra hskip
  rw [animateEntity_skips id fun hin => hskip ⟨hin.1, past, hpast, hin.2⟩] at hbound
  exact hlate hbound

/-- After a tick that passes its guards, wherever it stands in a run: if every overdue
entity is in the local cell and its reference resolves all through the tick, no avatar is
unrestrained for longer than the timeout; and only if every one is in the local cell and
its reference resolves at some moment of the tick. Where no reference of an overdue entity
comes or goes within the tick, the two are one condition. -/
theorem unrestrained_window_bounded (script console compilesSpawn : Bool)
    (compiles : Script → Bool) (ops : List Op) (s : Manager)
    (hrun : run (init {} script console compilesSpawn compiles) ops = some s)
    (fuel : Nat) (w : World) (t : ℚ) (s' : Manager) (hready : ready w s = true)
    (ht : tick fuel w t s = some s') :
    ((∀ id ent, Overdue t s id ent → InCell w ent ∧
      ∀ past, During s s' past → resolveRefr w past ent.refID = true) → Bounded t s') ∧
    (Bounded t s' → ∀ id ent, Overdue t s id ent → InCell w ent ∧
      ∃ past, During s s' past ∧ resolveRefr w past ent.refID = true) ∧
    ((∀ id ent, Overdue t s id ent → ∀ past, During s s' past →
        resolveRefr w past ent.refID = resolveRefr w s.acts ent.refID) →
      (Bounded t s' ↔ ∀ id ent, Overdue t s id ent →
        InCell w ent ∧ resolveRefr w s.acts ent.refID = true)) := by
  have hbounds :=
    tick_bounds (run_primed (primed_init script console compilesSpawn compiles) hrun) hready ht
  refine ⟨hbounds, fun h _ _ hdue => bounded_visits hready ht h hdue, fun hsteady => ?_⟩
  constructor
  · intro h id ent hdue
    obtain ⟨hcell, past, hpast, hfound⟩ := bounded_visits hready ht h hdue
    exact ⟨hcell, (hsteady id ent hdue past hpast).symm.trans hfound⟩
  · intro h
    refine hbounds fun id ent hdue => ⟨(h id ent hdue).1, fun past hpast => ?_⟩
    exact (hsteady id ent hdue past hpast).trans (h id ent hdue).2

/-- The references of live avatars resolve all through a tick. -/
theorem avatar_resolves {fuel : Nat} {w : World} (hw : w.Honest) {t : ℚ} {s s' : Manager}
    (hs : Owns s) (hready : ready w s = true) (ht : tick fuel w t s = some s') {id : UInt32}
    {ent : RemoteEntity} (hdue : Overdue t s id ent) {past : List Act} (hpast : During s s' past) :
    resolveRefr w past ent.refID = true := by
  obtain ⟨hid, hkept, hsp, -⟩ := hdue
  obtain ⟨visit, -, hid'⟩ := tick_visits hready ht hid hkept hsp
  have href : ent.refID ≠ 0 := (hs.tidy.marked id ent hid).mp hsp
  have hbefore : avatar s.entities id = some ent.refID := by simp [avatar, hid, href]
  have hafter : avatar s'.entities id = some ent.refID := by
    have hsame := (animateEntity_harmless s.anim w (getLocalPlayerCellID w) t visit id ent).2.1
    simp [avatar, hid', hsame, href]
  have hplaced : ent.refID ∈ placedRefs s.acts := (hs.tidy.sound.held id _ hbefore).1
  have hkeptAlive : (linesTo ent.refID s'.acts).count .markForDelete = 0 :=
    ((tick_advances hw hs.tidy ht).1.sound.held id _ hafter).2
  obtain ⟨⟨early, rfl⟩, ⟨late, hlate⟩⟩ := hpast
  rw [← hlate, linesTo_append] at hkeptAlive
  have hfound : w.resolve (s.acts ++ early) ent.refID = true := by
    refine hw.finds _ _ ?_ fun hmem => ?_
    · rw [placedRefs_append]
      exact List.mem_append_left _ hplaced
    · exact List.count_eq_zero.mp hkeptAlive (List.mem_append_left _ hmem)
  simp [resolveRefr, href, hfound]

/-- Where references are found until they are deleted, the bound fails exactly with an
overdue entity in another cell. -/
theorem bounded_iff_inCell (script console compilesSpawn : Bool) (compiles : Script → Bool)
    (ops : List Op) (hops : ∀ op ∈ ops, op.Honest) (s : Manager)
    (hrun : run (init {} script console compilesSpawn compiles) ops = some s)
    (fuel : Nat) (w : World) (hw : w.Honest) (t : ℚ) (s' : Manager) (hready : ready w s = true)
    (ht : tick fuel w t s = some s') :
    Bounded t s' ↔ ∀ id ent, Overdue t s id ent → InCell w ent := by
  have hprimed := run_primed (primed_init script console compilesSpawn compiles) hrun
  have howns := (run_owns (owns_init script console compilesSpawn compiles) hops hrun).1
  refine ⟨fun h id ent hdue => (bounded_visits hready ht h hdue).1, fun h => ?_⟩
  exact tick_bounds hprimed hready ht fun id ent hdue =>
    ⟨h id ent hdue, fun _ => avatar_resolves hw howns hready ht hdue⟩

/-- An avatar is told to crouch and its player leaves the cell; it is not animated again. -/
def leftBehind : List Op :=
  [.updateFromWorldSnapshot quietWorld [standing 7 1] 0, .tick 0 quietWorld 0,
    .updateFromWorldSnapshot quietWorld [{ standing 7 1 with isSneaking := 1 }] 0,
    .tick 0 quietWorld 0, .updateFromWorldSnapshot quietWorld [standing 7 2] 1]

/-- The time of a tick. -/
def Op.tickTime : Op → Option ℚ
  | .tick _ _ t => some t
  | _ => none

theorem avatar_left_unrestrained :
    ¬ ∀ (ops : List Op) (s s' : Manager) (w : World) (t : ℚ),
      (ops.filterMap Op.tickTime ++ [t]).Pairwise (· ≤ ·) →
      run (init {} true true true fun _ => true) ops = some s → ready w s = true →
      tick 0 w t s = some s' → Bounded t s' := by
  intro h
  obtain ⟨s, hs⟩ := Option.isSome_iff_exists.mp
    (show (run (init {} true true true fun _ => true) leftBehind).isSome from by decide +kernel)
  have hlate : (run (init {} true true true fun _ => true) leftBehind).all (fun s =>
      ready quietWorld s && (tick 0 quietWorld 5 s).any fun s' =>
        (s'.entities.find? 7).any fun ent => ent.spawned && !decide (InWindow 5 ent.animState)) := by
    decide +kernel
  simp only [hs, Option.all_some, Bool.and_eq_true, Option.any_eq_true] at hlate
  obtain ⟨hready, s', ht, ent, hent, hsp, hover⟩ := hlate
  have hbound := h leftBehind s s' quietWorld 5 (by decide +kernel) hs hready ht 7 ent hent hsp
  simp [hbound] at hover

/-- The same avatar while its player stays. -/
theorem unrestrained_window_bounded_stays :
    ∃ s s', run (init {} true true true fun _ => true) (leftBehind.take 4) = some s ∧
      tick 0 quietWorld 5 s = some s' ∧ Bounded 5 s' := by
  obtain ⟨s, hs⟩ := Option.isSome_iff_exists.mp (show
    (run (init {} true true true fun _ => true) (leftBehind.take 4)).isSome from by decide +kernel)
  have hend : (run (init {} true true true fun _ => true) (leftBehind.take 4)).all (fun s =>
      ready quietWorld s && (tick 0 quietWorld 5 s).isSome &&
        s.entities.entries.all fun e => e.2.cellId = 1 && e.2.refID = 100) := by
    decide +kernel
  simp only [hs, Option.all_some, Bool.and_eq_true, List.all_eq_true, decide_eq_true_eq] at hend
  obtain ⟨⟨hready, hsome⟩, hall⟩ := hend
  obtain ⟨s', ht⟩ := Option.isSome_iff_exists.mp hsome
  refine ⟨s, s', hs, ht, (unrestrained_window_bounded true true true (fun _ => true) _ s hs 0
    quietWorld 5 s' hready ht).1 fun id ent hdue => ?_⟩
  obtain ⟨hcell, href⟩ := hall (id, ent) ((s.entities.find?_eq_some id ent).mp hdue.1)
  refine ⟨fun _ => hcell, fun past _ => ?_⟩
  dsimp only at href
  rw [href]
  rfl

end Fnvmp.EntityManager
