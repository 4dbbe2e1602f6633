import Fnvmp.Avatars

/-!
# Entities through one tick

A tick erases the entities to be despawned, spawns what is queued and animates every
entity once. From this, where an entity after a tick comes from, and that a spawned
entity that stays is visited. Traces only grow, so every visit is at a trace between
those at the two ends of the tick.
-/

namespace Fnvmp.EntityManager

open ExactFloat Engine Protocol Animation

/-! ## The two queues -/

theorem find?_despawnPhase (w : World) (s : Manager) (id : UInt32) :
    (despawnPhase w s).entities.find? id =
      if id ∈ s.pendingDespawns then none else s.entities.find? id := by
  have hone : ∀ (s : Manager) (k : UInt32), (despawnEntity w s k).entities.find? id =
      if id = k then none else s.entities.find? id := by
    intro s k
    unfold despawnEntity
    split
    · rename_i hnone
      split
      · rename_i heq
        rw [heq, hnone]
      · rfl
    · by_cases hk : id = k <;> simp [OrderedMap.find?_erase, hk]
  have hfold : ∀ (ids : List UInt32) (s : Manager),
      (ids.foldl (despawnEntity w) s).entities.find? id =
        if id ∈ ids then none else s.entities.find? id := by
    intro ids
    induction ids with
    | nil => simp
    | cons k ids ih =>
      intro s
      rw [List.foldl_cons, ih, hone]
      by_cases hk : id = k <;> simp [hk]
  exact hfold s.pendingDespawns s

/-- An entity is spawned, or stays as it is. -/
def Spawned (ent ent' : RemoteEntity) : Prop :=
  ent' = ent ∨ ent.spawned = false ∧
    ∃ refID, ent' = { ent with refID := refID, spawned := true }

theorem spawnEntity_spawned (w : World) (s : Manager) (k id : UInt32) {ent' : RemoteEntity}
    (h : (spawnEntity w s k).entities.find? id = some ent') :
    ∃ ent, s.entities.find? id = some ent ∧ Spawned ent ent' := by
  have erased : (s.entities.erase k).find? id = some ent' →
      ∃ ent, s.entities.find? id = some ent ∧ Spawned ent ent' := by
    intro he
    rw [OrderedMap.find?_erase] at he
    split at he
    · cases he
    · exact ⟨ent', he, .inl rfl⟩
  obtain ⟨heq, -⟩ | ⟨ent, hent, hsp, ⟨more, -, heq⟩ | ⟨refID, -, heq⟩⟩ := spawnEntity_cases w s k
  · rw [heq] at h
    exact ⟨ent', h, .inl rfl⟩
  · rw [heq] at h
    exact erased h
  · rw [heq, OrderedMap.find?_modify] at h
    split at h
    · rename_i hid
      rw [hid, hent] at h
      exact ⟨ent, hid ▸ hent, .inr ⟨hsp, refID, (Option.some.inj h).symm⟩⟩
    · exact ⟨ent', h, .inl rfl⟩

theorem spawnPhase_spawned (w : World) (s : Manager) (id : UInt32) {ent' : RemoteEntity}
    (h : (spawnPhase w s).entities.find? id = some ent') :
    ∃ ent, s.entities.find? id = some ent ∧ Spawned ent ent' := by
  have hfold : ∀ (ids : List UInt32) (s : Manager),
      (ids.foldl (spawnEntity w) s).entities.find? id = some ent' →
      ∃ ent, s.entities.find? id = some ent ∧ Spawned ent ent' := by
    intro ids
    induction ids with
    | nil => exact fun s h => ⟨ent', h, .inl rfl⟩
    | cons k ids ih =>
      intro s h
      obtain ⟨mid, hmid, hrest⟩ := ih _ h
      obtain ⟨ent, hent, hfirst⟩ := spawnEntity_spawned w s k id hmid
      refine ⟨ent, hent, ?_⟩
      rcases hrest with rfl | ⟨hnot, refID, rfl⟩
      · exact hfirst
      · rcases hfirst with rfl | ⟨-, r, rfl⟩
        · exact .inr ⟨hnot, refID, rfl⟩
        · cases hnot
  exact hfold s.pendingSpawns s h

/-- A spawned entity is not spawned again. -/
theorem spawnPhase_keeps_spawned (w : World) (s : Manager) (id : UInt32) {ent : RemoteEntity}
    (hid : s.entities.find? id = some ent) (hsp : ent.spawned = true) :
    (spawnPhase w s).entities.find? id = some ent := by
  have hone : ∀ (s : Manager) (k : UInt32), s.entities.find? id = some ent →
      (spawnEntity w s k).entities.find? id = some ent := by
    intro s k hid
    obtain ⟨heq, -⟩ | ⟨ent', hk, hnot, hwrite⟩ := spawnEntity_cases w s k
    · rw [heq]
      exact hid
    · have hne : id ≠ k := by
        rintro rfl
        rw [hid] at hk
        cases hk
        rw [hsp] at hnot
        cases hnot
      obtain ⟨more, -, heq⟩ | ⟨refID, -, heq⟩ := hwrite
      · rw [heq, OrderedMap.find?_erase, if_neg hne, hid]
      · rw [heq, OrderedMap.find?_modify, if_neg hne, hid]
  have hfold : ∀ (ids : List UInt32) (s : Manager), s.entities.find? id = some ent →
      (ids.foldl (spawnEntity w) s).entities.find? id = some ent := by
    intro ids
    induction ids with
    | nil => exact fun s h => h
    | cons k ids ih => exact fun s h => ih _ (hone s k h)
  exact hfold s.pendingSpawns s hid

/-! ## The trace of a tick -/

/-- Some trace between the start and the end of a step. -/
def During (s s' : Manager) (past : List Act) : Prop := s.acts <+: past ∧ past <+: s'.acts

/-- What every pass of a loop brings about between two states the whole loop does. -/
theorem foldl_relates {σ α : Type} {R : σ → σ → Prop} (hrefl : ∀ s, R s s)
    (htrans : ∀ {a b c}, R a b → R b c → R a c) (f : σ → α → σ) (h : ∀ s a, R s (f s a))
    (l : List α) (s : σ) : R s (l.foldl f s) := by
  induction l generalizing s with
  | nil => exact hrefl s
  | cons a l ih => exact htrans (h s a) (ih (f s a))

theorem foldl_extends {α : Type} (f : Manager → α → Manager)
    (h : ∀ s a, s.acts <+: (f s a).acts) (l : List α) (s : Manager) :
    s.acts <+: (l.foldl f s).acts :=
  foldl_relates (R := fun a b : Manager => a.acts <+: b.acts) (fun _ => List.prefix_rfl)
    List.IsPrefix.trans f h l s

theorem deleteRef_extends (w : World) (acts : List Act) (ent : RemoteEntity) :
    acts <+: deleteRef w acts ent := by
  unfold deleteRef
  split
  · simp [runLine]
  · exact List.prefix_rfl

theorem despawnPhase_extends (w : World) (s : Manager) : s.acts <+: (despawnPhase w s).acts := by
  refine foldl_extends (despawnEntity w) (fun s id => ?_) s.pendingDespawns s
  unfold despawnEntity
  split
  · exact List.prefix_rfl
  · exact deleteRef_extends w s.acts _

theorem spawnEntity_extends (w : World) (s : Manager) (id : UInt32) :
    s.acts <+: (spawnEntity w s id).acts := by
  obtain ⟨heq, -⟩ | ⟨ent, -, -, ⟨more, -, heq⟩ | ⟨refID, -, heq⟩⟩ := spawnEntity_cases w s id
  · simp only [heq, List.prefix_rfl]
  · rw [heq]
    exact List.prefix_append _ _
  · rw [heq]
    simp [configure, runLine]

theorem spawnPhase_extends (w : World) (s : Manager) : s.acts <+: (spawnPhase w s).acts :=
  foldl_extends (spawnEntity w) (spawnEntity_extends w) s.pendingSpawns s

theorem animateEntity_extends (m : Module) (w : World) (cell : UInt32) (t : ℚ) (acts : List Act)
    (id : UInt32) (ent : RemoteEntity) : acts <+: (animateEntity m w cell t acts id ent).1 := by
  obtain ⟨⟨more, hacts, -⟩, -⟩ := animateEntity_harmless m w cell t acts id ent
  exact ⟨more, hacts.symm⟩

/-- The queues touch neither of the other two modules. -/
theorem respawn_modules (w : World) (s : Manager) :
    ((spawnPhase w (despawnPhase w s)).anim, (spawnPhase w (despawnPhase w s)).interp) =
      (s.anim, s.interp) := by
  have hone : ∀ (s : Manager) (id : UInt32),
      ((spawnEntity w s id).anim, (spawnEntity w s id).interp) = (s.anim, s.interp) := by
    intro s id
    obtain ⟨heq, -⟩ | ⟨ent, -, -, ⟨more, -, heq⟩ | ⟨refID, -, heq⟩⟩ := spawnEntity_cases w s id
    · rw [heq]
    · rw [heq]
    · rw [heq]
  have hspawn := foldl_keeps (fun s => (s.anim, s.interp)) (spawnEntity w) hone
    (despawnPhase w s).pendingSpawns (despawnPhase w s)
  have hdespawn := foldl_keeps (fun s => (s.anim, s.interp)) (despawnEntity w) (fun s id => by
    unfold despawnEntity
    split <;> rfl) s.pendingDespawns s
  exact hspawn.trans hdespawn

/-- The entities of a tick once its queues are worked off. -/
def respawned (w : World) (s : Manager) : Manager :=
  spawnPhase w (despawnPhase w { s with acts := s.acts ++ [.suppressConsole] })

/-- What the operations keep holds once the queues are worked off. -/
theorem respawned_upkeep {W : World → Prop} {P : List UInt32 → Entities → List Act → Prop}
    (hP : Upkeep W P) {w : World} (hw : W w) {s : Manager}
    (h : P s.pendingSpawns s.entities s.acts) :
    P [] (respawned w s).entities (respawned w s).acts := by
  let s₀ : Manager := { s with acts := s.acts ++ [.suppressConsole] }
  have h₀ : P s.pendingSpawns s₀.entities s₀.acts := hP.quiet h (harmless_console _ (.inl rfl))
  have hqueue : (despawnPhase w s₀).pendingSpawns = s.pendingSpawns :=
    (Prod.mk.inj (despawnPhase_keeps w s₀)).2
  refine spawnPhase_upkeep hP hw (despawnPhase w s₀) ?_
  rw [hqueue]
  exact despawnPhase_upkeep hP hw s₀ h₀

/-- Where an entity comes from when the queues are worked off. -/
theorem respawned_source {w : World} {s : Manager} {id : UInt32} {ent' : RemoteEntity}
    (h : (respawned w s).entities.find? id = some ent') :
    ∃ ent, s.entities.find? id = some ent ∧ id ∉ s.pendingDespawns ∧ Spawned ent ent' := by
  obtain ⟨ent, hent, hsp⟩ := spawnPhase_spawned w _ id h
  rw [find?_despawnPhase] at hent
  split at hent
  · cases hent
  · rename_i hkept
    exact ⟨ent, hent, hkept, hsp⟩

theorem respawned_extends (w : World) (s : Manager) : s.acts <+: (respawned w s).acts := by
  have hmuted : s.acts <+: s.acts ++ [.suppressConsole] := List.prefix_append _ _
  have hdespawn := despawnPhase_extends w { s with acts := s.acts ++ [.suppressConsole] }
  exact (hmuted.trans hdespawn).trans (spawnPhase_extends w _)

/-- A tick pushes no sample and removes none. -/
theorem tick_interp {fuel : Nat} {w : World} {t : ℚ} {s s' : Manager}
    (h : tick fuel w t s = some s') : s'.interp = s.interp := by
  obtain ⟨rfl, -⟩ | ⟨-, -, mid, acts, rfl, -, rfl⟩ := tick_cases h
  · rfl
  · exact congrArg Prod.snd (respawn_modules w _)

/-- A tick that passes its guards and has work: the queues, the positions, the animations. -/
theorem tick_working {fuel : Nat} {w : World} {t : ℚ} {s s' : Manager}
    (hready : ready w s = true) (hwork : hasPendingWork s = true)
    (ht : tick fuel w t s = some s') : ∃ acts, (respawned w s).acts <+: acts ∧
      s' = { animationPhase w t { respawned w s with acts := acts } with
        acts := (animationPhase w t { respawned w s with acts := acts }).acts ++
          [.restoreConsole] } := by
  obtain ⟨-, hidle⟩ | ⟨-, -, mid, acts, hmid, hloop, hs'⟩ := tick_cases ht
  · simp [hready, hwork] at hidle
  · obtain rfl : mid = respawned w s := hmid
    obtain ⟨more, hmore, -⟩ := positionLoop_harmless fuel w _ t _ _ hloop
    exact ⟨acts, ⟨more, hmore.symm⟩, hs'⟩

/-- The animation loop visits every entity once, between the queues and the end of a tick. -/
theorem animationPhase_visits (w : World) (t : ℚ) (s : Manager) :
    s.acts <+: (animationPhase w t s).acts ∧ ∀ id, Option.Rel (fun ent ent' => ∃ past,
      s.acts <+: past ∧ past <+: (animationPhase w t s).acts ∧
        ent' = (animateEntity s.anim w (getLocalPlayerCellID w) t past id ent).2)
      (s.entities.find? id) ((animationPhase w t s).entities.find? id) :=
  OrderedMap.sweep_between (fun _ => List.prefix_rfl) (fun _ _ _ => List.IsPrefix.trans)
    (animateEntity s.anim w (getLocalPlayerCellID w) t)
    (animateEntity_extends s.anim w (getLocalPlayerCellID w) t) s.entities s.acts

/-- The animation loop visits every entity once, at some point of the tick. -/
theorem tick_animates {fuel : Nat} {w : World} {t : ℚ} {s s' : Manager}
    (hready : ready w s = true) (hwork : hasPendingWork s = true)
    (ht : tick fuel w t s = some s') (id : UInt32) :
    Option.Rel (fun mid ent' => ∃ past, During s s' past ∧
        ent' = (animateEntity s.anim w (getLocalPlayerCellID w) t past id mid).2)
      ((respawned w s).entities.find? id) (s'.entities.find? id) := by
  obtain ⟨acts, hstart, rfl⟩ := tick_working hready hwork ht
  have hanim : (respawned w s).anim = s.anim := congrArg Prod.fst (respawn_modules w _)
  have hvisit := (animationPhase_visits w t { respawned w s with acts := acts }).2 id
  generalize animationPhase w t { respawned w s with acts := acts } = swept at hvisit ⊢
  dsimp only at hvisit
  rw [hanim] at hvisit
  generalize (respawned w s).entities.find? id = found at hvisit ⊢
  generalize swept.entities.find? id = found' at hvisit ⊢
  cases hvisit with
  | none => exact .none
  | some h =>
    obtain ⟨past, hlow, hhigh, heq⟩ := h
    exact .some ⟨past, ⟨((respawned_extends w s).trans hstart).trans hlow,
      hhigh.trans (List.prefix_append _ _)⟩, heq⟩

/-- The trace of a tick goes on from where its queues were worked off. -/
theorem tick_extends {fuel : Nat} {w : World} {t : ℚ} {s s' : Manager}
    (hready : ready w s = true) (hwork : hasPendingWork s = true)
    (ht : tick fuel w t s = some s') : (respawned w s).acts <+: s'.acts := by
  obtain ⟨acts, hstart, rfl⟩ := tick_working hready hwork ht
  have hswept := (animationPhase_visits w t { respawned w s with acts := acts }).1
  exact (hstart.trans hswept).trans (List.prefix_append _ _)

/-- Where an entity after a tick comes from. -/
theorem tick_source {fuel : Nat} {w : World} {t : ℚ} {s s' : Manager} {id : UInt32}
    {ent' : RemoteEntity} (hready : ready w s = true) (hwork : hasPendingWork s = true)
    (ht : tick fuel w t s = some s') (hid : s'.entities.find? id = some ent') :
    ∃ ent mid past, s.entities.find? id = some ent ∧ id ∉ s.pendingDespawns ∧ Spawned ent mid ∧
      During s s' past ∧
      ent' = (animateEntity s.anim w (getLocalPlayerCellID w) t past id mid).2 := by
  have hvisit := tick_animates hready hwork ht id
  rw [hid] at hvisit
  cases hmid : (respawned w s).entities.find? id with
  | none =>
    rw [hmid] at hvisit
    cases hvisit
  | some mid =>
    rw [hmid] at hvisit
    obtain ⟨past, hpast, heq⟩ | _ := hvisit
    obtain ⟨ent, hent, hkept, hsp⟩ := respawned_source hmid
    exact ⟨ent, mid, past, hent, hkept, hsp, hpast, heq⟩

/-- A spawned entity that is not removed is still there after a tick, animated once. -/
theorem tick_visits {fuel : Nat} {w : World} {t : ℚ} {s s' : Manager} {id : UInt32}
    {ent : RemoteEntity} (hready : ready w s = true) (ht : tick fuel w t s = some s')
    (hid : s.entities.find? id = some ent) (hkept : id ∉ s.pendingDespawns)
    (hsp : ent.spawned = true) : ∃ past, During s s' past ∧ s'.entities.find? id =
      some (animateEntity s.anim w (getLocalPlayerCellID w) t past id ent).2 := by
  have hany : s.entities.entries.any (fun e => e.2.spawned) = true :=
    List.any_eq_true.mpr ⟨(id, ent), (s.entities.find?_eq_some id ent).mp hid, hsp⟩
  have hwork : hasPendingWork s = true := by simp [hasPendingWork, hany]
  have hmid : (respawned w s).entities.find? id = some ent := by
    refine spawnPhase_keeps_spawned w _ id ?_ hsp
    rw [find?_despawnPhase, if_neg hkept, hid]
  have hvisit := tick_animates hready hwork ht id
  rw [hmid] at hvisit
  cases hend : s'.entities.find? id with
  | none =>
    rw [hend] at hvisit
    cases hvisit
  | some ent' =>
    rw [hend] at hvisit
    obtain ⟨past, hpast, rfl⟩ | _ := hvisit
    exact ⟨past, hpast, rfl⟩

end Fnvmp.EntityManager
