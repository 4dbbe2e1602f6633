import Fnvmp.Departures
import Fnvmp.GhostAvatars

/-!
# Two maps with the same keys

The tracked entities and their interpolation data are kept by two modules. A push and a
removal touch both; a tick touches the entities only, and leaves data behind for every
entity that it erases and that still has any.
-/

namespace Fnvmp.EntityManager

open ExactFloat Engine Protocol

/-- Every id with interpolation data is tracked. -/
def Covered (s : Manager) : Prop := ∀ id ∈ s.interp.keys, id ∈ s.entities.keys

/-- Every tracked entity has interpolation data, or is queued for despawn. -/
def Sampled (s : Manager) : Prop :=
  ∀ id ∈ s.entities.keys, id ∈ s.interp.keys ∨ id ∈ s.pendingDespawns

structure Aligned (s : Manager) : Prop where
  covered : Covered s
  sampled : Sampled s

/-- Wherever the queue asks for a spawn, the expression is compiled and `PlaceAtMe`
returns a reference. -/
def SpawnsSucceed (w : World) : List UInt32 → Manager → Prop
  | [], _ => True
  | id :: ids, s =>
    (∀ ent, s.entities.find? id = some ent → ent.spawned = false →
      s.spawnExpr = true ∧ ∃ refID, w.placeAtMe s.acts = .ref refID) ∧
    SpawnsSucceed w ids (spawnEntity w s id)

/-- What a tick needs: no data came in for an entity about to be despawned, and nothing
goes wrong in the spawns. -/
structure Orderly (w : World) (s : Manager) : Prop where
  departed : ∀ id ∈ s.pendingDespawns, id ∉ s.interp.keys
  placed : SpawnsSucceed w s.pendingSpawns
    (despawnPhase w { s with acts := s.acts ++ [.suppressConsole] })

/-! ## Between ticks -/

/-- A state of a snapshot is skipped, or gets its id into both maps. -/
theorem updateEntity_cases (cell : UInt32) (t : ℚ) (s : Manager) (es : EntityState) :
    updateEntity cell t s es = s ∨ ∀ id,
      (id ∈ (updateEntity cell t s es).entities.keys ↔
        id = es.netEntityId ∨ id ∈ s.entities.keys) ∧
      (id ∈ (updateEntity cell t s es).interp.keys ↔
        id = es.netEntityId ∨ id ∈ s.interp.keys) := by
  unfold updateEntity
  split
  · split
    · exact .inl rfl
    · exact .inr fun id => ⟨OrderedMap.mem_keys_insert _ _ _ _, OrderedMap.mem_keys_insert _ _ _ _⟩
  · rename_i ent hent
    refine .inr fun id => ⟨?_, OrderedMap.mem_keys_insert _ _ _ _⟩
    have htracked : es.netEntityId ∈ s.entities.keys := by
      rw [OrderedMap.mem_keys, hent]
      rfl
    simp only [pushSample, OrderedMap.mem_keys_modify]
    constructor
    · exact .inr
    · rintro (rfl | hid)
      · exact htracked
      · exact hid

theorem updateEntity_aligned {s : Manager} (h : Aligned s) (cell : UInt32) (t : ℚ)
    (es : EntityState) : Aligned (updateEntity cell t s es) := by
  obtain ⟨hcovered, hsampled⟩ := h
  have hqueue := (Prod.mk.inj (Prod.mk.inj (updateEntity_keeps cell t s es)).2).2
  obtain hskip | hkeys := updateEntity_cases cell t s es
  · rw [hskip]
    exact ⟨hcovered, hsampled⟩
  · refine ⟨fun id hid => ?_, fun id hid => ?_⟩
    · exact (hkeys id).1.mpr (((hkeys id).2.mp hid).imp_right (hcovered id))
    · rw [(hkeys id).2, hqueue]
      rcases (hkeys id).1.mp hid with rfl | hid
      · exact .inl (.inl rfl)
      · exact (hsampled id hid).imp_left .inr

theorem updateFromWorldSnapshot_aligned {s : Manager} (h : Aligned s) (w : World)
    (states : List EntityState) (t : ℚ) : Aligned (updateFromWorldSnapshot w states t s) := by
  unfold updateFromWorldSnapshot
  dsimp only
  split
  · exact h
  · induction states generalizing s with
    | nil => exact h
    | cons es states ih => exact ih (updateEntity_aligned h _ t es)

theorem applyFireEvent_aligned {s : Manager} (h : Aligned s) (w : World) (k : UInt32) (t : ℚ) :
    Aligned (applyFireEvent w k t s) := by
  obtain heq | ⟨ent, sc, -, -, -, -, heq⟩ := applyFireEvent_cases w k t s
  · rw [heq]
    exact h
  · rw [heq]
    refine ⟨fun id hid => ?_, fun id hid => ?_⟩
    · exact (OrderedMap.mem_keys_modify _ _ _ _).mpr (h.covered id hid)
    · exact h.sampled id ((OrderedMap.mem_keys_modify _ _ _ _).mp hid)

theorem removeEntity_aligned {s : Manager} (h : Aligned s) (k : UInt32) :
    Aligned (removeEntity k s) := by
  unfold removeEntity
  split
  · exact h
  · refine ⟨fun id hid => h.covered id ((OrderedMap.mem_keys_erase _ _ _).mp hid).2, fun id hid => ?_⟩
    change id ∈ (s.interp.erase k).keys ∨ id ∈ s.pendingDespawns ++ [k]
    rw [OrderedMap.mem_keys_erase]
    by_cases hk : id = k
    · exact .inr (List.mem_append_right _ (List.mem_singleton.mpr hk))
    · exact (h.sampled id hid).imp (fun hin => ⟨hk, hin⟩) (List.mem_append_left _)

theorem cleared_aligned {s : Manager} (hentities : s.entities = ∅) (hinterp : s.interp = ∅) :
    Aligned s := by
  refine ⟨fun id hid => ?_, fun id hid => ?_⟩
  · rw [hinterp] at hid
    cases hid
  · rw [hentities] at hid
    cases hid

theorem shutdown_aligned (w : World) (s : Manager) : Aligned (shutdown w s) := by
  unfold shutdown
  dsimp only
  split <;> exact cleared_aligned rfl rfl

/-! ## In a tick -/

theorem respawned_tracked {w : World} {s : Manager} {id : UInt32}
    (h : id ∈ (respawned w s).entities.keys) : id ∈ s.entities.keys ∧ id ∉ s.pendingDespawns := by
  rw [OrderedMap.mem_keys] at h ⊢
  obtain ⟨mid, hmid⟩ := Option.isSome_iff_exists.mp h
  obtain ⟨ent, hent, hkept, -⟩ := respawned_source hmid
  refine ⟨?_, hkept⟩
  rw [hent]
  rfl

theorem despawned_tracked {w : World} {s : Manager} {id : UInt32} :
    id ∈ (despawnPhase w { s with acts := s.acts ++ [.suppressConsole] }).entities.keys ↔
      id ∈ s.entities.keys ∧ id ∉ s.pendingDespawns := by
  rw [OrderedMap.mem_keys, OrderedMap.mem_keys, find?_despawnPhase]
  split
  · rename_i hqueued
    exact iff_of_false Bool.false_ne_true fun h => h.2 hqueued
  · rename_i hkept
    exact (and_iff_left hkept).symm

theorem despawned_pendingSpawns (w : World) (s : Manager) :
    (despawnPhase w { s with acts := s.acts ++ [.suppressConsole] }).pendingSpawns =
      s.pendingSpawns :=
  (Prod.mk.inj (despawnPhase_keeps w _)).2

/-- The animation loop leaves the keys alone. -/
theorem tick_keys {fuel : Nat} {w : World} {t : ℚ} {s s' : Manager} (hready : ready w s = true)
    (hwork : hasPendingWork s = true) (ht : tick fuel w t s = some s') (id : UInt32) :
    id ∈ s'.entities.keys ↔ id ∈ (respawned w s).entities.keys := by
  rw [OrderedMap.mem_keys, OrderedMap.mem_keys]
  have hvisit := tick_animates hready hwork ht id
  revert hvisit
  generalize (respawned w s).entities.find? id = mid
  generalize s'.entities.find? id = ent
  rintro (- | -)
  · rfl
  · rfl

theorem spawns_tracked {w : World} (ids : List UInt32) {s : Manager} {id : UInt32}
    (h : id ∈ (ids.foldl (spawnEntity w) s).entities.keys) : id ∈ s.entities.keys := by
  induction ids generalizing s with
  | nil => exact h
  | cons k ids ih =>
    have hmid := ih h
    rw [OrderedMap.mem_keys] at hmid ⊢
    obtain ⟨mid, hmid⟩ := Option.isSome_iff_exists.mp hmid
    obtain ⟨ent, hent, -⟩ := spawnEntity_spawned w s k id hmid
    rw [hent]
    rfl

/-- A spawn that succeeds, or is not needed, keeps its entity; one that fails erases it. -/
theorem spawnEntity_keys (w : World) (s : Manager) (k : UInt32) :
    (∀ ent, s.entities.find? k = some ent → ent.spawned = false →
      s.spawnExpr = true ∧ ∃ refID, w.placeAtMe s.acts = .ref refID) ∧
        (∀ id, id ∈ (spawnEntity w s k).entities.keys ↔ id ∈ s.entities.keys) ∨
    ¬ (∀ ent, s.entities.find? k = some ent → ent.spawned = false →
      s.spawnExpr = true ∧ ∃ refID, w.placeAtMe s.acts = .ref refID) ∧
        k ∈ s.entities.keys ∧ k ∉ (spawnEntity w s k).entities.keys := by
  have herased : k ∉ (s.entities.erase k).keys :=
    fun hmem => ((OrderedMap.mem_keys_erase _ _ _).mp hmem).1 rfl
  unfold spawnEntity
  cases hent : s.entities.find? k with
  | none => exact .inl ⟨by simp, fun _ => Iff.rfl⟩
  | some ent =>
    have htracked : k ∈ s.entities.keys := by
      rw [OrderedMap.mem_keys, hent]
      rfl
    simp only [Option.some.injEq, forall_eq']
    cases hsp : ent.spawned with
    | true => exact .inl ⟨by simp, fun _ => Iff.rfl⟩
    | false =>
      cases hexpr : s.spawnExpr with
      | false => exact .inr ⟨by simp, htracked, herased⟩
      | true =>
        cases hplaced : w.placeAtMe s.acts with
        | failed => exact .inr ⟨by simp, htracked, herased⟩
        | notARef => exact .inr ⟨by simp, htracked, herased⟩
        | ref refID => exact .inl ⟨by simp, fun id => OrderedMap.mem_keys_modify _ _ _ _⟩

/-- The spawns succeed exactly when they lose no entity. -/
theorem spawnsSucceed_iff (w : World) (ids : List UInt32) (s : Manager) :
    SpawnsSucceed w ids s ↔
      ∀ id ∈ s.entities.keys, id ∈ (ids.foldl (spawnEntity w) s).entities.keys := by
  induction ids generalizing s with
  | nil => exact iff_of_true trivial fun _ h => h
  | cons k ids ih =>
    rw [SpawnsSucceed, List.foldl_cons]
    obtain ⟨hok, hkeys⟩ | ⟨hfails, hin, hout⟩ := spawnEntity_keys w s k
    · rw [and_iff_right hok, ih]
      exact forall_congr' fun id => by rw [hkeys id]
    · refine iff_of_false (fun h => hfails h.1) fun hall => hout ?_
      exact spawns_tracked ids (hall k hin)

/-- A tick through its guards leaves no data behind exactly when it is orderly. -/
theorem tick_covered_iff {fuel : Nat} {w : World} {t : ℚ} {s s' : Manager} (h : Aligned s)
    (hready : ready w s = true) (ht : tick fuel w t s = some s') : Covered s' ↔ Orderly w s := by
  obtain ⟨hcovered, hsampled⟩ := h
  have hinterp := tick_interp ht
  cases hwork : hasPendingWork s with
  | false =>
    obtain rfl := tick_idle (.inr hwork) ht
    obtain ⟨hspawns, hdespawns⟩ := idle_queues hwork
    refine iff_of_true hcovered ⟨?_, ?_⟩
    · simp [hdespawns]
    · rw [hspawns]
      trivial
  | true =>
    have hkeys := tick_keys hready hwork ht
    have hfold : (respawned w s).entities = (s.pendingSpawns.foldl (spawnEntity w)
        (despawnPhase w { s with acts := s.acts ++ [.suppressConsole] })).entities := by
      rw [respawned, spawnPhase, despawned_pendingSpawns]
    constructor
    · intro hafter
      have hkept : ∀ id ∈ s.interp.keys, id ∈ (respawned w s).entities.keys := fun id hid =>
        (hkeys id).mp (hafter id (hinterp ▸ hid))
      refine ⟨fun id hqueued hid => (respawned_tracked (hkept id hid)).2 hqueued, ?_⟩
      rw [spawnsSucceed_iff, ← hfold]
      intro id hid
      obtain ⟨htracked, hnot⟩ := despawned_tracked.mp hid
      exact hkept id ((hsampled id htracked).resolve_right hnot)
    · rintro ⟨hdeparted, hplaced⟩ id hid
      rw [hinterp] at hid
      rw [spawnsSucceed_iff, ← hfold] at hplaced
      exact (hkeys id).mpr (hplaced id (despawned_tracked.mpr
        ⟨hcovered id hid, fun hqueued => hdeparted id hqueued hid⟩))

theorem tick_sampled {fuel : Nat} {w : World} {t : ℚ} {s s' : Manager} (h : Sampled s)
    (ht : tick fuel w t s = some s') : Sampled s' := by
  have hinterp := tick_interp ht
  obtain ⟨rfl, -⟩ | ⟨hready, hwork, -⟩ := tick_cases ht
  · exact h
  · intro id hid
    obtain ⟨htracked, hkept⟩ := respawned_tracked ((tick_keys hready hwork ht id).mp hid)
    rw [hinterp]
    exact .inl ((h id htracked).resolve_right hkept)

/-! ## Runs -/

/-- A property of the states before and after every tick of a run that passes its guards. -/
def AtTicks (P : World → Manager → Manager → Prop) : Manager → List Op → Prop
  | _, [] => True
  | s, op :: ops =>
    (∀ fuel w t s', op = .tick fuel w t → ready w s = true → tick fuel w t s = some s' →
      P w s s') ∧ ∀ s', step s op = some s' → AtTicks P s' ops

theorem step_aligned {s s' : Manager} {op : Op} (h : Aligned s) (hs : step s op = some s')
    (htick : ∀ fuel w t, op = .tick fuel w t → ready w s = true → Covered s') : Aligned s' := by
  cases op with
  | updateFromWorldSnapshot w states t =>
    cases hs
    exact updateFromWorldSnapshot_aligned h w states t
  | applyFireEvent w k t =>
    cases hs
    exact applyFireEvent_aligned h w k t
  | removeEntity k =>
    cases hs
    exact removeEntity_aligned h k
  | tick fuel w t =>
    by_cases hready : ready w s = true
    · exact ⟨htick fuel w t rfl hready, tick_sampled h.sampled hs⟩
    · rw [step, tick, if_pos (by simpa using hready)] at hs
      cases hs
      exact h
  | shutdown w =>
    cases hs
    exact shutdown_aligned w s

theorem atTicks_covered_iff {s : Manager} (h : Aligned s) (ops : List Op) :
    AtTicks (fun _ _ s' => Covered s') s ops ↔ AtTicks (fun w s _ => Orderly w s) s ops := by
  induction ops generalizing s with
  | nil => exact Iff.rfl
  | cons op ops ih =>
    have hfirst : (∀ fuel w t s', op = .tick fuel w t → ready w s = true →
        tick fuel w t s = some s' → Covered s') ↔ ∀ fuel w t s', op = .tick fuel w t →
          ready w s = true → tick fuel w t s = some s' → Orderly w s := by
      refine forall₄_congr fun fuel w t s' => ?_
      refine forall₃_congr fun _ hready ht => ?_
      exact tick_covered_iff h hready ht
    rw [AtTicks, AtTicks, ← hfirst]
    refine and_congr_right fun hcovered => forall₂_congr fun s' hs => ih ?_
    refine step_aligned h hs fun fuel w t hop hready => hcovered fuel w t s' hop hready ?_
    rw [← hs, hop, step]

/-- In every run of the entity manager, interpolation data exists for tracked entities
only, after all ticks that pass their guards, exactly when all these ticks are orderly. -/
theorem samples_tracked_iff (script console compilesSpawn : Bool) (compiles : Script → Bool)
    (ops : List Op) :
    AtTicks (fun _ _ s' => Covered s') (init {} script console compilesSpawn compiles) ops ↔
    AtTicks (fun w s _ => Orderly w s) (init {} script console compilesSpawn compiles) ops := by
  have hempty : Aligned (init {} script console compilesSpawn compiles) := by
    unfold init
    dsimp only
    split <;> exact cleared_aligned rfl rfl
  exact atTicks_covered_iff hempty ops

end Fnvmp.EntityManager

namespace Fnvmp.Client

open Engine Protocol Net EntityManager Delivery PackedCodec
open Server (Event Action Peer HostOrder)

/-- Player 1 is broadcast twice and leaves. -/
def parted : List Event :=
  [.connect 1 0, .connect 2 0, .receive 1 (msgPlayerSnapshot.encode (.still 0 1 1)) 0,
    .broadcast snapshotSendInterval, .broadcast (2 * snapshotSendInterval), .disconnect 1]

/-- The second broadcast and the departure are polled together, in the order they were
sent; the departure is handed over first. -/
def crowded : Frame := quietFrame [.receive shown, .receive departed]

theorem departed_samples_remain :
    ¬ ∀ (es : List Event) (s : Server.State) (acts : List Action) (p : Peer)
      (got : List (Channel × List UInt8)) (frames : List Frame) (f : Frame) (c d : Plugin)
      (sent sent' : List Sent),
      HostOrder (fun _ => false) es → Server.run (Server.start 0) es = some (s, acts) →
      Delivers (packetsTo p acts) got → packetsAt (frames ++ [f]) = got.map Prod.snd →
      (∀ g ∈ frames ++ [f], g.world.Honest) → run freshClient frames = some (c, sent) →
      frame c f = some (d, sent') → ready f.world c.manager = true → Covered d.manager := by
  intro h
  have hserver : (Server.run (Server.start 0) parted).any fun r =>
      decide (packetsTo 2 r.2 = [(.system, connectAck), (.unreliable, shown),
        (.unreliable, shown), (.gameEvents, departed)]) := by decide +kernel
  obtain ⟨⟨s, acts⟩, hrun, hacts⟩ := (Option.any_eq_true _ _).mp hserver
  obtain ⟨⟨c, sent⟩, hframes⟩ := Option.isSome_iff_exists.mp
    (show (run freshClient [greeted, belated]).isSome from by decide +kernel)
  have hlast : (run freshClient [greeted, belated]).all (fun r =>
      ready crowded.world r.1.manager && (frame r.1 crowded).any fun r' =>
        decide (1 ∈ r'.1.manager.interp.keys) && decide (1 ∉ r'.1.manager.entities.keys)) := by
    decide +kernel
  simp only [hframes, Option.all_some, Bool.and_eq_true, Option.any_eq_true, decide_eq_true_eq,
    Prod.exists] at hacts hlast
  obtain ⟨hready, d, sent', hframe, hleft, hgone⟩ := hlast
  have hdelivers : Delivers (packetsTo 2 acts) (packetsTo 2 acts) :=
    ⟨fun _ _ => List.prefix_rfl, List.Subperm.refl _⟩
  refine hgone (h parted s acts 2 _ [greeted, belated] crowded c d sent sent' (by decide +kernel)
    hrun hdelivers ?_ ?_ hframes hframe hready 1 hleft)
  · rw [hacts]
    rfl
  · intro g hg
    simp only [List.cons_append, List.nil_append, List.mem_cons, List.not_mem_nil, or_false] at hg
    rcases hg with rfl | rfl | rfl <;> exact quietWorld_honest

end Fnvmp.Client
