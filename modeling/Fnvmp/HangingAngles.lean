import Fnvmp.AngleLoops
import Fnvmp.SampleOrder

/-!
# Packets that hang a client

Rotations are relayed and buffered bit for bit. A client hangs in the interpolation of an
entity exactly when two neighbouring samples of it are infinitely apart.
-/

namespace Fnvmp.Client

open ExactFloat Engine Protocol Net Delivery EntityManager Interp
open Server (Event Action HostOrder reported encodeWorld)

/-! ## Buffers of a running client -/

/-- Buffers filled in the order of a clock that stands at `t`. -/
def TimedAt (t : ℚ) (states : InterpStates FloatVal) : Prop :=
  Bounded states ∧ ∀ id, InTime (samples states id) ∧ ∀ a ∈ samples states id, a.timestamp ≤ t

theorem timedAt_push {t : ℚ} {states : InterpStates FloatVal} (h : TimedAt t states)
    (es : EntityState) : TimedAt t (pushState t states es) := by
  obtain ⟨hbounded, hsamples⟩ := h
  refine ⟨pushSnapshot_bounded hbounded _ _ _ _ _ _, fun id => ?_⟩
  obtain ⟨hin, hpast⟩ := hsamples id
  rw [pushState, pushSnapshot_samples hbounded]
  split
  · refine ⟨hin.push hpast, fun a ha => ?_⟩
    rcases List.mem_append.mp (List.mem_of_mem_drop ha) with hold | hnew
    · exact hpast a hold
    · obtain rfl := List.mem_singleton.mp hnew
      exact le_rfl
  · exact ⟨hin, hpast⟩

theorem timedAt_erase {t : ℚ} {states : InterpStates FloatVal} (h : TimedAt t states)
    (k : UInt32) : TimedAt t (Interp.removeEntity states k) := by
  obtain ⟨hbounded, hsamples⟩ := h
  refine ⟨fun id state hid => ?_, fun id => ?_⟩
  · rw [Interp.removeEntity, OrderedMap.find?_erase] at hid
    split at hid
    · cases hid
    · exact hbounded id state hid
  · unfold samples
    rw [Interp.removeEntity, OrderedMap.find?_erase]
    split
    · exact ⟨List.Pairwise.nil, by simp⟩
    · exact hsamples id

theorem timedAt_later {t t' : ℚ} {states : InterpStates FloatVal} (h : TimedAt t states)
    (hle : t ≤ t') : TimedAt t' states :=
  ⟨h.1, fun id => ⟨(h.2 id).1, fun a ha => ((h.2 id).2 a ha).trans hle⟩⟩

theorem removals_timed {t : ℚ} (net : NetClient) {s : Manager} (h : TimedAt t s.interp) :
    TimedAt t (removals net s).interp := by
  unfold removals
  induction net.disconnectedEntities generalizing s with
  | nil => exact h
  | cons id ids ih =>
    apply ih
    change TimedAt t (EntityManager.removeEntity id s).interp
    unfold EntityManager.removeEntity
    split
    · exact h
    · exact timedAt_erase h id

theorem fires_interp (net : NetClient) (w : World) (t : ℚ) (s : Manager) :
    (fires net w t s).interp = s.interp := by
  refine foldl_keeps Manager.interp _ (fun s id => ?_) _ s
  obtain heq | ⟨ent, sc, -, -, -, -, heq⟩ := applyFireEvent_cases w id t s
  · rw [heq]
  · rw [heq]

theorem received_timed {t : ℚ} (net : NetClient) (w : World) {s : Manager}
    (h : TimedAt t s.interp) : TimedAt t (received net w t s).interp := by
  have hfires : TimedAt t (fires net w t (removals net s)).interp := by
    rw [fires_interp]
    exact removals_timed net h
  unfold received
  dsimp only
  split
  · rw [updateFromWorldSnapshot_interp]
    generalize pushedBy w (worldStates net) t (fires net w t (removals net s)) = states
    generalize (fires net w t (removals net s)).interp = interp at hfires
    induction states generalizing interp with
    | nil => exact hfires
    | cons es states ih => exact ih _ (timedAt_push hfires es)
  · exact hfires

/-- As long as the clock does not run backwards, a frame fills the buffers in order. -/
theorem frame_timed {c c' : Plugin} {f : Frame} {sent : List Sent}
    (h : TimedAt c.gameTime c.manager.interp) (hdt : 0 ≤ f.dt)
    (hf : frame c f = some (c', sent)) : TimedAt c'.gameTime c'.manager.interp := by
  obtain ⟨net, -, htick, -⟩ := frame_cases hf
  rw [tick_interp htick, frame_gameTime hf]
  exact received_timed net f.world (timedAt_later h (le_add_of_nonneg_right hdt))

theorem run_timed {c c' : Plugin} {frames : List Frame} {sent : List Sent}
    (h : TimedAt c.gameTime c.manager.interp) (hdt : ∀ f ∈ frames, 0 ≤ f.dt)
    (hrun : run c frames = some (c', sent)) : TimedAt c'.gameTime c'.manager.interp := by
  have hrule := EventRun.exec_rule
    (fun c fs _ => TimedAt c.gameTime c.manager.interp ∧ ∀ f ∈ fs, 0 ≤ f.dt) []
    (fun c f fs _ c' _ hc hf => ⟨frame_timed hc.1 (hc.2 f List.mem_cons_self) hf,
      fun g hg => hc.2 g (List.mem_cons_of_mem f hg)⟩) ⟨h, hdt⟩ hrun
  exact hrule.1

theorem start_timed (gameTime : ℚ) (script console compilesSpawn : Bool)
    (compiles : Script → Bool) : TimedAt gameTime
      (start gameTime script console compilesSpawn compiles).manager.interp := by
  have hnone : (start gameTime script console compilesSpawn compiles).manager.interp = ∅ := by
    unfold start init
    dsimp only
    split <;> rfl
  rw [hnone]
  refine ⟨fun id state hid => ?_, fun id => ?_⟩
  · rw [OrderedMap.find?_empty] at hid
    cases hid
  · rw [samples, OrderedMap.find?_empty]
    exact ⟨List.Pairwise.nil, by simp⟩

/-- Whatever packets a client has received, the interpolation of an entity ends at every
render time exactly when no neighbours among its samples are infinitely apart. -/
theorem interpolation_ends_iff (gameTime : ℚ) (script console compilesSpawn : Bool)
    (compiles : Script → Bool) (frames : List Frame) (hdt : ∀ f ∈ frames, 0 ≤ f.dt) (c : Plugin)
    (sent : List Sent)
    (hrun : run (start gameTime script console compilesSpawn compiles) frames = some (c, sent))
    (id : UInt32) :
    (∀ renderTime currentTime, ∃ fuel,
      getState fuel c.manager.interp id renderTime currentTime ≠ none) ↔
    ¬ HasInfiniteTurn (samples c.manager.interp id) :=
  getState_terminates_iff
    ((run_timed (start_timed gameTime script console compilesSpawn compiles) hdt hrun).2 id).1

/-! ## A turn that does not end -/

/-- A snapshot whose `rotZ` is positive infinity. -/
def spun : MsgPlayerSnapshot := { MsgPlayerSnapshot.still 0 1 1 with rotZ := 0x7f800000 }

/-- Player 1 sends the two snapshots, each is broadcast. -/
def turns : List Event :=
  relayed [msgPlayerSnapshot.encode spun, msgPlayerSnapshot.encode (.still 0 1 1)]

/-- Player 2 receives both broadcasts. -/
def dizzied : List Frame :=
  [greeted, quietFrame [.receive (encodeWorld [reported spun])],
    quietFrame [.receive (encodeWorld [reported (.still 0 1 1)])]]

theorem infinite_turn_hangs :
    ¬ ∀ (es : List Event) (s : Server.State) (acts : List Action) (p : Server.Peer)
      (got : List (Channel × List UInt8)) (frames : List Frame) (c : Plugin) (sent : List Sent),
      HostOrder (fun _ => false) es → Server.run (Server.start 0) es = some (s, acts) →
      Delivers (packetsTo p acts) got → packetsAt frames = got.map Prod.snd →
      (∀ f ∈ frames, 0 ≤ f.dt) → run freshClient frames = some (c, sent) →
      ∀ id renderTime currentTime, ∃ fuel,
        getState fuel c.manager.interp id renderTime currentTime ≠ none := by
  intro h
  have hserver : (Server.run (Server.start 0) turns).any fun r =>
      decide (packetsTo 2 r.2 = [(.system, connectAck),
        (.unreliable, encodeWorld [reported spun]),
        (.unreliable, encodeWorld [reported (.still 0 1 1)])]) := by decide +kernel
  obtain ⟨⟨s, acts⟩, hrun, hacts⟩ := (Option.any_eq_true _ _).mp hserver
  have hclient : (run freshClient dizzied).any fun r =>
      decide ((samples r.1.manager.interp 1).map (fun a => (a.rotZ, a.timestamp)) =
        [(.inf false, 2 / 100), (.fin 0, 3 / 100)]) := by decide +kernel
  obtain ⟨⟨c, sent⟩, hframes, hsamples⟩ := (Option.any_eq_true _ _).mp hclient
  simp only [decide_eq_true_eq] at hacts hsamples
  obtain ⟨a, l, hcut, ha, hl⟩ := List.map_eq_cons_iff.mp hsamples
  obtain ⟨b, l', rfl, hb, hl'⟩ := List.map_eq_cons_iff.mp hl
  obtain rfl := List.map_eq_nil_iff.mp hl'
  have hneighbours : samples c.manager.interp 1 = [] ++ a :: b :: [] := hcut
  simp only [Prod.mk.injEq] at ha hb
  have hdelivers : Delivers (packetsTo 2 acts) (packetsTo 2 acts) :=
    ⟨fun _ _ => List.prefix_rfl, List.Subperm.refl _⟩
  obtain ⟨fuel, hfuel⟩ := h turns s acts 2 _ dizzied c sent (by decide +kernel) hrun hdelivers
    (by rw [hacts]; decide +kernel) (by decide +kernel) hframes 1 (3 / 100) 0
  have htimes : InTime (samples c.manager.interp 1) := by
    rw [hcut]
    simp [InTime, ha.2, hb.2]
    norm_num
  apply hfuel
  rw [getState_between htimes hneighbours (by rw [ha.2]; norm_num) hb.2.ge,
    interpolate, ha.1, hb.1, lerpAngle_hangs _ _ _ true rfl]
  rfl

/-- A player that stands still. -/
theorem interpolation_ends_still : ∃ c sent,
    run freshClient [greeted, belated] = some (c, sent) ∧
    ∀ renderTime currentTime, ∃ fuel,
      getState fuel c.manager.interp 1 renderTime currentTime ≠ none := by
  have hclient : (run freshClient [greeted, belated]).any fun r =>
      decide ((samples r.1.manager.interp 1).map SnapshotSample.rotZ = [.fin 0]) := by
    decide +kernel
  obtain ⟨⟨c, sent⟩, hframes, hsamples⟩ := (Option.any_eq_true _ _).mp hclient
  simp only [decide_eq_true_eq] at hsamples
  refine ⟨c, sent, hframes, (interpolation_ends_iff 0 true true true (fun _ => true)
    [greeted, belated] (by decide +kernel) c sent hframes 1).mpr ?_⟩
  rintro ⟨before, a, b, after, hcut, -, -⟩
  have hlength := congrArg List.length hsamples
  rw [hcut] at hlength
  simp only [List.length_map, List.length_append, List.length_cons, List.length_nil] at hlength
  omega

end Fnvmp.Client
