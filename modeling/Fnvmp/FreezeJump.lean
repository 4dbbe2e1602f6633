import Fnvmp.RenderedPast

/-!
# How far the rendered position moves

While no sample arrives the position follows the track, no faster than its fastest part.
At the end of the extrapolation it goes back to the newest sample, in no time.
-/

namespace Fnvmp.Interp

open Keyframes

/-! ## Speeds -/

/-- The largest of the three components. -/
def speed (v : Axis → ℚ) : ℚ := max |v .x| (max |v .y| |v .z|)

theorem speed_le_iff {v : Axis → ℚ} {V : ℚ} : speed v ≤ V ↔ ∀ axis, |v axis| ≤ V := by
  rw [speed, max_le_iff, max_le_iff]
  refine ⟨fun h axis => ?_, fun h => ⟨h .x, h .y, h .z⟩⟩
  cases axis
  · exact h.1
  · exact h.2.1
  · exact h.2.2

theorem speed_nonneg (v : Axis → ℚ) : 0 ≤ speed v := (abs_nonneg _).trans (le_max_left _ _)

/-- The slopes from one sample to the next. -/
def slopes (p : SnapshotSample ℚ × SnapshotSample ℚ) (axis : Axis) : ℚ :=
  slope SnapshotSample.timestamp (SnapshotSample.on axis) p.1 p.2

/-- The largest component of a velocity and of the slopes between consecutive samples. -/
def topSpeed (v : Axis → ℚ) (l : List (SnapshotSample ℚ)) : ℚ :=
  ((neighbours l).map fun p => speed (slopes p)).foldr max (speed v)

theorem speed_le_topSpeed (v : Axis → ℚ) (l : List (SnapshotSample ℚ)) :
    speed v ≤ topSpeed v l := by
  rw [topSpeed]
  induction (neighbours l).map fun p => speed (slopes p) with
  | nil => exact le_rfl
  | cons s speeds ih => exact ih.trans (le_max_right _ _)

theorem slopes_le_topSpeed (v : Axis → ℚ) {l : List (SnapshotSample ℚ)}
    {p : SnapshotSample ℚ × SnapshotSample ℚ} (hp : p ∈ neighbours l) :
    speed (slopes p) ≤ topSpeed v l := by
  have hmem : speed (slopes p) ∈ (neighbours l).map fun p => speed (slopes p) :=
    List.mem_map_of_mem hp
  rw [topSpeed]
  generalize ((neighbours l).map fun p => speed (slopes p)) = speeds at hmem
  induction speeds with
  | nil => cases hmem
  | cons s speeds ih =>
    rcases List.mem_cons.mp hmem with heq | hmem
    · exact heq ▸ le_max_left _ _
    · exact (ih hmem).trans (le_max_right _ _)

/-! ## Along the track -/

theorem Apart.before {gap : ℚ} {l : List (SnapshotSample ℚ)} (h : Apart gap l) (hgap : 0 ≤ gap) :
    l.IsChain fun a b => a.timestamp < b.timestamp :=
  h.imp fun _ _ hab => by linarith

section track

variable {v : Axis → ℚ} {o : SnapshotSample ℚ} {rest : List (SnapshotSample ℚ)}

/-- Each coordinate of the track is a track of straight lines. -/
theorem track_on (happart : Apart (1 / 1000) (o :: rest)) (axis : Axis) (x : ℚ) :
    (track v x o rest).on axis = play SnapshotSample.timestamp (SnapshotSample.on axis)
      (line SnapshotSample.timestamp (SnapshotSample.on axis))
      (fun c x => c.on axis + v axis * (x - c.timestamp)) x o rest := by
  have hcoord : (track v x o rest).on axis = play SnapshotSample.timestamp
      (SnapshotSample.on axis) (fun a b x => (between a b x).on axis)
      (fun c x => c.on axis + v axis * (x - c.timestamp)) x o rest := by
    rw [track, play_map (Pose.on axis)]
    cases axis <;> rfl
  rw [hcoord]
  refine play_congr fun p hp => ?_
  have hgap := isChain_neighbours happart p hp
  rw [between, if_pos (by linarith)]
  cases axis <;> rfl

theorem track_rate (happart : Apart (1 / 1000) (o :: rest)) (axis : Axis) :
    RateOn (topSpeed v (o :: rest)) (fun x => (track v x o rest).on axis) Set.univ := by
  refine (play_rate SnapshotSample.timestamp (SnapshotSample.on axis) (v := v axis) ?_
    (happart.before (by norm_num)) fun p hp => ?_).congr fun x _ => track_on happart axis x
  · exact speed_le_iff.mp (speed_le_topSpeed v (o :: rest)) axis
  · exact speed_le_iff.mp (slopes_le_topSpeed v hp) axis

theorem track_end (happart : Apart (1 / 1000) (o :: rest)) {last : SnapshotSample ℚ}
    (hlast : (o :: rest).getLast? = some last) (axis : Axis) :
    (track v last.timestamp o rest).on axis = last.on axis := by
  rw [track_on happart]
  refine play_end (happart.before (by norm_num)) (fun p hp => line_end _ _ ?_) hlast
  have hgap := isChain_neighbours happart p hp
  linarith

theorem track_beyond (happart : Apart (1 / 1000) (o :: rest)) {last : SnapshotSample ℚ}
    (hlast : (o :: rest).getLast? = some last) {x : ℚ} (hx : last.timestamp < x) :
    track v x o rest = drifting v last x := by
  have hchain := happart.before (by norm_num)
  rw [track, play_beyond fun b hb => (le_last hchain hlast b hb).trans_lt hx]
  rw [List.getLast?_eq_getLast_of_ne_nil (List.cons_ne_nil o rest)] at hlast
  rw [Option.some.inj hlast]

end track

/-! ## The freeze -/

/-- What is shown at a time: the track, until the extrapolation ends. -/
def shown (v : Axis → ℚ) (o : SnapshotSample ℚ) (rest : List (SnapshotSample ℚ))
    (last : SnapshotSample ℚ) (t : ℚ) : Pose ℚ :=
  if t - last.timestamp ≤ extrapTimeout then track v (t - interpDelay) o rest else last.pose

/-- A buffer with one sample has no velocity yet. -/
theorem velocity_first {pushes : List (SnapshotSample ℚ)} {o : SnapshotSample ℚ}
    (hkept : newest pushes = [o]) : velocity pushes = 0 := by
  have hlength := congrArg List.length hkept
  simp only [newest, List.length_drop, List.length_singleton, bufferSize] at hlength
  obtain ⟨a, rfl⟩ := List.length_eq_one_iff.mp (show pushes.length = 1 by omega)
  rfl

theorem reference_shown {pushes : List (SnapshotSample ℚ)} (happart : Apart (1 / 1000) pushes)
    {o last : SnapshotSample ℚ} {rest : List (SnapshotSample ℚ)}
    (hkept : newest pushes = o :: rest) (hlast : (o :: rest).getLast? = some last) (t : ℚ) :
    reference pushes (t - interpDelay) t = some (shown (velocity pushes) o rest last t) := by
  have hgaps : Apart (1 / 1000) (o :: rest) := hkept ▸ happart.newest
  have hend : (o :: rest).getLast (List.cons_ne_nil o rest) = last := by
    rw [List.getLast?_eq_getLast_of_ne_nil (List.cons_ne_nil o rest)] at hlast
    exact Option.some.inj hlast
  by_cases hx : t - interpDelay ≤ last.timestamp
  · have hmoving : t - last.timestamp ≤ extrapTimeout := by
      rw [interpDelay] at hx
      rw [extrapTimeout]
      linarith
    rw [shown, if_pos hmoving]
    exact reference_within hkept (by rw [hend]; exact hx) _ t
  · have hbeyond := track_beyond (v := velocity pushes) hgaps hlast (not_le.mp hx)
    rw [shown, hbeyond]
    by_cases hone : rest = []
    · subst hone
      obtain rfl : o = last := hend
      have hstill : drifting (velocity pushes) o (t - interpDelay) = o.pose := by
        rw [velocity_first hkept]
        simp [drifting, SnapshotSample.pose]
      rw [reference, hkept, hstill, ite_self]
      exact if_pos (.inl rfl)
    · have holdest := le_last (hgaps.before (by norm_num)) hlast o List.mem_cons_self
      have hlate : ¬ (rest = [] ∨ t - interpDelay ≤ o.timestamp) :=
        not_or.mpr ⟨hone, fun hle => hx (hle.trans holdest)⟩
      rw [reference, hkept]
      simp only [if_neg hlate, hend, if_neg hx]
      exact (apply_ite some _ _ _).symm

theorem drifting_distance (v : Axis → ℚ) (last : SnapshotSample ℚ) {x : ℚ}
    (hx : last.timestamp ≤ x) (axis : Axis) :
    |last.pose.on axis - (drifting v last x).on axis| = |v axis| * (x - last.timestamp) := by
  rw [← abs_of_nonneg (sub_nonneg.mpr hx), ← abs_mul, abs_sub_comm]
  congr 1
  cases axis <;> simp [drifting, SnapshotSample.pose, Pose.on]

/-- Back at the last sample, the position has kept to the speed of the track exactly when the
drift was within the bound. -/
theorem freeze_rate_iff {v : Axis → ℚ} {o last : SnapshotSample ℚ}
    {rest : List (SnapshotSample ℚ)} (happart : Apart (1 / 1000) (o :: rest))
    (hlast : (o :: rest).getLast? = some last) {x d : ℚ} (hd : 0 ≤ d)
    (hlong : last.timestamp - x ≤ d) :
    (∀ axis, |last.pose.on axis - (track v x o rest).on axis| ≤ topSpeed v (o :: rest) * d) ↔
      speed v * (x - last.timestamp) ≤ topSpeed v (o :: rest) * d := by
  have hV : 0 ≤ topSpeed v (o :: rest) := (speed_nonneg v).trans (speed_le_topSpeed v _)
  rcases le_or_gt x last.timestamp with hwithin | hbeyond
  · have hearlier : speed v * (x - last.timestamp) ≤ 0 :=
      mul_nonpos_of_nonneg_of_nonpos (speed_nonneg v) (by linarith)
    refine iff_of_true (fun axis => ?_) (hearlier.trans (mul_nonneg hV hd))
    have hrate := track_rate (v := v) happart axis x trivial last.timestamp trivial hwithin
    dsimp only at hrate
    rw [track_end happart hlast] at hrate
    exact hrate.trans (mul_le_mul_of_nonneg_left hlong hV)
  · have hpos : 0 < x - last.timestamp := sub_pos.mpr hbeyond
    rw [track_beyond happart hlast hbeyond]
    simp only [drifting_distance v last hbeyond.le, ← le_div_iff₀ hpos, speed_le_iff]

/-- Between two times the position keeps to the speed of the track, unless the freeze lies
between them and the drift until the first of them was too far. -/
theorem shown_rate_iff {v : Axis → ℚ} {o last : SnapshotSample ℚ}
    {rest : List (SnapshotSample ℚ)} (happart : Apart (1 / 1000) (o :: rest))
    (hlast : (o :: rest).getLast? = some last) {t₁ t₂ : ℚ} (hle : t₁ ≤ t₂) :
    (∀ axis, |(shown v o rest last t₂).on axis - (shown v o rest last t₁).on axis| ≤
      topSpeed v (o :: rest) * (t₂ - t₁)) ↔
    (t₁ - last.timestamp ≤ extrapTimeout → extrapTimeout < t₂ - last.timestamp →
      speed v * (t₁ - interpDelay - last.timestamp) ≤ topSpeed v (o :: rest) * (t₂ - t₁)) := by
  have hV : 0 ≤ topSpeed v (o :: rest) := (speed_nonneg v).trans (speed_le_topSpeed v _)
  have hbound : 0 ≤ topSpeed v (o :: rest) * (t₂ - t₁) := mul_nonneg hV (sub_nonneg.mpr hle)
  rw [shown, shown]
  by_cases hmoving : t₂ - last.timestamp ≤ extrapTimeout
  · -- both times lie on the track
    have hmoving' : t₁ - last.timestamp ≤ extrapTimeout := by linarith
    rw [if_pos hmoving, if_pos hmoving']
    refine iff_of_true (fun axis => ?_) fun _ hfrozen => absurd hmoving (not_le.mpr hfrozen)
    have hrate := track_rate (v := v) happart axis (t₁ - interpDelay) trivial (t₂ - interpDelay)
      trivial (by linarith)
    rwa [sub_sub_sub_cancel_right] at hrate
  · rw [if_neg hmoving]
    by_cases hmoving' : t₁ - last.timestamp ≤ extrapTimeout
    · -- the freeze lies between
      rw [if_pos hmoving']
      simp only [hmoving', not_le.mp hmoving, forall_const]
      refine freeze_rate_iff happart hlast (sub_nonneg.mpr hle) ?_
      rw [interpDelay]
      rw [extrapTimeout] at hmoving
      linarith
    · -- the freeze is over
      rw [if_neg hmoving']
      refine iff_of_true (fun axis => ?_) fun hmoving'' => absurd hmoving'' hmoving'
      simpa using hbound

/-- Between two times with no push, the position keeps to the largest slope in the buffer
exactly when the freeze does not lie between them or the drift was still within the bound. -/
theorem position_rate_iff (changes : List Change) (id : UInt32)
    (happart : Apart (1 / 1000) (pushed id changes)) (state : EntityInterpState ℚ)
    (hid : (built changes).find? id = some state) (last : SnapshotSample ℚ)
    (hlast : (retained state).getLast? = some last) (t₁ t₂ : ℚ) (hle : t₁ ≤ t₂) :
    ∃ n p q, (∀ fuel ≥ n,
      getState fuel (built changes) id (t₁ - interpDelay) t₁ = some (some p) ∧
      getState fuel (built changes) id (t₂ - interpDelay) t₂ = some (some q)) ∧
    ((∀ axis, |q.on axis - p.on axis| ≤ topSpeed state.velocity (retained state) * (t₂ - t₁)) ↔
      (t₁ - last.timestamp ≤ extrapTimeout → extrapTimeout < t₂ - last.timestamp →
        speed state.velocity * (t₁ - interpDelay - last.timestamp) ≤
          topSpeed state.velocity (retained state) * (t₂ - t₁))) := by
  have h := built_reflects changes id
  rw [hid, Option.getD_some] at h
  obtain ⟨n, hn⟩ := getState_reference changes id (t₁ - interpDelay) t₁
  obtain ⟨k, hk⟩ := getState_reference changes id (t₂ - interpDelay) t₂
  rw [h.kept] at hlast ⊢
  rw [h.moving]
  cases hkept : newest (pushed id changes) with
  | nil => simp [hkept] at hlast
  | cons o rest =>
    rw [hkept] at hlast
    refine ⟨n + k, _, _, fun fuel hfuel => ?_, shown_rate_iff (hkept ▸ happart.newest) hlast hle⟩
    rw [hn fuel (by omega), hk fuel (by omega), reference_shown happart hkept hlast,
      reference_shown happart hkept hlast]
    exact ⟨rfl, rfl⟩

/-- Two samples of a run at 300 units a second along the first axis. -/
def sprint : List Change := [.push 7 ⟨0, 0, 0, 0, 0⟩, .push 7 ⟨10, 0, 0, 0, 1 / 30⟩]

theorem sprint_kept : ((built sprint).find? 7).isSome = true := by decide +kernel

theorem position_rate_sprint : ∃ n p q, (∀ fuel ≥ n,
      getState fuel (built sprint) 7 (1 / 30 - interpDelay) (1 / 30) = some (some p) ∧
      getState fuel (built sprint) 7 (1 / 5 - interpDelay) (1 / 5) = some (some q)) ∧
    ∀ axis, |q.on axis - p.on axis| ≤ 50 := by
  obtain ⟨n, p, q, hstates, hrate⟩ := position_rate_iff sprint 7 (by decide +kernel)
    (((built sprint).find? 7).get sprint_kept) (Option.some_get _).symm ⟨10, 0, 0, 0, 1 / 30⟩
    (by decide +kernel) (1 / 30) (1 / 5) (by decide +kernel)
  have hbound : topSpeed (((built sprint).find? 7).get sprint_kept).velocity
      (retained (((built sprint).find? 7).get sprint_kept)) * (1 / 5 - 1 / 30) = 50 := by
    decide +kernel
  rw [hbound] at hrate
  refine ⟨n, p, q, hstates, hrate.mpr fun _ hfrozen => ?_⟩
  norm_num [extrapTimeout] at hfrozen

/-- A millisecond after half a second of extrapolation the runner is 130 units back. -/
theorem position_jumps :
    ¬ ∀ (changes : List Change) (id : UInt32) (state : EntityInterpState ℚ) (t₁ t₂ : ℚ)
      (fuel : Nat) (p q : Pose ℚ), Apart (1 / 1000) (pushed id changes) →
      (built changes).find? id = some state → t₁ ≤ t₂ →
      getState fuel (built changes) id (t₁ - interpDelay) t₁ = some (some p) →
      getState fuel (built changes) id (t₂ - interpDelay) t₂ = some (some q) →
      ∀ axis, |q.on axis - p.on axis| ≤
        topSpeed state.velocity (retained state) * (t₂ - t₁) := by
  intro h
  have hrate := h sprint 7 (((built sprint).find? 7).get sprint_kept) (8 / 15) (8 / 15 + 1 / 1000) 0
    ⟨140, 0, 0, 0⟩ ⟨10, 0, 0, 0⟩ (by decide +kernel) (Option.some_get _).symm (by decide +kernel)
    (by decide +kernel) (by decide +kernel) .x
  revert hrate
  decide +kernel

end Fnvmp.Interp
