import Fnvmp.AngleLoops
import Fnvmp.Keyframes
import Mathlib.Algebra.Group.ModEq

/-!
# Interpolation as a function of the samples pushed

The buffers after any pushes and removals, in exact arithmetic. What is read for an entity
depends on the list of the samples pushed for it since it was last removed: the newest five
are a track of keyframes, and the velocity is a slope between two neighbours of the list.
-/

namespace Fnvmp.Interp

open Keyframes

/-! ## Histories -/

/-- A change to the buffers. -/
inductive Change
  | push (entityId : UInt32) (sample : SnapshotSample ℚ)
  | remove (entityId : UInt32)
  deriving DecidableEq

def Change.apply (states : InterpStates ℚ) : Change → InterpStates ℚ
  | .push entityId s => pushSnapshot states entityId s.posX s.posY s.posZ s.rotZ s.timestamp
  | .remove entityId => removeEntity states entityId

/-- The buffers after the changes. -/
def built (changes : List Change) : InterpStates ℚ := changes.foldl Change.apply ∅

theorem built_snoc (changes : List Change) (c : Change) :
    built (changes ++ [c]) = c.apply (built changes) := by
  rw [built, List.foldl_append]
  rfl

def Change.pushed (id : UInt32) (pushes : List (SnapshotSample ℚ)) :
    Change → List (SnapshotSample ℚ)
  | .push entityId s => if id = entityId then pushes ++ [s] else pushes
  | .remove entityId => if id = entityId then [] else pushes

/-- The samples pushed for an entity since its last removal, oldest first. -/
def pushed (id : UInt32) (changes : List Change) : List (SnapshotSample ℚ) :=
  changes.foldl (Change.pushed id) []

theorem pushed_snoc (id : UInt32) (changes : List Change) (c : Change) :
    pushed id (changes ++ [c]) = c.pushed id (pushed id changes) := by
  rw [pushed, List.foldl_append]
  rfl

/-! ## The reference -/

inductive Axis | x | y | z
  deriving DecidableEq

def SnapshotSample.on (axis : Axis) (s : SnapshotSample ℚ) : ℚ :=
  match axis with
  | .x => s.posX
  | .y => s.posY
  | .z => s.posZ

def Pose.on (axis : Axis) (p : Pose ℚ) : ℚ :=
  match axis with
  | .x => p.posX
  | .y => p.posY
  | .z => p.posZ

/-- A difference of angles less the whole turns in it. Half a turn keeps its sign. -/
def shortestArc (diff : ℚ) : ℚ :=
  if 0 ≤ diff then diff - 2 * pi * ⌈(diff - pi) / (2 * pi)⌉
  else diff - 2 * pi * ⌊(diff + pi) / (2 * pi)⌋

/-- Linear interpolation, along the shortest arc for the rotation. Of two samples that are
too close in time it gives the earlier one. -/
def between (a b : SnapshotSample ℚ) (renderTime : ℚ) : Pose ℚ :=
  if b.timestamp - a.timestamp > 1 / 10000 then
    ⟨line SnapshotSample.timestamp (SnapshotSample.on .x) a b renderTime,
      line SnapshotSample.timestamp (SnapshotSample.on .y) a b renderTime,
      line SnapshotSample.timestamp (SnapshotSample.on .z) a b renderTime,
      a.rotZ + (renderTime - a.timestamp) / (b.timestamp - a.timestamp) *
        shortestArc (b.rotZ - a.rotZ)⟩
  else a.pose

/-- The slope of the most recent push that came more than 0.001 s after the one before. -/
def velocity (pushes : List (SnapshotSample ℚ)) (axis : Axis) : ℚ :=
  match ((neighbours pushes).filter fun p =>
      decide (p.2.timestamp - p.1.timestamp > 1 / 1000)).getLast? with
  | none => 0
  | some (a, b) => slope SnapshotSample.timestamp (SnapshotSample.on axis) a b

def drifting (v : Axis → ℚ) (newest : SnapshotSample ℚ) (renderTime : ℚ) : Pose ℚ :=
  ⟨newest.posX + v .x * (renderTime - newest.timestamp),
    newest.posY + v .y * (renderTime - newest.timestamp),
    newest.posZ + v .z * (renderTime - newest.timestamp), newest.rotZ⟩

/-- The pose at a render time, given the samples pushed since the last removal. -/
def reference (pushes : List (SnapshotSample ℚ)) (renderTime currentTime : ℚ) :
    Option (Pose ℚ) :=
  match newest pushes with
  | [] => none
  | oldest :: rest =>
    let last := (oldest :: rest).getLast (List.cons_ne_nil oldest rest)
    if rest = [] ∨ renderTime ≤ oldest.timestamp then some oldest.pose
    else if renderTime ≤ last.timestamp then
      ((neighbours (oldest :: rest)).find? fun p => decide (renderTime ≤ p.2.timestamp)).map
        fun p => between p.1 p.2 renderTime
    else if currentTime - last.timestamp ≤ extrapTimeout then
      some (drifting (velocity pushes) last renderTime)
    else some last.pose

/-! ## The shortest arc -/

theorem shortestArc_modEq (diff : ℚ) : shortestArc diff ≡ diff [PMOD 2 * pi] := by
  rw [shortestArc, AddCommGroup.modEq_iff_zsmul]
  split
  · exact ⟨⌈(diff - pi) / (2 * pi)⌉, by simp only [zsmul_eq_mul]; ring⟩
  · exact ⟨⌊(diff + pi) / (2 * pi)⌋, by simp only [zsmul_eq_mul]; ring⟩

/-- The two loops of `LerpAngle` leave the shortest arc: one of them makes no pass. -/
theorem lerpAngle_shortest (a b t : ℚ) :
    ∃ n, ∀ fuel ≥ n, lerpAngle fuel a b t = some (a + t * shortestArc (b - a)) := by
  have hturn : 0 < 2 * pi := by linarith [pi_pos]
  have hends : ∀ n k e, unwindDown n (b - a) = some e → unwindUp k e = some (shortestArc (b - a)) →
      ∃ n, ∀ fuel ≥ n, lerpAngle fuel a b t = some (a + t * shortestArc (b - a)) := by
    intro n k e hdown hup
    refine ⟨n + k, fun fuel hfuel => ?_⟩
    obtain ⟨more, rfl⟩ := Nat.exists_eq_add_of_le hfuel
    rw [Nat.add_assoc]
    exact lerpAngle_ends hdown (unwindUp_mono hup)
  generalize b - a = diff at hends ⊢
  by_cases hpos : 0 ≤ diff
  · have hceil : ((⌈(diff - pi) / (2 * pi)⌉₊ : ℕ) : ℚ) = ⌈(diff - pi) / (2 * pi)⌉ := by
      apply natCast_ceil_eq_intCast_ceil_of_neg_one_lt
      rw [lt_div_iff₀ hturn]
      linarith [pi_pos]
    have harc : shortestArc diff = diff - 2 * pi * ⌈(diff - pi) / (2 * pi)⌉₊ := by
      rw [shortestArc, if_pos hpos, hceil]
    refine hends _ 0 _ (unwindDown_ends diff) ?_
    have hlt := Int.ceil_lt_add_one ((diff - pi) / (2 * pi))
    rw [div_add_one hturn.ne', lt_div_iff₀ hturn, ← hceil] at hlt
    rw [harc, unwindUp, Rat.cast_id, if_neg (by linarith)]
  · have hfloor : ((⌈(-pi - diff) / (2 * pi)⌉₊ : ℕ) : ℚ) = -⌊(diff + pi) / (2 * pi)⌋ := by
      rw [natCast_ceil_eq_intCast_ceil_of_neg_one_lt, ← Int.cast_neg, ← Int.ceil_neg, ← neg_div]
      · congr 3
        ring
      · rw [lt_div_iff₀ hturn]
        linarith [pi_pos]
    have harc : shortestArc diff = diff + 2 * pi * ⌈(-pi - diff) / (2 * pi)⌉₊ := by
      rw [shortestArc, if_neg hpos, hfloor]
      ring
    refine hends 0 _ diff ?_ (harc ▸ unwindUp_ends diff)
    rw [unwindDown, Rat.cast_id, if_neg (by linarith [pi_pos])]

theorem interpolate_between (a b : SnapshotSample ℚ) (renderTime : ℚ) :
    ∃ n, ∀ fuel ≥ n, interpolate fuel a b renderTime = some (between a b renderTime) := by
  rw [between]
  split
  next hapart =>
    obtain ⟨n, hn⟩ := lerpAngle_shortest a.rotZ b.rotZ
      ((renderTime - a.timestamp) / (b.timestamp - a.timestamp))
    refine ⟨n, fun fuel hfuel => ?_⟩
    simp only [interpolate, if_pos hapart, Rat.cast_id, hn fuel hfuel]
    rfl
  next hclose =>
    obtain ⟨n, hn⟩ := lerpAngle_shortest a.rotZ b.rotZ 0
    refine ⟨n, fun fuel hfuel => ?_⟩
    simp only [interpolate, if_neg hclose, Rat.cast_id, hn fuel hfuel, Option.map_some, zero_mul,
      add_zero]
    rfl

/-- A pose between two samples lies between their positions. -/
theorem between_mem {a b : SnapshotSample ℚ} {renderTime : ℚ} (ha : a.timestamp < renderTime)
    (hb : renderTime ≤ b.timestamp) (axis : Axis) :
    (between a b renderTime).on axis ∈ Set.uIcc (a.on axis) (b.on axis) := by
  rw [between]
  split
  · cases axis <;> exact line_mem _ _ ha hb
  · cases axis <;> exact Set.left_mem_uIcc

/-! ## The buffer of a history -/

def EntityInterpState.velocity (state : EntityInterpState ℚ) (axis : Axis) : ℚ :=
  match axis with
  | .x => state.velX
  | .y => state.velY
  | .z => state.velZ

/-- A buffer holds the newest samples of its history and the velocity of all of it. -/
structure Reflects (state : EntityInterpState ℚ) (pushes : List (SnapshotSample ℚ)) : Prop where
  bounded : state.count ≤ bufferSize
  kept : retained state = newest pushes
  moving : state.velocity = velocity pushes

theorem reflects_empty : Reflects emptyState [] where
  bounded := Nat.zero_le _
  kept := rfl
  moving := by
    funext axis
    cases axis <;> rfl

theorem newest_snoc (l : List (SnapshotSample ℚ)) (s : SnapshotSample ℚ) :
    newest (newest l ++ [s]) = newest (l ++ [s]) := by
  simp only [newest, List.length_append, List.length_drop, List.length_singleton]
  rw [← List.drop_append_of_le_length (by omega), List.drop_drop]
  congr 1
  simp only [bufferSize]
  omega

theorem newest_getLast (l : List (SnapshotSample ℚ)) : (newest l).getLast? = l.getLast? := by
  cases l with
  | nil => rfl
  | cons a l =>
    rw [newest, List.getLast?_drop, if_neg]
    simp only [List.length_cons, bufferSize]
    omega

/-- What the last push does to the velocity. -/
theorem velocity_snoc (l : List (SnapshotSample ℚ)) (a b : SnapshotSample ℚ) (axis : Axis) :
    velocity (l ++ [a, b]) axis = if b.timestamp - a.timestamp > 1 / 1000
      then slope SnapshotSample.timestamp (SnapshotSample.on axis) a b
      else velocity (l ++ [a]) axis := by
  have hlast : neighbours (l ++ [a, b]) = neighbours (l ++ [a]) ++ [(a, b)] :=
    neighbours_append l a [b]
  rw [velocity, hlast, List.filter_append]
  by_cases hgap : b.timestamp - a.timestamp > 1 / 1000
  · rw [if_pos hgap, List.filter_cons_of_pos (by simpa using hgap), List.filter_nil,
      List.getLast?_concat]
  · rw [if_neg hgap, List.filter_cons_of_neg (by simpa using hgap), List.filter_nil,
      List.append_nil]
    rfl

/-- With samples in the buffer the newest of it is the last one pushed. -/
theorem Reflects.last {state : EntityInterpState ℚ} {pushes : List (SnapshotSample ℚ)}
    (h : Reflects state pushes) (hpos : 0 < state.count) :
    pushes.getLast? = some (getSample state (state.count - 1)) := by
  rw [← retained_last state hpos, h.kept, newest_getLast]

theorem updateVelocity_velocity {state : EntityInterpState ℚ}
    {pushes : List (SnapshotSample ℚ)} (h : Reflects state pushes) (s : SnapshotSample ℚ) :
    (updateVelocity state s.posX s.posY s.posZ s.timestamp).velocity =
      velocity (pushes ++ [s]) := by
  funext axis
  rw [updateVelocity]
  by_cases hpos : 0 < state.count
  · obtain ⟨l, hl⟩ := List.getLast?_eq_some_iff.mp (h.last hpos)
    rw [if_pos hpos, hl, List.append_assoc, List.singleton_append, velocity_snoc, ← hl,
      ← h.moving]
    by_cases hgap : s.timestamp - (getSample state (state.count - 1)).timestamp > 1 / 1000
    · simp only [if_pos hgap, Rat.cast_id]
      cases axis <;> rfl
    · simp only [if_neg hgap]
  · have hnone : pushes = [] := by
      have hlength := congrArg List.length h.kept
      simp only [retained_length, newest, List.length_drop, bufferSize] at hlength
      exact List.eq_nil_of_length_eq_zero (by omega)
    rw [if_neg hpos, h.moving, hnone]
    rfl

theorem Reflects.push {state : EntityInterpState ℚ} {pushes : List (SnapshotSample ℚ)}
    (h : Reflects state pushes) (s : SnapshotSample ℚ) :
    Reflects (writeSample (updateVelocity state s.posX s.posY s.posZ s.timestamp) s)
      (pushes ++ [s]) := by
  obtain ⟨hcount, hretained⟩ := updateVelocity_buffer state s.posX s.posY s.posZ s.timestamp
  have hbounded := hcount ▸ h.bounded
  refine ⟨?_, ?_, ?_⟩
  · rw [writeSample_count _ _ hbounded]
    exact Nat.min_le_right _ _
  · rw [retained_writeSample _ _ hbounded, hretained, h.kept, newest_snoc]
  · rw [← updateVelocity_velocity h s]
    funext axis
    cases axis <;> rfl

/-- Every buffer holds the newest samples pushed for its entity. An entity without a buffer
counts as one with an empty buffer. -/
theorem built_reflects (changes : List Change) (id : UInt32) :
    Reflects (((built changes).find? id).getD emptyState) (pushed id changes) := by
  induction changes using List.reverseRecOn with
  | nil => exact reflects_empty
  | append_singleton changes c ih =>
    rw [built_snoc, pushed_snoc]
    cases c with
    | push entityId s =>
      rw [Change.apply, pushSnapshot, OrderedMap.find?_insert, Change.pushed]
      split
      next heq =>
        subst heq
        exact ih.push s
      next => exact ih
    | remove entityId =>
      rw [Change.apply, removeEntity, OrderedMap.find?_erase, Change.pushed]
      split
      next => exact reflects_empty
      next => exact ih

/-! ## Reading -/

/-- From a time after the first sample on, the search is for the first later sample. -/
theorem bracket_find {renderTime : ℚ} {a : SnapshotSample ℚ} {l : List (SnapshotSample ℚ)}
    (h : a.timestamp < renderTime) : bracket renderTime (a :: l) =
      (neighbours (a :: l)).find? fun p => decide (renderTime ≤ p.2.timestamp) := by
  induction l generalizing a with
  | nil => rfl
  | cons b l ih =>
    rw [bracket, neighbours_cons_cons]
    by_cases hb : renderTime ≤ b.timestamp
    · rw [if_pos ⟨h.le, hb⟩, List.find?_cons_of_pos (by simpa using hb)]
    · rw [if_neg fun hfound => hb hfound.2, List.find?_cons_of_neg (by simpa using hb),
        ih (not_le.mp hb)]

theorem extrapolate_drifting {state : EntityInterpState ℚ} {pushes : List (SnapshotSample ℚ)}
    (h : Reflects state pushes) (last : SnapshotSample ℚ) (renderTime currentTime : ℚ) :
    extrapolate state last renderTime currentTime =
      if currentTime - last.timestamp ≤ extrapTimeout then
        drifting (velocity pushes) last renderTime
      else last.pose := by
  rw [extrapolate, ← h.moving]
  by_cases htimeout : currentTime - last.timestamp ≤ extrapTimeout
  · rw [if_pos htimeout, if_neg (not_lt.mpr htimeout), Rat.cast_id]
    rfl
  · rw [if_neg htimeout, if_pos (not_le.mp htimeout)]

/-- What is read after any changes is the reference. -/
theorem getState_reference (changes : List Change) (id : UInt32) (renderTime currentTime : ℚ) :
    ∃ n, ∀ fuel ≥ n, getState fuel (built changes) id renderTime currentTime =
      some (reference (pushed id changes) renderTime currentTime) := by
  have h := built_reflects changes id
  have hkept := h.kept
  cases hid : (built changes).find? id with
  | none =>
    rw [hid] at hkept
    refine ⟨0, fun fuel _ => ?_⟩
    rw [getState, hid, reference, ← hkept]
    rfl
  | some state =>
    rw [hid, Option.getD_some] at h hkept
    rw [reference, ← hkept]
    cases hretained : retained state with
    | nil =>
      have hcount : state.count = 0 := by rw [← retained_length, hretained, List.length_nil]
      refine ⟨0, fun fuel _ => ?_⟩
      rw [getState, hid]
      exact if_pos hcount
    | cons oldest rest =>
      simp only [getState_retained _ hid hretained]
      by_cases hearly : rest = [] ∨ renderTime ≤ oldest.timestamp
      · exact ⟨0, fun fuel _ => by rw [if_pos hearly, if_pos hearly]⟩
      · simp only [if_neg hearly]
        have hfirst : oldest.timestamp < renderTime := not_le.mp fun hle => hearly (.inr hle)
        by_cases hwithin : renderTime ≤
            ((oldest :: rest).getLast (List.cons_ne_nil oldest rest)).timestamp
        · obtain ⟨a, b, hfind, -⟩ := exists_neighbours hfirst hwithin
          obtain ⟨n, hn⟩ := interpolate_between a b renderTime
          refine ⟨n, fun fuel hfuel => ?_⟩
          rw [if_pos hwithin, if_pos hwithin, bracket_find hfirst, hfind]
          simp only [hn fuel hfuel, Option.map_some]
        · refine ⟨0, fun fuel _ => ?_⟩
          rw [if_neg hwithin, if_neg hwithin, extrapolate_drifting h]
          exact congrArg some (apply_ite some _ _ _)

/-- Between the first and the last sample kept, the loop finds the neighbours and the pose
lies between them. -/
theorem getState_specified (changes : List Change) (id : UInt32) (renderTime currentTime : ℚ) :
    (∃ n, ∀ fuel ≥ n, getState fuel (built changes) id renderTime currentTime =
      some (reference (pushed id changes) renderTime currentTime)) ∧
    ∀ oldest ∈ (newest (pushed id changes)).head?, ∀ last ∈ (newest (pushed id changes)).getLast?,
      oldest.timestamp < renderTime → renderTime ≤ last.timestamp →
      ∃ state a b p, (built changes).find? id = some state ∧
        findBracket state renderTime 0 (state.count - 1) = some (a, b) ∧
        reference (pushed id changes) renderTime currentTime = some p ∧
        ∀ axis, p.on axis ∈ Set.uIcc (a.on axis) (b.on axis) := by
  refine ⟨getState_reference changes id renderTime currentTime, ?_⟩
  intro oldest hfirst last hlast hafter hbefore
  have h := built_reflects changes id
  cases hid : (built changes).find? id with
  | none =>
    have hkept := h.kept
    rw [hid] at hkept
    rw [← hkept] at hfirst
    cases hfirst
  | some state =>
    rw [hid, Option.getD_some] at h
    cases hretained : retained state with
    | nil =>
      rw [← h.kept, hretained] at hfirst
      cases hfirst
    | cons a l =>
      rw [← h.kept, hretained] at hfirst hlast
      obtain rfl := Option.some.inj hfirst
      rw [List.getLast?_eq_getLast_of_ne_nil (List.cons_ne_nil a l)] at hlast
      obtain rfl := Option.some.inj hlast
      have hlate : ¬ (l = [] ∨ renderTime ≤ a.timestamp) := by
        rintro (rfl | hle)
        · exact absurd hbefore (not_le.mpr hafter)
        · exact absurd hle (not_le.mpr hafter)
      obtain ⟨c, d, hfind, hc, hd⟩ := exists_neighbours hafter hbefore
      refine ⟨state, c, d, between c d renderTime, rfl, ?_, ?_, between_mem hc hd⟩
      · have hpos : 0 < state.count := by
          rw [← retained_length, hretained]
          exact Nat.succ_pos _
        rw [findBracket_retained state renderTime hpos, hretained, bracket_find hafter, hfind]
      · rw [reference, ← h.kept, hretained]
        simp only [if_neg hlate, if_pos hbefore, hfind, Option.map_some]

end Fnvmp.Interp
