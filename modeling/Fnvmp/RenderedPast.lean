import Fnvmp.PushHistory

/-!
# The rendered past

A push does not change what is shown up to the sample before it. Where it drops the oldest
sample, the track that blended up to the next one now rests there: the place is the same,
the rotation the same up to whole turns.
-/

namespace Fnvmp.Interp

open Keyframes

/-- The track of samples: it drifts with a velocity after the last one. -/
def track (v : Axis → ℚ) (renderTime : ℚ) (oldest : SnapshotSample ℚ)
    (rest : List (SnapshotSample ℚ)) : Pose ℚ :=
  play SnapshotSample.timestamp SnapshotSample.pose between (drifting v) renderTime oldest rest

/-- The samples kept after any changes. -/
theorem samples_built (changes : List Change) (id : UInt32) :
    samples (built changes) id = newest (pushed id changes) := by
  rw [← (built_reflects changes id).kept, samples]
  cases (built changes).find? id <;> rfl

/-- Up to the last sample the reference plays the track. -/
theorem reference_within {pushes : List (SnapshotSample ℚ)} {oldest : SnapshotSample ℚ}
    {rest : List (SnapshotSample ℚ)} (hkept : newest pushes = oldest :: rest) {renderTime : ℚ}
    (hx : renderTime ≤ ((oldest :: rest).getLast (List.cons_ne_nil oldest rest)).timestamp)
    (v : Axis → ℚ) (currentTime : ℚ) :
    reference pushes renderTime currentTime = some (track v renderTime oldest rest) := by
  rw [reference, hkept]
  by_cases hearly : renderTime ≤ oldest.timestamp
  · simp only [if_pos (Or.inr hearly), track, play_before hearly]
  · have hmany : rest ≠ [] := by
      rintro rfl
      exact hearly hx
    have hlate : ¬ (rest = [] ∨ renderTime ≤ oldest.timestamp) := not_or.mpr ⟨hmany, hearly⟩
    obtain ⟨a, b, hfind, -⟩ := exists_neighbours (not_le.mp hearly) hx
    simp only [if_neg hlate, if_pos hx, hfind, Option.map_some, track,
      play_find (not_le.mp hearly) hfind]

/-- The same place, and rotations that differ by whole turns. -/
structure SamePlace (p q : Pose ℚ) : Prop where
  position : ∀ axis, p.on axis = q.on axis
  rotation : p.rotZ ≡ q.rotZ [PMOD 2 * pi]

theorem SamePlace.refl (p : Pose ℚ) : SamePlace p p :=
  ⟨fun _ => rfl, AddCommGroup.modEq_rfl⟩

/-- Interpolation ends in the later sample. -/
theorem between_end {a b : SnapshotSample ℚ} (h : b.timestamp - a.timestamp > 1 / 10000) :
    SamePlace (between a b b.timestamp) b.pose := by
  have hlt : a.timestamp < b.timestamp := by linarith
  rw [between, if_pos h]
  refine ⟨fun axis => ?_, ?_⟩
  · cases axis <;> exact line_end _ _ hlt
  · change a.rotZ + _ * shortestArc (b.rotZ - a.rotZ) ≡ b.rotZ [PMOD 2 * pi]
    rw [div_self (sub_pos.mpr hlt).ne', one_mul]
    have harc := (shortestArc_modEq (b.rotZ - a.rotZ)).add_left a.rotZ
    rwa [add_sub_cancel] at harc

/-- Consecutive samples come more than a time apart. -/
def Apart (gap : ℚ) (l : List (SnapshotSample ℚ)) : Prop :=
  l.IsChain fun a b => b.timestamp - a.timestamp > gap

instance (gap : ℚ) (l : List (SnapshotSample ℚ)) : Decidable (Apart gap l) :=
  inferInstanceAs (Decidable (l.IsChain _))

theorem Apart.newest {gap : ℚ} {l : List (SnapshotSample ℚ)} (h : Apart gap l) :
    Apart gap (newest l) :=
  h.drop _

/-- A push to a list of at most five keeps all of it, or all but the oldest sample. -/
theorem newest_push {o : SnapshotSample ℚ} {rest : List (SnapshotSample ℚ)}
    (hlength : rest.length < bufferSize) (s : SnapshotSample ℚ) :
    newest (o :: rest ++ [s]) = o :: (rest ++ [s]) ∨
      ∃ o' rest', rest = o' :: rest' ∧ newest (o :: rest ++ [s]) = o' :: (rest' ++ [s]) := by
  simp only [newest, List.length_append, List.length_cons, List.length_nil, bufferSize] at *
  by_cases hfull : rest.length = 4
  · cases rest with
    | nil => cases hfull
    | cons o' rest' =>
      rw [hfull]
      exact .inr ⟨o', rest', rfl, rfl⟩
  · have hroom : rest.length + 1 + (0 + 1) - 5 = 0 := by omega
    rw [hroom]
    exact .inl rfl

/-- A push changes nothing between the oldest sample it leaves and the newest one before. -/
theorem track_kept (v : Axis → ℚ) {o : SnapshotSample ℚ} {rest : List (SnapshotSample ℚ)}
    (happart : Apart (1 / 10000) (o :: rest)) (hlength : rest.length < bufferSize)
    (s : SnapshotSample ℚ) {o' : SnapshotSample ℚ} {rest' : List (SnapshotSample ℚ)}
    (hpush : newest (o :: rest ++ [s]) = o' :: rest') {renderTime : ℚ}
    (hold : o'.timestamp ≤ renderTime)
    (hnew : renderTime ≤ ((o :: rest).getLast (List.cons_ne_nil o rest)).timestamp) :
    SamePlace (track v renderTime o rest) (track v renderTime o' rest') := by
  obtain hall | ⟨a, l, rfl, hdrop⟩ := newest_push (o := o) hlength s
  · obtain ⟨rfl, rfl⟩ := List.cons.inj (hpush.symm.trans hall)
    rw [track, track, play_append [s] hnew]
    exact .refl _
  · obtain ⟨rfl, rfl⟩ := List.cons.inj (hpush.symm.trans hdrop)
    have hgap := (List.isChain_cons_cons.mp happart).1
    rw [track, track, play_append [s] (by simpa using hnew)]
    exact play_tail .refl (by linarith) (between_end hgap) hold

/-- A push keeps what is shown between the oldest sample left and the newest one before. -/
theorem past_kept (changes : List Change) (id : UInt32) (s : SnapshotSample ℚ)
    (happart : Apart (1 / 10000) (pushed id changes))
    (hlater : ∀ a ∈ (pushed id changes).getLast?, a.timestamp < s.timestamp)
    (oldest last : SnapshotSample ℚ)
    (holdest : (samples (built (changes ++ [.push id s])) id).head? = some oldest)
    (hlast : (samples (built changes) id).getLast? = some last) (renderTime : ℚ)
    (hold : oldest.timestamp ≤ renderTime) (hnew : renderTime ≤ last.timestamp)
    (currentTime currentTime' : ℚ) :
    ∃ n p q, SamePlace p q ∧ ∀ fuel ≥ n,
      getState fuel (built changes) id renderTime currentTime = some (some p) ∧
      getState fuel (built (changes ++ [.push id s])) id renderTime currentTime' =
        some (some q) := by
  obtain ⟨n, hn⟩ := getState_reference changes id renderTime currentTime
  obtain ⟨k, hk⟩ := getState_reference (changes ++ [.push id s]) id renderTime currentTime'
  rw [samples_built] at holdest hlast
  have hpushed : pushed id (changes ++ [.push id s]) = pushed id changes ++ [s] := by
    rw [pushed_snoc, Change.pushed, if_pos rfl]
  rw [hpushed] at hk holdest
  cases hkept : newest (pushed id changes) with
  | nil => simp [hkept] at hlast
  | cons o rest =>
    have hbefore : last.timestamp < s.timestamp := hlater last (newest_getLast _ ▸ hlast)
    have hlength : rest.length < bufferSize := by
      have hall := congrArg List.length hkept
      simp only [newest, List.length_drop, List.length_cons, bufferSize] at *
      omega
    have hafter := newest_snoc (pushed id changes) s
    rw [hkept] at hafter hlast
    rw [List.getLast?_eq_getLast_of_ne_nil (List.cons_ne_nil o rest)] at hlast
    obtain rfl := Option.some.inj hlast
    cases hkept' : newest (pushed id changes ++ [s]) with
    | nil => simp [hkept'] at holdest
    | cons o' rest' =>
      rw [hkept', List.head?_cons] at holdest
      obtain rfl := Option.some.inj holdest
      have hend : (o' :: rest').getLast (List.cons_ne_nil o' rest') = s := by
        have hsome := newest_getLast (pushed id changes ++ [s])
        rw [hkept', List.getLast?_concat,
          List.getLast?_eq_getLast_of_ne_nil (List.cons_ne_nil o' rest')] at hsome
        exact Option.some.inj hsome
      rw [hkept'] at hafter
      refine ⟨n + k, track 0 renderTime o rest, track 0 renderTime o' rest',
        track_kept 0 (hkept ▸ happart.newest) hlength s hafter hold hnew, fun fuel hfuel => ?_⟩
      rw [hn fuel (by omega), hk fuel (by omega), reference_within hkept hnew 0,
        reference_within hkept' (by rw [hend]; exact (hnew.trans_lt hbefore).le) 0]
      exact ⟨rfl, rfl⟩

/-- A sample for each second of a walk that turns by three radians at each step. -/
def stride (i : Nat) : SnapshotSample ℚ := ⟨i, 0, 0, 3 * i, i⟩

def stroll : List Change := (List.range 5).map fun i => .push 7 (stride i)

/-- At the seam: the sixth sample drops the first. -/
theorem past_kept_stroll : ∃ n p q, SamePlace p q ∧ ∀ fuel ≥ n,
    getState fuel (built stroll) 7 1 1 = some (some p) ∧
    getState fuel (built (stroll ++ [.push 7 (stride 5)])) 7 1 5 = some (some q) :=
  past_kept stroll 7 (stride 5) (by decide +kernel) (by decide +kernel) (stride 1) (stride 4)
    (by decide +kernel) (by decide +kernel) 1 (by decide +kernel) (by decide +kernel) 1 5

end Fnvmp.Interp
