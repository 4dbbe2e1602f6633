import Fnvmp.ExactFloat
import Fnvmp.SampleBuffer
import Mathlib.Algebra.Order.Archimedean.Basic
import Mathlib.Data.Rat.Floor
import Mathlib.Tactic.Linarith
import Mathlib.Tactic.Ring

/-!
# Where the loops of `LerpAngle` end

On a finite difference both loops end, since each pass takes off a whole turn. On an
infinite one a pass changes nothing, and on NaN no pass is made.
-/

namespace Fnvmp.Interp

open ExactFloat

/-! ## Finite differences -/

theorem pi_pos : (0 : ℚ) < pi := by decide +kernel

/-- Downwards: the pass that leaves no more than half a turn is the last one. -/
theorem unwindDown_passes {n : Nat} {q : ℚ} (hstop : q - 2 * pi * n ≤ pi)
    (hmore : ∀ m < n, pi < q - 2 * pi * (m : ℚ)) : unwindDown n q = some (q - 2 * pi * n) := by
  induction n generalizing q with
  | zero =>
    rw [unwindDown, Rat.cast_id, if_neg (by simpa using hstop)]
    simp
  | succ n ih =>
    have hpass : pi < q := by simpa using hmore 0 (Nat.succ_pos n)
    push_cast at hstop ⊢
    rw [unwindDown, Rat.cast_id, Rat.cast_id, if_pos hpass, ih]
    · congr 1
      ring
    · linarith
    · intro m hm
      have hlater := hmore (m + 1) (Nat.succ_lt_succ hm)
      push_cast at hlater
      linarith

theorem unwindUp_passes {n : Nat} {q : ℚ} (hstop : -pi ≤ q + 2 * pi * n)
    (hmore : ∀ m < n, q + 2 * pi * (m : ℚ) < -pi) : unwindUp n q = some (q + 2 * pi * n) := by
  induction n generalizing q with
  | zero =>
    rw [unwindUp, Rat.cast_id, if_neg (by simpa using hstop)]
    simp
  | succ n ih =>
    have hpass : q < -pi := by simpa using hmore 0 (Nat.succ_pos n)
    push_cast at hstop ⊢
    rw [unwindUp, Rat.cast_id, Rat.cast_id, Rat.cast_id, if_pos hpass, ih]
    · congr 1
      ring
    · linarith
    · intro m hm
      have hlater := hmore (m + 1) (Nat.succ_lt_succ hm)
      push_cast at hlater
      linarith

/-- The loop takes off the turns above half a turn. -/
theorem unwindDown_ends (q : ℚ) : unwindDown ⌈(q - pi) / (2 * pi)⌉₊ q =
    some (q - 2 * pi * ⌈(q - pi) / (2 * pi)⌉₊) := by
  have hturn : 0 < 2 * pi := by linarith [pi_pos]
  refine unwindDown_passes ?_ fun m hm => ?_
  · have hle := Nat.le_ceil ((q - pi) / (2 * pi))
    rw [div_le_iff₀ hturn] at hle
    linarith
  · have hlt := Nat.lt_ceil.mp hm
    rw [lt_div_iff₀ hturn] at hlt
    linarith

theorem unwindUp_ends (q : ℚ) : unwindUp ⌈(-pi - q) / (2 * pi)⌉₊ q =
    some (q + 2 * pi * ⌈(-pi - q) / (2 * pi)⌉₊) := by
  have hturn : 0 < 2 * pi := by linarith [pi_pos]
  refine unwindUp_passes ?_ fun m hm => ?_
  · have hle := Nat.le_ceil ((-pi - q) / (2 * pi))
    rw [div_le_iff₀ hturn] at hle
    linarith
  · have hlt := Nat.lt_ceil.mp hm
    rw [lt_div_iff₀ hturn] at hlt
    linarith

section fuel

variable {F : Type} [Mul F] [RatCast F] [LT F] [DecidableLT F]

/-- A loop that has ended stays ended when more passes are allowed. -/
theorem unwindDown_mono [Sub F] {n k : Nat} {q d : F} (h : unwindDown n q = some d) :
    unwindDown (n + k) q = some d := by
  induction n generalizing q with
  | zero =>
    rw [unwindDown] at h
    split at h
    · cases h
    · rename_i hstop
      cases h
      cases k with
      | zero => exact if_neg hstop
      | succ k => exact if_neg hstop
  | succ n ih =>
    rw [Nat.add_right_comm, unwindDown]
    rw [unwindDown] at h
    split at h
    · rename_i hmore
      rw [if_pos hmore]
      exact ih h
    · rename_i hstop
      rw [if_neg hstop]
      exact h

theorem unwindUp_mono [Add F] {n k : Nat} {q d : F} (h : unwindUp n q = some d) :
    unwindUp (n + k) q = some d := by
  induction n generalizing q with
  | zero =>
    rw [unwindUp] at h
    split at h
    · cases h
    · rename_i hstop
      cases h
      cases k with
      | zero => exact if_neg hstop
      | succ k => exact if_neg hstop
  | succ n ih =>
    rw [Nat.add_right_comm, unwindUp]
    rw [unwindUp] at h
    split at h
    · rename_i hmore
      rw [if_pos hmore]
      exact ih h
    · rename_i hstop
      rw [if_neg hstop]
      exact h

/-- One bound on the passes serves both loops. -/
theorem lerpAngle_ends [Add F] [Sub F] {a b t : F} {n k : Nat} {d e : F}
    (hdown : unwindDown n (b - a) = some d) (hup : unwindUp k d = some e) :
    lerpAngle (n + k) a b t = some (a + t * e) := by
  have hup' : unwindUp (n + k) d = some e := by
    rw [Nat.add_comm]
    exact unwindUp_mono hup
  rw [lerpAngle, unwindDown_mono hdown, Option.bind_some, hup', Option.map_some]

theorem lerpAngle_mono [Add F] [Sub F] {n k : Nat} {a b t r : F} (h : lerpAngle n a b t = some r) :
    lerpAngle (n + k) a b t = some r := by
  obtain ⟨d, hdown, hturn⟩ := Option.bind_eq_some_iff.mp h
  obtain ⟨e, hup, rfl⟩ := Option.map_eq_some_iff.mp hturn
  rw [lerpAngle, unwindDown_mono hdown, Option.bind_some, unwindUp_mono hup, Option.map_some]

end fuel

/-! ## Floating-point differences -/

theorem fin_lt (a b : ℚ) : FloatVal.fin a < FloatVal.fin b ↔ a < b := by
  change decide (a < b) = true ↔ a < b
  exact decide_eq_true_iff

/-- On finite numbers the loops are those of exact arithmetic. -/
theorem unwindDown_fin (fuel : Nat) (q : ℚ) :
    unwindDown fuel (FloatVal.fin q) = (unwindDown fuel q).map .fin := by
  have htest : ∀ q : ℚ, ((pi : FloatVal) < .fin q) = (pi < q) := fun q => propext (fin_lt pi q)
  induction fuel generalizing q with
  | zero =>
    simp only [unwindDown, htest, Rat.cast_id]
    split <;> rfl
  | succ fuel ih =>
    simp only [unwindDown, htest, Rat.cast_id]
    split
    · have hpass : FloatVal.fin q - ((2 : ℚ) : FloatVal) * (pi : FloatVal) =
          .fin (q + -(2 * pi)) := rfl
      rw [hpass, ih, sub_eq_add_neg]
    · rfl

theorem unwindUp_fin (fuel : Nat) (q : ℚ) :
    unwindUp fuel (FloatVal.fin q) = (unwindUp fuel q).map .fin := by
  have htest : ∀ q : ℚ, (FloatVal.fin q < ((-pi : ℚ) : FloatVal)) = (q < -pi) :=
    fun q => propext (fin_lt q (-pi))
  induction fuel generalizing q with
  | zero =>
    simp only [unwindUp, htest, Rat.cast_id]
    split <;> rfl
  | succ fuel ih =>
    simp only [unwindUp, htest, Rat.cast_id]
    split
    · have hpass : FloatVal.fin q + ((2 : ℚ) : FloatVal) * (pi : FloatVal) =
          .fin (q + 2 * pi) := rfl
      rw [hpass, ih]
    · rfl

/-- An infinite difference loses nothing in a pass. -/
theorem unwindDown_inf (fuel : Nat) : unwindDown fuel (FloatVal.inf false) = none := by
  induction fuel with
  | zero => rfl
  | succ fuel ih => exact ih

theorem unwindUp_inf (fuel : Nat) : unwindUp fuel (FloatVal.inf true) = none := by
  induction fuel with
  | zero => rfl
  | succ fuel ih => exact ih

/-- The difference of two angles is infinite: one of them is and the other is a number, or
they are the two infinities. -/
def InfinitelyApart : FloatVal → FloatVal → Prop
  | .fin _, .inf _ => True
  | .inf _, .fin _ => True
  | .inf neg, .inf neg' => neg ≠ neg'
  | _, _ => False

theorem lerpAngle_difference (a b t : FloatVal) (d : FloatVal) (h : b - a = d)
    (hfinite : ∀ neg, d ≠ .inf neg) : ∃ fuel, lerpAngle fuel a b t ≠ none := by
  cases d with
  | fin q =>
    obtain ⟨n, d, hdown⟩ : ∃ n d, unwindDown n q = some d := ⟨_, _, unwindDown_ends q⟩
    obtain ⟨k, e, hup⟩ : ∃ k e, unwindUp k d = some e := ⟨_, _, unwindUp_ends d⟩
    refine ⟨n + k, ?_⟩
    rw [lerpAngle_ends (d := .fin d) (e := .fin e)]
    · simp
    · rw [h, unwindDown_fin, hdown]
      rfl
    · rw [unwindUp_fin, hup]
      rfl
  | inf neg => exact absurd rfl (hfinite neg)
  | nan =>
    refine ⟨0 + 0, ?_⟩
    rw [lerpAngle_ends (d := .nan) (e := .nan)]
    · simp
    · rw [h]
      rfl
    · rfl

theorem lerpAngle_hangs (a b t : FloatVal) (neg : Bool) (h : b - a = .inf neg) (fuel : Nat) :
    lerpAngle fuel a b t = none := by
  rw [lerpAngle, h]
  cases neg with
  | false =>
    rw [unwindDown_inf]
    rfl
  | true =>
    have hdown : unwindDown fuel (FloatVal.inf true) = some (.inf true) := by cases fuel <;> rfl
    rw [hdown, Option.bind_some, unwindUp_inf]
    rfl

/-- The loops end unless the two angles are infinitely apart. -/
theorem lerpAngle_terminates_iff (a b t : FloatVal) :
    (∃ fuel, lerpAngle fuel a b t ≠ none) ↔ ¬ InfinitelyApart a b := by
  have hhangs : ∀ neg, b - a = .inf neg → ¬ ∃ fuel, lerpAngle fuel a b t ≠ none := by
    rintro neg h ⟨fuel, hfuel⟩
    exact hfuel (lerpAngle_hangs a b t neg h fuel)
  cases a with
  | fin x =>
    cases b with
    | fin y =>
      exact iff_of_true (lerpAngle_difference _ _ t (.fin (y + -x)) rfl (by simp)) id
    | inf neg => exact iff_of_false (hhangs neg rfl) (not_not.mpr trivial)
    | nan => exact iff_of_true (lerpAngle_difference _ _ t .nan rfl (by simp)) id
  | inf neg =>
    cases b with
    | fin y => exact iff_of_false (hhangs (!neg) rfl) (not_not.mpr trivial)
    | inf neg' =>
      by_cases hsame : neg = neg'
      · subst hsame
        refine iff_of_true (lerpAngle_difference _ _ t .nan ?_ (by simp)) fun h => h rfl
        cases neg <;> rfl
      · refine iff_of_false (hhangs neg' ?_) (not_not.mpr hsame)
        cases neg <;> cases neg' <;> first | rfl | exact absurd rfl hsame
    | nan => exact iff_of_true (lerpAngle_difference _ _ t .nan rfl (by simp)) id
  | nan => exact iff_of_true (lerpAngle_difference _ _ t .nan (by cases b <;> rfl) (by simp)) id

/-! ## `Interp_GetState` -/

/-- Apart from interpolation between two neighbours no loop is entered. -/
theorem getState_cases (states : InterpStates FloatVal) (id : UInt32)
    (renderTime currentTime : ℚ) :
    (∃ r, ∀ fuel, getState fuel states id renderTime currentTime = some r) ∨
    ∃ before a b after, samples states id = before ++ a :: b :: after ∧
      a.timestamp < renderTime ∧ renderTime ≤ b.timestamp ∧
      ∀ fuel, getState fuel states id renderTime currentTime =
        (interpolate fuel a b renderTime).map some := by
  cases hid : states.find? id with
  | none => exact .inl ⟨none, fun _ => by rw [getState, hid]⟩
  | some state =>
    have hsamples : samples states id = retained state := by rw [samples, hid]; rfl
    cases hretained : retained state with
    | nil =>
      have hnone : state.count = 0 := by rw [← retained_length, hretained, List.length_nil]
      exact .inl ⟨none, fun _ => by simp only [getState, hid, if_pos hnone]⟩
    | cons oldest rest =>
      simp only [getState_retained _ hid hretained]
      by_cases hearly : rest = [] ∨ renderTime ≤ oldest.timestamp
      · exact .inl ⟨_, fun _ => if_pos hearly⟩
      · simp only [if_neg hearly]
        by_cases hwithin : renderTime ≤
            ((oldest :: rest).getLast (List.cons_ne_nil oldest rest)).timestamp
        · simp only [if_pos hwithin]
          cases hfound : bracket renderTime (oldest :: rest) with
          | none => exact .inl ⟨_, fun _ => rfl⟩
          | some pair =>
            obtain ⟨a, b⟩ := pair
            have hhead : ∀ c, (oldest :: rest).head? = some c → c.timestamp < renderTime := by
              intro c hc
              cases hc
              exact not_le.mp fun hle => hearly (.inr hle)
            obtain ⟨hafter, hbefore, before, after, hcut⟩ := bracket_some hfound hhead
            exact .inr ⟨before, a, b, after, by rw [hsamples, hretained, hcut], hafter, hbefore,
              fun _ => rfl⟩
        · simp only [if_neg hwithin]
          exact .inl ⟨_, fun _ => rfl⟩

/-- Between neighbours taken at different times the result is interpolated. -/
theorem getState_between {states : InterpStates FloatVal} {id : UInt32}
    (h : InTime (samples states id)) {before after : List (SnapshotSample FloatVal)}
    {a b : SnapshotSample FloatVal} (hcut : samples states id = before ++ a :: b :: after)
    {renderTime : ℚ} (hafter : a.timestamp < renderTime) (hbefore : renderTime ≤ b.timestamp)
    (fuel : Nat) (currentTime : ℚ) : getState fuel states id renderTime currentTime =
      (interpolate fuel a b renderTime).map some := by
  cases hid : states.find? id with
  | none => simp [samples, hid] at hcut
  | some state =>
    have hretained : retained state = before ++ a :: b :: after := by simpa [samples, hid] using hcut
    have hsorted : InTime (before ++ a :: b :: after) := hcut ▸ h
    have hfound := bracket_between hsorted hafter hbefore
    obtain ⟨oldest, rest, hlist⟩ := List.exists_cons_of_ne_nil
      (List.append_ne_nil_of_right_ne_nil before (List.cons_ne_nil a (b :: after)))
    have hmema : a ∈ oldest :: rest := by simp [← hlist]
    have hmemb : b ∈ oldest :: rest := by simp [← hlist]
    rw [hlist] at hretained hsorted hfound
    have holdest : oldest.timestamp < renderTime :=
      (hsorted.rel_head_of_rel_head_head hmema le_rfl).trans_lt hafter
    have hnewest := hbefore.trans (hsorted.rel_getLast_of_rel_getLast_getLast hmemb le_rfl)
    have hone : ¬ (rest = [] ∨ renderTime ≤ oldest.timestamp) := by
      rintro (rfl | hearly)
      · have hlength := congrArg List.length hlist
        simp only [List.length_append, List.length_cons, List.length_nil] at hlength
        omega
      · exact absurd holdest (not_lt.mpr hearly)
    rw [getState_retained fuel hid hretained, if_neg hone, if_pos hnewest, hfound]

/-- Some neighbours among the samples, taken at different times, are infinitely apart. -/
def HasInfiniteTurn (l : List (SnapshotSample FloatVal)) : Prop :=
  ∃ before a b after, l = before ++ a :: b :: after ∧ a.timestamp < b.timestamp ∧
    InfinitelyApart a.rotZ b.rotZ

/-- The factor at which two samples are mixed. -/
def mix (a b : SnapshotSample FloatVal) (renderTime : ℚ) : FloatVal :=
  if b.timestamp - a.timestamp > 1 / 10000 then
    (((renderTime - a.timestamp) / (b.timestamp - a.timestamp) : ℚ) : FloatVal)
  else ((0 : ℚ) : FloatVal)

theorem interpolate_none_iff (fuel : Nat) (a b : SnapshotSample FloatVal) (renderTime : ℚ) :
    (interpolate fuel a b renderTime).map some = none ↔
      lerpAngle fuel a.rotZ b.rotZ (mix a b renderTime) = none := by
  rw [Option.map_eq_none_iff]
  exact Option.map_eq_none_iff

/-- With samples in the order of their times, the result is found at all times exactly
when no neighbours taken at different times are infinitely apart. -/
theorem getState_terminates_iff {states : InterpStates FloatVal} {id : UInt32}
    (h : InTime (samples states id)) :
    (∀ renderTime currentTime, ∃ fuel, getState fuel states id renderTime currentTime ≠ none) ↔
      ¬ HasInfiniteTurn (samples states id) := by
  constructor
  · rintro hends ⟨before, a, b, after, hcut, hlt, hapart⟩
    obtain ⟨fuel, hfuel⟩ := hends b.timestamp 0
    rw [getState_between h hcut hlt le_rfl, Ne, interpolate_none_iff] at hfuel
    exact (lerpAngle_terminates_iff _ _ _).mp ⟨fuel, hfuel⟩ hapart
  · intro hturn renderTime currentTime
    obtain ⟨r, hr⟩ | ⟨before, a, b, after, hcut, hafter, hbefore, hstate⟩ :=
      getState_cases states id renderTime currentTime
    · exact ⟨0, by simp [hr]⟩
    · have hnear : ¬ InfinitelyApart a.rotZ b.rotZ := fun hapart =>
        hturn ⟨before, a, b, after, hcut, lt_of_lt_of_le hafter hbefore, hapart⟩
      obtain ⟨fuel, hfuel⟩ := (lerpAngle_terminates_iff _ _ (mix a b renderTime)).mpr hnear
      refine ⟨fuel, ?_⟩
      rw [hstate, Ne, interpolate_none_iff]
      exact hfuel

end Fnvmp.Interp
