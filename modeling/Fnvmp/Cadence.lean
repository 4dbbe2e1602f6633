import Mathlib.Algebra.BigOperators.Group.List.Basic
import Mathlib.Algebra.Order.Field.Basic
import Mathlib.Algebra.Order.BigOperators.Group.List
import Mathlib.Tactic.Linarith
import Mathlib.Tactic.Ring

/-!
# A timed accumulator

Each tick adds its duration; if a whole interval has come together the tick gives it back
and fires, once. The accumulator is a debt: as much as it holds can be fired later without
any time passing.
-/

namespace Cadence

variable {R : Type} [Field R] [LinearOrder R]

/-- One tick: what is left, and how often it fired. -/
def tick (interval accum dt : R) : R × Nat :=
  if interval ≤ accum + dt then (accum + dt - interval, 1) else (accum + dt, 0)

/-- The ticks in order: what is left, and how often they fired. -/
def run (interval : R) : R → List R → R × Nat
  | accum, [] => (accum, 0)
  | accum, dt :: dts =>
    let r := tick interval accum dt
    let r' := run interval r.1 dts
    (r'.1, r.2 + r'.2)

variable {interval accum : R}

theorem tick_balance (interval accum dt : R) :
    (tick interval accum dt).1 + (tick interval accum dt).2 * interval = accum + dt := by
  unfold tick
  split <;> simp

variable [IsStrictOrderedRing R]

theorem tick_nonneg (haccum : 0 ≤ accum) {dt : R} (hdt : 0 ≤ dt) :
    0 ≤ (tick interval accum dt).1 := by
  unfold tick
  split
  next hdue => exact sub_nonneg.mpr hdue
  next => exact add_nonneg haccum hdt

/-- Every interval fired is paid for. -/
theorem run_balance (interval accum : R) (dts : List R) :
    (run interval accum dts).1 + (run interval accum dts).2 * interval = accum + dts.sum := by
  induction dts generalizing accum with
  | nil => simp [run]
  | cons dt dts ih =>
    have hrest := ih (tick interval accum dt).1
    have hfirst := tick_balance interval accum dt
    rw [run, List.sum_cons]
    push_cast
    linarith

theorem run_nonneg (haccum : 0 ≤ accum) {dts : List R} (hdts : ∀ dt ∈ dts, 0 ≤ dt) :
    0 ≤ (run interval accum dts).1 := by
  induction dts generalizing accum with
  | nil => exact haccum
  | cons dt dts ih =>
    exact ih (tick_nonneg haccum (hdts dt List.mem_cons_self))
      fun d hd => hdts d (List.mem_cons_of_mem dt hd)

/-- What is held at the start bounds what is fired beyond the time that passes. -/
theorem run_le (hinterval : 0 < interval) (haccum : 0 ≤ accum) {dts : List R}
    (hdts : ∀ dt ∈ dts, 0 ≤ dt) {k : R} (hk : accum ≤ k * interval) :
    ((run interval accum dts).2 : R) ≤ dts.sum / interval + k := by
  have hbalance := run_balance interval accum dts
  have hrest : 0 ≤ (run interval accum dts).1 := run_nonneg haccum hdts
  rw [← sub_le_iff_le_add, le_div_iff₀ hinterval]
  linarith

/-- Ticks without duration fire as long as an interval is held. -/
theorem run_drain (hinterval : 0 < interval) {n : Nat} (h : n * interval ≤ accum) :
    (run interval accum (List.replicate n 0)).2 = n := by
  induction n generalizing accum with
  | zero => rfl
  | succ n ih =>
    push_cast at h
    have hnonneg : 0 ≤ (n : R) * interval := mul_nonneg n.cast_nonneg hinterval.le
    have htick : tick interval accum 0 = (accum - interval, 1) := by
      rw [tick, add_zero, if_pos (by linarith)]
    rw [List.replicate_succ, run, htick]
    dsimp only
    rw [ih (by linarith), Nat.add_comm]

/-- An accumulator that holds more than `k` intervals is not bound to `k` above the rate. -/
theorem exists_burst (hinterval : 0 < interval) {k : Nat} (hk : k * interval < accum) :
    ∃ dts : List R, (∀ dt ∈ dts, 0 ≤ dt) ∧
      dts.sum / interval + k < (run interval accum dts).2 := by
  refine ⟨max 0 ((k + 1) * interval - accum) :: List.replicate k 0, ?_, ?_⟩
  · intro dt hdt
    rcases List.mem_cons.mp hdt with rfl | hdt
    · exact le_max_left _ _
    · exact (List.eq_of_mem_replicate hdt).ge
  · have hwait : (k + 1) * interval ≤ accum + max 0 ((k + 1) * interval - accum) := by
      linarith [le_max_right 0 ((k + 1) * interval - accum)]
    have hnonneg : 0 ≤ (k : R) * interval := mul_nonneg k.cast_nonneg hinterval.le
    have hfired : (run interval accum
        (max 0 ((k + 1) * interval - accum) :: List.replicate k 0)).2 = k + 1 := by
      rw [run, tick, if_pos (by linarith)]
      dsimp only
      rw [run_drain hinterval (by linarith), Nat.add_comm]
    have hshort : max 0 ((k + 1) * interval - accum) < interval :=
      max_lt hinterval (by linarith)
    have hsum : (max 0 ((k + 1) * interval - accum) :: List.replicate k 0).sum =
        max 0 ((k + 1) * interval - accum) := by simp
    have hless := (div_lt_one hinterval).mpr hshort
    rw [hfired, hsum, Nat.cast_add, Nat.cast_one]
    linarith

/-- Any ticks from here fire at most `k` times above the rate exactly when the accumulator
holds no more than `k` intervals. -/
theorem run_bounded_iff (hinterval : 0 < interval) (haccum : 0 ≤ accum) (k : Nat) :
    (∀ dts : List R, (∀ dt ∈ dts, 0 ≤ dt) →
      ((run interval accum dts).2 : R) ≤ dts.sum / interval + k) ↔ accum ≤ k * interval := by
  constructor
  · intro h
    by_contra hmore
    obtain ⟨dts, hdts, hburst⟩ := exists_burst hinterval (not_le.mp hmore)
    exact absurd (h dts hdts) (not_le.mpr hburst)
  · exact fun hk dts hdts => run_le hinterval haccum hdts hk

end Cadence
