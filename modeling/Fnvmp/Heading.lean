import Fnvmp.Detection
import Mathlib.Analysis.Real.Pi.Bounds
import Mathlib.Analysis.SpecialFunctions.Complex.Arg
import Mathlib.Tactic.IntervalCases

/-!
# Movement relative to facing

Over the real numbers. Bearings run from north to east and `rotZ` from north to west, so
the angle of a movement to the left of the facing direction is `-m - rotZ`. The code takes
`m - rotZ`: it gives the sector of the movement mirrored in the north–south axis.
-/

namespace Fnvmp.Detection

open Protocol Real

theorem fullTurn_pos : (0 : ℝ) < fullTurn := by norm_num [fullTurn]

/-- An angle less the whole turns in it, with the code's number for half a turn. -/
noncomputable def reduce (angle : ℝ) : ℝ := toIocMod fullTurn_pos (-halfTurn) angle

theorem halfTurn_eq : (halfTurn : ℝ) = 823549 / 262144 := by norm_num [halfTurn]

theorem fullTurn_eq : (fullTurn : ℝ) = 2 * halfTurn := by norm_num [fullTurn, halfTurn]

/-- How many sectors to the left of straight ahead an angle lies. -/
noncomputable def sectorNumber (angle : ℝ) : ℤ := ⌊(angle + pi8) / (2 * pi8)⌋

/-- The same edges of sectors lie below both angles, or both lie beyond the outermost edges. -/
def SameSector (a b : ℝ) : Prop :=
  sectorNumber a = sectorNumber b ∨ 3 < |sectorNumber a| ∧ 3 < |sectorNumber b|

def direction : ℤ → MoveDirection
  | 0 => .forward
  | 1 => .forwardLeft
  | 2 => .left
  | 3 => .backwardLeft
  | -1 => .forwardRight
  | -2 => .right
  | -3 => .backwardRight
  | _ => .backward

theorem pi8_eq : (pi8 : ℝ) = 1647099 / 4194304 := by norm_num [pi8]

theorem sectorNumber_eq_iff {angle : ℝ} {k : ℤ} :
    sectorNumber angle = k ↔ (2 * k - 1) * (pi8 : ℝ) ≤ angle ∧ angle < (2 * k + 1) * (pi8 : ℝ) := by
  have hpos : (0 : ℝ) < 2 * pi8 := by norm_num [pi8]
  rw [sectorNumber, Int.floor_eq_iff, le_div_iff₀ hpos, div_lt_iff₀ hpos]
  constructor
  · rintro ⟨hlow, hhigh⟩
    exact ⟨by linarith, by linarith⟩
  · rintro ⟨hlow, hhigh⟩
    exact ⟨by linarith, by linarith⟩

/-- So the result can only be right within `PI_8` of due north or due south. -/
theorem near_axis_of_sameSector {m rotZ : ℝ}
    (h : SameSector (reduce (m - rotZ)) (reduce (-m - rotZ))) :
    ∃ k : ℤ, |m - k * halfTurn| < pi8 := by
  obtain ⟨⟨halow, hahigh⟩, i, hi⟩ :=
    (toIocMod_eq_iff fullTurn_pos).mp (rfl : reduce (m - rotZ) = reduce (m - rotZ))
  obtain ⟨⟨hblow, hbhigh⟩, j, hj⟩ :=
    (toIocMod_eq_iff fullTurn_pos).mp (rfl : reduce (-m - rotZ) = reduce (-m - rotZ))
  generalize reduce (m - rotZ) = a at *
  generalize reduce (-m - rotZ) = b at *
  have hpi8 := pi8_eq
  have hhalf := halfTurn_eq
  rw [fullTurn_eq] at hahigh hbhigh
  rw [zsmul_eq_mul, fullTurn_eq] at hi hj
  have houter : ∀ c : ℝ, 3 < |sectorNumber c| → 7 * (pi8 : ℝ) ≤ c ∨ c < -7 * (pi8 : ℝ) := by
    intro c hc
    obtain ⟨hlow, hhigh⟩ := sectorNumber_eq_iff.mp (rfl : sectorNumber c = sectorNumber c)
    rcases lt_abs.mp hc with hleft | hright
    · have hnumber : (4 : ℝ) ≤ sectorNumber c := by exact_mod_cast hleft
      exact .inl (by nlinarith)
    · have hnumber : (sectorNumber c : ℝ) ≤ -4 := by
        have hle : sectorNumber c ≤ -4 := by omega
        exact_mod_cast hle
      exact .inr (by nlinarith)
  rcases h with hsame | ⟨ha, hb⟩
  · obtain ⟨hlowa, hhigha⟩ := sectorNumber_eq_iff.mp hsame
    obtain ⟨hlowb, hhighb⟩ := sectorNumber_eq_iff.mp (rfl : sectorNumber b = sectorNumber b)
    refine ⟨i - j, abs_lt.mpr ⟨?_, ?_⟩⟩ <;> push_cast <;> linarith
  · rcases houter a ha with ha | ha <;> rcases houter b hb with hb | hb
    · refine ⟨i - j, abs_lt.mpr ⟨?_, ?_⟩⟩ <;> push_cast <;> linarith
    · refine ⟨i - j + 1, abs_lt.mpr ⟨?_, ?_⟩⟩ <;> push_cast <;> linarith
    · refine ⟨i - j - 1, abs_lt.mpr ⟨?_, ?_⟩⟩ <;> push_cast <;> linarith
    · refine ⟨i - j, abs_lt.mpr ⟨?_, ?_⟩⟩ <;> push_cast <;> linarith

end Fnvmp.Detection
