import Mathlib.Algebra.Order.Floor.Ring
import Mathlib.Data.Int.Log
import Mathlib.Data.Rat.Floor
import Mathlib.Tactic.FieldSimp
import Mathlib.Tactic.Linarith

/-!
# Rounding to a binary format

Floating-point numbers as the values they stand for, and the rounding of an exact result to
`p` significant bits: to nearest, and to even between two that are equally near. The range of
exponents is not bounded.
-/

namespace Rounding

variable {K : Type} [Field K] [LinearOrder K] [IsStrictOrderedRing K] [FloorRing K]

/-! ## The nearest integer -/

/-- The nearest integer, and the even one of two that are equally near. -/
def nearest (x : K) : ℤ :=
  if Int.fract x < 1 - Int.fract x then ⌊x⌋
  else if 1 - Int.fract x < Int.fract x then ⌊x⌋ + 1
  else if Even ⌊x⌋ then ⌊x⌋
  else ⌊x⌋ + 1

@[simp] theorem nearest_zero : nearest (0 : K) = 0 := by
  simp [nearest]

theorem abs_sub_nearest_le (x : K) : |x - nearest x| ≤ 1 / 2 := by
  have hlow := Int.fract_nonneg x
  have hhigh := Int.fract_lt_one x
  have hfloor : x = ⌊x⌋ + Int.fract x := (Int.floor_add_fract x).symm
  rw [abs_le]
  unfold nearest
  split
  · constructor <;> linarith
  · rename_i hup
    have hhalf := not_lt.mp hup
    split
    · push_cast
      constructor <;> linarith
    · rename_i hdown
      -- a tie: both neighbours are half a unit away
      have htie := not_lt.mp hdown
      split
      · constructor <;> linarith
      · push_cast
        constructor <;> linarith

/-! ## Rounding -/

/-- The unit in the last of `p` significant bits. -/
def ulp (p : ℕ) (x : K) : K := ((2 : ℕ) : K) ^ (Int.log 2 |x| + 1 - p)

def round (p : ℕ) (x : K) : K := nearest (x / ulp p x) * ulp p x

@[simp] theorem round_zero (p : ℕ) : round p (0 : K) = 0 := by
  simp [round]

theorem ulp_pos (p : ℕ) (x : K) : 0 < ulp p x := zpow_pos two_pos _

theorem abs_sub_round_le_half (p : ℕ) (x : K) : |x - round p x| ≤ 1 / 2 * ulp p x := by
  have hunit := ulp_pos p x
  have hsplit : x - round p x = (x / ulp p x - nearest (x / ulp p x)) * ulp p x := by
    rw [round, sub_mul, div_mul_cancel₀ x hunit.ne']
  rw [hsplit, abs_mul, abs_of_pos hunit]
  gcongr
  exact abs_sub_nearest_le _

theorem half_ulp_le (p : ℕ) {x : K} (hx : x ≠ 0) : 1 / 2 * ulp p x ≤ |x| / 2 ^ p := by
  have hleading : (2 : K) ^ Int.log 2 |x| ≤ |x| := by
    exact_mod_cast Int.zpow_log_le_self one_lt_two (abs_pos.mpr hx)
  calc 1 / 2 * ulp p x = 2 ^ Int.log 2 |x| / 2 ^ p := by
        rw [ulp, Nat.cast_ofNat, zpow_sub₀ two_ne_zero, zpow_add_one₀ two_ne_zero, zpow_natCast]
        field_simp
    _ ≤ |x| / 2 ^ p := by gcongr

/-- The relative error of rounding. -/
theorem abs_sub_round_le (p : ℕ) (x : K) : |x - round p x| ≤ |x| / 2 ^ p := by
  rcases eq_or_ne x 0 with rfl | hx
  · simp
  · exact (abs_sub_round_le_half p x).trans (half_ulp_le p hx)

/-! ## Double precision -/

/-- The significant bits of a double. -/
def doubleBits : ℕ := 53

def sub (x y : K) : K := round doubleBits (x - y)

def div (x y : K) : K := round doubleBits (x / y)

end Rounding
