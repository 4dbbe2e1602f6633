import Fnvmp.PushHistory

/-!
# Turning along the shortest arc

What the loops of `LerpAngle` leave of a difference is at most half a turn, and it is the
only such rest unless it is half a turn itself. So a turn depends on the two directions
alone, not on the turns that the angles were counted with.
-/

namespace Fnvmp.Interp

theorem shortestArc_abs_le (diff : ℚ) : |shortestArc diff| ≤ pi := by
  have hpi := pi_pos
  have hturn : 0 < 2 * pi := by linarith
  rw [shortestArc]
  split
  · have hle := Int.le_ceil ((diff - pi) / (2 * pi))
    have hlt := Int.ceil_lt_add_one ((diff - pi) / (2 * pi))
    rw [div_le_iff₀ hturn] at hle
    rw [div_add_one hturn.ne', lt_div_iff₀ hturn] at hlt
    exact abs_le.mpr ⟨by linarith, by linarith⟩
  · have hle := Int.floor_le ((diff + pi) / (2 * pi))
    have hlt := Int.lt_floor_add_one ((diff + pi) / (2 * pi))
    rw [le_div_iff₀ hturn] at hle
    rw [div_lt_iff₀ hturn] at hlt
    exact abs_le.mpr ⟨by linarith, by linarith⟩

/-- Two rests of one direction, one of them below half a turn, are the same. -/
theorem eq_of_modEq_of_abs {x y : ℚ} (h : x ≡ y [PMOD 2 * pi]) (hx : |x| < pi) (hy : |y| ≤ pi) :
    x = y := by
  have hturn : 0 < 2 * pi := by linarith [pi_pos]
  obtain ⟨turns, hturns⟩ := AddCommGroup.modEq_iff_zsmul.mp h
  rw [zsmul_eq_mul] at hturns
  have hnear : |(turns : ℚ)| * (2 * pi) < 1 * (2 * pi) := by
    rw [← abs_of_pos hturn, ← abs_mul, hturns, abs_of_pos hturn]
    linarith [abs_sub y x]
  have hless : |(turns : ℚ)| < 1 := lt_of_mul_lt_mul_right hnear hturn.le
  have hnone : turns = 0 := Int.abs_lt_one_iff.mp (by exact_mod_cast hless)
  rw [hnone, Int.cast_zero, zero_mul] at hturns
  linarith

/-- Differences that are whole turns apart leave the same arc, if it is below half a turn. -/
theorem shortestArc_congr {x y : ℚ} (h : y ≡ x [PMOD 2 * pi]) (hshort : |shortestArc x| < pi) :
    shortestArc y = shortestArc x :=
  (eq_of_modEq_of_abs ((shortestArc_modEq x).trans (h.symm.trans (shortestArc_modEq y).symm)) hshort
    (shortestArc_abs_le y)).symm

/-- With enough passes `LerpAngle` turns from `a` by the part `t` of `d`. -/
def TurnsBy (a b d : ℚ) : Prop :=
  ∀ t, ∃ n, ∀ fuel ≥ n, lerpAngle fuel a b t = some (a + t * d)

theorem turnsBy_shortestArc (a b : ℚ) : TurnsBy a b (shortestArc (b - a)) :=
  lerpAngle_shortest a b

theorem TurnsBy.result {a b d : ℚ} (h : TurnsBy a b d) {fuel : Nat} {t r : ℚ}
    (hr : lerpAngle fuel a b t = some r) : r = a + t * d := by
  obtain ⟨n, hn⟩ := h t
  have hmore := lerpAngle_mono (k := n) hr
  rw [hn (fuel + n) (Nat.le_add_left n fuel)] at hmore
  exact (Option.some.inj hmore).symm

/-- `LerpAngle` turns along the shortest arc, by at most half a turn, to the second angle. Whole
turns in the angles do not matter to an arc below half a turn. -/
theorem lerpAngle_turns (a b : ℚ) : ∃ d, TurnsBy a b d ∧ d ≡ b - a [PMOD 2 * pi] ∧ |d| ≤ pi ∧
    (∀ fuel r, lerpAngle fuel a b 1 = some r → r ≡ b [PMOD 2 * pi]) ∧
    (∀ fuel t r, 0 ≤ t → t ≤ 1 → lerpAngle fuel a b t = some r → |r - a| ≤ pi) ∧
    (|d| < pi → ∀ k l : ℤ, TurnsBy (a + k * (2 * pi)) (b + l * (2 * pi)) d) := by
  have harc := shortestArc_abs_le (b - a)
  have hturns := turnsBy_shortestArc a b
  refine ⟨shortestArc (b - a), hturns, shortestArc_modEq (b - a), harc, ?_, ?_, ?_⟩
  · intro fuel r hr
    have hcongr := (shortestArc_modEq (b - a)).add_left a
    rw [hturns.result hr, one_mul]
    rwa [add_sub_cancel] at hcongr
  · intro fuel t r hlow hhigh hr
    rw [hturns.result hr, add_sub_cancel_left, abs_mul, abs_of_nonneg hlow]
    exact (mul_le_of_le_one_left (abs_nonneg _) hhigh).trans harc
  · intro hshort k l
    have hcongr : b + l * (2 * pi) - (a + k * (2 * pi)) ≡ b - a [PMOD 2 * pi] := by
      refine AddCommGroup.modEq_iff_zsmul.mpr ⟨k - l, ?_⟩
      rw [zsmul_eq_mul]
      push_cast
      ring
    rw [← shortestArc_congr hcongr hshort]
    exact turnsBy_shortestArc _ _

end Fnvmp.Interp
