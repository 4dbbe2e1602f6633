import Mathlib.Data.Nat.Basic
import Mathlib.Order.Basic

/-!
# Wrapped sequence numbers

A counter that never wraps is sent modulo `modulus`. The reader knows a number near the
one it got, and reads what arrives as the first number with that residue from there on.
Which numbers come back as themselves is a matter of their distance alone.
-/

namespace SequenceWindow

variable {modulus size windows : ℕ}

/-- A wrapped number read from `low` on: one turn further where it stands below. -/
def lift (modulus low x : ℕ) : ℕ := if x < low then x + modulus else x

/-- A number not yet a full turn past the reader's. -/
theorem lift_ahead {low n : ℕ} (hle : low ≤ n) (hlt : n < low + modulus) :
    lift modulus (low % modulus) (n % modulus) = low % modulus + (n - low) := by
  have hmodulus : 0 < modulus := by omega
  have hlow := Nat.mod_add_div low modulus
  have hn := Nat.mod_add_div n modulus
  have hlowlt := Nat.mod_lt low hmodulus
  have hnlt := Nat.mod_lt n hmodulus
  have hge : low / modulus ≤ n / modulus := Nat.div_le_div_right hle
  have hturn : n / modulus ≤ low / modulus + 1 := by
    have h := Nat.div_le_div_right (c := modulus) hlt.le
    rwa [Nat.add_div_right low hmodulus] at h
  unfold lift
  obtain hsame | hnext : n / modulus = low / modulus ∨ n / modulus = low / modulus + 1 := by omega
  · rw [hsame] at hn
    split <;> omega
  · rw [hnext, Nat.mul_succ] at hn
    split <;> omega

/-- A number the reader has passed, by no more than a full turn. -/
theorem lift_behind {low n : ℕ} (hlt : n < low) (hle : low ≤ n + modulus) :
    lift modulus (low % modulus) (n % modulus) + (low - n) = low % modulus + modulus := by
  have hahead : n + modulus < low + modulus := by omega
  have h := lift_ahead hle hahead
  rw [Nat.add_mod_right] at h
  omega

theorem mod_inj (modulus : ℕ) {m n : ℕ} (hmn : m < n + modulus) (hnm : n < m + modulus)
    (h : m % modulus = n % modulus) : m = n := by
  rcases Nat.le_total m n with hle | hle
  · have hm : lift modulus (m % modulus) (m % modulus) = _ := lift_ahead (Nat.le_refl m) (by omega)
    have hn : lift modulus (m % modulus) (n % modulus) = _ := lift_ahead hle hnm
    rw [← h] at hn
    omega
  · have hn : lift modulus (n % modulus) (n % modulus) = _ := lift_ahead (Nat.le_refl n) (by omega)
    have hm : lift modulus (n % modulus) (m % modulus) = _ := lift_ahead hle hmn
    rw [h] at hm
    omega

/-- The window of a wrapped number, counted on where the number stands below `low`. -/
def windowFrom (windows size low x : ℕ) : ℕ := if x < low then x / size + windows else x / size

theorem windowFrom_eq (hsize : 0 < size) (low x : ℕ) :
    windowFrom windows size low x = lift (windows * size) low x / size := by
  unfold windowFrom lift
  split
  · exact (Nat.add_mul_div_right x windows hsize).symm
  · rfl

/-- Distances in windows survive the wrapping, for a number ahead. -/
theorem windowFrom_ahead (hsize : 0 < size) {low n : ℕ} (hle : low ≤ n)
    (hlt : n < low + windows * size) :
    windowFrom windows size (low % (windows * size)) (n % (windows * size)) + low / size =
      low % (windows * size) / size + n / size := by
  have hturns := Nat.mod_add_div low (windows * size)
  rw [Nat.mul_comm windows size, Nat.mul_assoc, ← Nat.mul_comm windows size] at hturns
  have hlow : low / size = low % (windows * size) / size + windows * (low / (windows * size)) := by
    rw [← Nat.add_mul_div_left _ _ hsize, hturns]
  have hn : n / size = (low % (windows * size) + (n - low)) / size +
      windows * (low / (windows * size)) := by
    rw [← Nat.add_mul_div_left _ _ hsize]
    congr 1
    omega
  rw [windowFrom_eq hsize, lift_ahead hle hlt]
  omega

/-- Of a number behind, a turn is left over. -/
theorem windowFrom_behind (hsize : 0 < size) {low n : ℕ} (hlt : n < low)
    (hle : low ≤ n + windows * size) :
    windowFrom windows size (low % (windows * size)) (n % (windows * size)) + low / size =
      low % (windows * size) / size + windows + n / size := by
  have hahead : n + windows * size < low + windows * size := by omega
  have h := windowFrom_ahead hsize hle hahead
  rw [Nat.add_mod_right, Nat.add_mul_div_right n windows hsize] at h
  omega

end SequenceWindow
