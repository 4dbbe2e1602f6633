import Mathlib.Data.Rat.Cast.Defs
import Mathlib.Algebra.Order.Ring.Rat

/-!
# Floating-point numbers with exact finite arithmetic

Infinities and NaN follow the rules of IEEE 754. Finite results are exact: they are
neither rounded nor do they overflow, and zero has no sign.
-/

namespace ExactFloat

inductive FloatVal where
  | fin (q : ℚ)
  | inf (neg : Bool)
  | nan
  deriving DecidableEq, Repr

namespace FloatVal

def add : FloatVal → FloatVal → FloatVal
  | .fin a, .fin b => .fin (a + b)
  | .fin _, .inf s => .inf s
  | .inf s, .fin _ => .inf s
  | .inf s, .inf s' => if s = s' then .inf s else .nan
  | _, _ => .nan

def neg : FloatVal → FloatVal
  | .fin a => .fin (-a)
  | .inf s => .inf (!s)
  | .nan => .nan

/-- An infinity times a number of the given sign. -/
def infMul (s : Bool) (b : ℚ) : FloatVal :=
  if b = 0 then .nan else .inf (s != decide (b < 0))

def mul : FloatVal → FloatVal → FloatVal
  | .fin a, .fin b => .fin (a * b)
  | .fin a, .inf s => infMul s a
  | .inf s, .fin b => infMul s b
  | .inf s, .inf s' => .inf (s != s')
  | _, _ => .nan

/-- Division by a number other than zero. -/
def div : FloatVal → FloatVal → FloatVal
  | .fin a, .fin b => .fin (a / b)
  | .fin _, .inf _ => .fin 0
  | .inf s, .fin b => .inf (s != decide (b < 0))
  | _, _ => .nan

/-- The ordered comparison: false as soon as one side is NaN. -/
def lt : FloatVal → FloatVal → Bool
  | .fin a, .fin b => a < b
  | .fin _, .inf s => !s
  | .inf s, .fin _ => s
  | .inf s, .inf s' => s && !s'
  | _, _ => false

instance : Add FloatVal := ⟨add⟩
instance : Sub FloatVal := ⟨fun a b => add a (neg b)⟩
instance : Mul FloatVal := ⟨mul⟩
instance : Div FloatVal := ⟨div⟩
instance : RatCast FloatVal := ⟨fin⟩
instance : LT FloatVal := ⟨fun a b => lt a b = true⟩
instance : DecidableLT FloatVal := fun a b => inferInstanceAs (Decidable (lt a b = true))

/-- `a >= b` as the hardware compares: not `!(a < b)` when one side is NaN. -/
def ge (a b : FloatVal) : Bool := lt b a || (a == b && a != .nan)

instance : LE FloatVal := ⟨fun a b => ge b a = true⟩
instance : DecidableLE FloatVal := fun a b => inferInstanceAs (Decidable (ge b a = true))

/-- The number a binary32 pattern stands for. -/
def ofBits (bits : UInt32) : FloatVal :=
  let sign : ℚ := if bits.toNat / 2 ^ 31 = 1 then -1 else 1
  let exponent : Nat := bits.toNat / 2 ^ 23 % 2 ^ 8
  let fraction : Nat := bits.toNat % 2 ^ 23
  if exponent = 255 then
    if fraction = 0 then .inf (bits.toNat / 2 ^ 31 = 1) else .nan
  else if exponent = 0 then .fin (sign * fraction / 2 ^ 149)
  else .fin (sign * (2 ^ 23 + fraction) * 2 ^ exponent / 2 ^ 150)

example : ofBits 0x40490fdb = .fin (13176795 / 4194304) := by decide +kernel

/-- Conversion to a 32-bit integer: towards zero, and the indefinite value when the
result does not fit. -/
def toInt32 : FloatVal → Int
  | .fin q =>
    let n := q.num.tdiv q.den
    if -2 ^ 31 ≤ n ∧ n < 2 ^ 31 then n else -2 ^ 31
  | _ => -2 ^ 31

end FloatVal

end ExactFloat
