import Mathlib.Algebra.Order.Archimedean.Basic
import Mathlib.Algebra.Order.Floor.Ring
import Mathlib.Logic.Function.Iterate
import Mathlib.Tactic.FieldSimp
import Mathlib.Tactic.Linarith
import Mathlib.Tactic.Ring

/-!
# A loop that drains its input before periodic work

The loop waits at most `wait` for the next arrival. An arrival is served and the wait
starts afresh; an empty wait is followed by one pass of periodic work. Time moves only
while waiting. How long a pass can be put off depends on how long arrivals keep
following each other within one wait, and on nothing else.
-/

namespace DrainLoop

variable {K : Type} [Field K] [LinearOrder K]

/-- `passDue` is the point between an empty wait and the pass that follows it. -/
structure Clock (K : Type) where
  now : K
  lastPass : K
  incoming : List K
  passDue : Bool

def service (wait : K) (c : Clock K) : Clock K :=
  if c.passDue then { c with lastPass := c.now, passDue := false }
  else match c.incoming with
    | [] => { c with now := c.now + wait, passDue := true }
    | t :: rest =>
      if t ≤ c.now + wait then { c with now := max c.now t, incoming := rest }
      else { c with now := c.now + wait, passDue := true }

def elapsed (c : Clock K) : K := c.now - c.lastPass

/-- In every state the loop reaches the last pass is at most `bound` old. -/
def Timely (wait bound : K) (c : Clock K) : Prop :=
  ∀ n, elapsed ((service wait)^[n] c) ≤ bound

/-- How far into a wait an arrival falls when the waits before it went by empty. -/
def phase [FloorRing K] (wait gap : K) : K := gap - (⌈gap / wait⌉ - 1) * wait

/-- No chain of arrivals at most `wait` apart reaches further than `bound - wait` beyond
the pass before it. `lag` is the time since that pass, `last` the time of the arrival
before the listed ones. -/
def ShortBursts [FloorRing K] (wait bound : K) : K → K → List K → Prop
  | lag, _, [] => lag + wait ≤ bound
  | lag, last, t :: ts =>
    if t - last ≤ wait then ShortBursts wait bound (lag + (t - last)) t ts
    else lag + wait ≤ bound ∧ ShortBursts wait bound (phase wait (t - last)) t ts

instance decidableShortBursts [FloorRing K] (wait bound : K) :
    ∀ (lag last : K) (ts : List K), Decidable (ShortBursts wait bound lag last ts)
  | lag, _, [] => inferInstanceAs (Decidable (lag + wait ≤ bound))
  | lag, last, t :: ts =>
    have := decidableShortBursts wait bound (lag + (t - last)) t ts
    have := decidableShortBursts wait bound (phase wait (t - last)) t ts
    inferInstanceAs (Decidable (if t - last ≤ wait then _ else _ ∧ _))

theorem timely_succ (wait bound : K) (c : Clock K) :
    Timely wait bound c ↔ elapsed c ≤ bound ∧ Timely wait bound (service wait c) := by
  constructor
  · intro h
    exact ⟨h 0, fun n => h (n + 1)⟩
  · rintro ⟨h, hnext⟩ n
    cases n with
    | zero => exact h
    | succ n => exact hnext n

/-- With nothing more to come every pass is one wait after the pass before it. -/
theorem timely_idle {wait bound : K} (hwait : 0 < wait) (hbound : wait ≤ bound) (now : K) :
    Timely wait bound ⟨now, now, [], false⟩ := by
  have hrun : ∀ n, ∃ t, (service wait)^[n] ⟨now, now, [], false⟩ = ⟨t, t, [], false⟩ ∨
      (service wait)^[n] ⟨now, now, [], false⟩ = ⟨t + wait, t, [], true⟩ := by
    intro n
    induction n with
    | zero => exact ⟨now, .inl rfl⟩
    | succ n ih =>
      rw [Function.iterate_succ_apply']
      obtain ⟨t, ht | ht⟩ := ih
      · exact ⟨t, .inr (by rw [ht]; rfl)⟩
      · exact ⟨t + wait, .inl (by rw [ht]; rfl)⟩
  intro n
  obtain ⟨t, ht | ht⟩ := hrun n
  · rw [ht, elapsed, sub_self]
    exact hwait.le.trans hbound
  · rw [ht, elapsed, add_sub_cancel_left]
    exact hbound

variable [IsStrictOrderedRing K]

/-- An arrival within the wait is served when it comes. -/
theorem timely_arrival {wait bound now lastPass t : K} {ts : List K} (hnow : now ≤ t)
    (ht : t - now ≤ wait) :
    Timely wait bound ⟨now, lastPass, t :: ts, false⟩ ↔
      Timely wait bound ⟨t, lastPass, ts, false⟩ := by
  have hserve : service wait ⟨now, lastPass, t :: ts, false⟩ = ⟨t, lastPass, ts, false⟩ := by
    simp only [service, Bool.false_eq_true, ↓reduceIte]
    rw [if_pos (by linarith), max_eq_right hnow]
  rw [timely_succ, hserve]
  refine ⟨fun h => h.2, fun h => ⟨?_, h⟩⟩
  have hhead := h 0
  simp only [elapsed, Function.iterate_zero, id_eq] at hhead ⊢
  linarith

/-- A wait that stays empty is followed by a pass at its end. -/
theorem timely_wait {wait bound now lastPass : K} {incoming : List K} (hwait : 0 < wait)
    (hempty : ∀ t ∈ incoming.head?, now + wait < t) :
    Timely wait bound ⟨now, lastPass, incoming, false⟩ ↔
      now - lastPass + wait ≤ bound ∧
        Timely wait bound ⟨now + wait, now + wait, incoming, false⟩ := by
  have hidle : service wait ⟨now, lastPass, incoming, false⟩ =
      ⟨now + wait, lastPass, incoming, true⟩ := by
    cases incoming with
    | nil => rfl
    | cons t ts =>
      simp only [service, Bool.false_eq_true, ↓reduceIte]
      rw [if_neg (not_le.mpr (hempty t rfl))]
  have hpass : service wait ⟨now + wait, lastPass, incoming, true⟩ =
      ⟨now + wait, now + wait, incoming, false⟩ := rfl
  rw [timely_succ, hidle, timely_succ, hpass]
  simp only [elapsed]
  constructor
  · rintro ⟨-, h, hnext⟩
    exact ⟨by linarith, hnext⟩
  · rintro ⟨h, hnext⟩
    exact ⟨by linarith, by linarith, hnext⟩

variable [FloorRing K]

theorem phase_within {wait gap : K} (hwait : 0 < wait) (hpos : 0 < gap) (hgap : gap ≤ wait) :
    phase wait gap = gap := by
  have hceil : ⌈gap / wait⌉ = 1 := by
    rw [Int.ceil_eq_iff]
    constructor
    · simpa using div_pos hpos hwait
    · simpa using (div_le_one hwait).mpr hgap
  simp [phase, hceil]

theorem phase_sub {wait gap : K} (hwait : 0 < wait) : phase wait (gap - wait) = phase wait gap := by
  have hdiv : (gap - wait) / wait = gap / wait - 1 := by
    rw [sub_div, div_self hwait.ne']
  rw [phase, phase, hdiv, Int.ceil_sub_one]
  push_cast
  ring

/-- Empty waits go by one after the other until the next arrival is within reach. -/
theorem timely_gap {wait bound t : K} {ts : List K} (hwait : 0 < wait) (k : Nat) {now lastPass : K}
    (hlag : lastPass ≤ now) (hlate : wait < t - now) (hk : t - now ≤ (k + 1) * wait) :
    Timely wait bound ⟨now, lastPass, t :: ts, false⟩ ↔
      now - lastPass + wait ≤ bound ∧
        Timely wait bound ⟨t, t - phase wait (t - now), ts, false⟩ := by
  induction k generalizing now lastPass with
  | zero => exact absurd hk (by push_cast; linarith)
  | succ k ih =>
    rw [timely_wait hwait (by rintro _ ⟨⟩; linarith)]
    refine and_congr_right fun hfirst => ?_
    have hshift : phase wait (t - (now + wait)) = phase wait (t - now) := by
      rw [← sub_sub, phase_sub hwait]
    by_cases hnear : t - (now + wait) ≤ wait
    · rw [timely_arrival (by linarith) hnear, ← hshift,
        phase_within hwait (by linarith) hnear, sub_sub_cancel]
    · have hk' : t - (now + wait) ≤ (k + 1) * wait := by
        push_cast at hk
        linarith
      rw [ih le_rfl (not_le.mp hnear) hk', hshift]
      refine and_iff_right ?_
      linarith

theorem phase_nonneg {wait gap : K} (hwait : 0 < wait) : 0 ≤ phase wait gap := by
  have hceil := (Int.ceil_lt_add_one (gap / wait)).le
  have hmul : (⌈gap / wait⌉ - 1) * wait ≤ gap / wait * wait :=
    mul_le_mul_of_nonneg_right (by linarith) hwait.le
  rw [div_mul_cancel₀ gap hwait.ne'] at hmul
  rw [phase]
  linarith

/-- The loop is on time in every state it reaches exactly when its bursts are short. -/
theorem timely_iff {wait bound : K} (hwait : 0 < wait) (ts : List K) {now lag : K}
    (hlag : 0 ≤ lag) (hsorted : (now :: ts).Pairwise (· ≤ ·)) :
    Timely wait bound ⟨now, now - lag, ts, false⟩ ↔ ShortBursts wait bound lag now ts := by
  induction ts generalizing now lag with
  | nil =>
    rw [timely_wait hwait (by simp), sub_sub_cancel, ShortBursts]
    refine ⟨fun h => h.1, fun h => ⟨h, timely_idle hwait ?_ _⟩⟩
    linarith
  | cons t ts ih =>
    have hnow : now ≤ t := List.rel_of_pairwise_cons hsorted List.mem_cons_self
    have hts := (List.pairwise_cons.mp hsorted).2
    rw [ShortBursts]
    split
    · rename_i hnear
      rw [timely_arrival hnow hnear, ← ih (by linarith) hts]
      have hsame : t - (lag + (t - now)) = now - lag := by ring
      rw [hsame]
    · rename_i hfar
      obtain ⟨k, hk⟩ := exists_nat_ge ((t - now) / wait)
      have hreach : t - now ≤ (k + 1) * wait := by
        have hmul := (div_le_iff₀ hwait).mp hk
        linarith
      rw [timely_gap hwait k (by linarith) (not_le.mp hfar) hreach, sub_sub_cancel,
        ih (phase_nonneg hwait) hts]

end DrainLoop
