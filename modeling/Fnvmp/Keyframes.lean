import Mathlib.Algebra.Order.Field.Basic
import Mathlib.Data.List.Chain
import Mathlib.Order.Interval.Set.UnorderedInterval
import Mathlib.Tactic.Linarith
import Mathlib.Tactic.Ring

/-!
# Keyframe tracks

A track is a list of keys with times. It rests at its first key until the time of that
key, is blended between neighbours, and is continued after its last key.
-/

namespace Keyframes

variable {K P Q T : Type}

/-- The pairs of neighbouring keys. -/
def neighbours (l : List K) : List (K × K) := l.zip l.tail

@[simp] theorem neighbours_nil : neighbours ([] : List K) = [] := rfl

@[simp] theorem neighbours_singleton (a : K) : neighbours [a] = [] := rfl

@[simp] theorem neighbours_cons_cons (a b : K) (l : List K) :
    neighbours (a :: b :: l) = (a, b) :: neighbours (b :: l) := rfl

/-- Where two tracks meet, the neighbours are those of either. -/
theorem neighbours_append (l : List K) (a : K) (m : List K) :
    neighbours (l ++ a :: m) = neighbours (l ++ [a]) ++ neighbours (a :: m) := by
  induction l with
  | nil => rfl
  | cons b l ih =>
    cases l with
    | nil => rfl
    | cons c l => simpa using ih

/-- A relation along the track relates all neighbours. -/
theorem isChain_neighbours {R : K → K → Prop} {l : List K} (h : l.IsChain R) :
    ∀ p ∈ neighbours l, R p.1 p.2 := by
  induction l with
  | nil => simp
  | cons a l ih =>
    cases l with
    | nil => simp
    | cons b l =>
      obtain ⟨hab, hrest⟩ := List.isChain_cons_cons.mp h
      intro p hp
      rcases List.mem_cons.mp hp with rfl | hp
      · exact hab
      · exact ih hrest p hp

/-! ## Playing a track -/

section play

variable [LinearOrder T] (time : K → T) (rest : K → P) (blend : K → K → T → P)
  (beyond : K → T → P) (x : T)

/-- The value of the track that begins with a key. -/
def play : K → List K → P
  | a, [] => if x ≤ time a then rest a else beyond a x
  | a, b :: l => if x ≤ time a then rest a else if x ≤ time b then blend a b x else play b l

variable {time rest blend beyond x}

theorem play_before {a : K} {l : List K} (h : x ≤ time a) :
    play time rest blend beyond x a l = rest a := by
  cases l <;> rw [play, if_pos h]

theorem play_within {a b : K} {l : List K} (h : time a < x) (h' : x ≤ time b) :
    play time rest blend beyond x a (b :: l) = blend a b x := by
  rw [play, if_neg (not_le.mpr h), if_pos h']

theorem play_after {a b : K} {l : List K} (h : time a < x) (h' : time b < x) :
    play time rest blend beyond x a (b :: l) = play time rest blend beyond x b l := by
  rw [play, if_neg (not_le.mpr h), if_neg (not_le.mpr h')]

/-- A function of the values is applied key by key. -/
theorem play_map (f : P → Q) (a : K) (l : List K) : f (play time rest blend beyond x a l) =
    play time (f ∘ rest) (fun a b x => f (blend a b x)) (fun a x => f (beyond a x)) x a l := by
  induction l generalizing a with
  | nil =>
    rw [play, play, apply_ite f]
    rfl
  | cons b l ih =>
    rw [play, play, apply_ite f, apply_ite f, ih]
    rfl

/-- Only the blends of neighbours matter. -/
theorem play_congr {blend' : K → K → T → P} {a : K} {l : List K}
    (h : ∀ p ∈ neighbours (a :: l), blend p.1 p.2 x = blend' p.1 p.2 x) :
    play time rest blend beyond x a l = play time rest blend' beyond x a l := by
  induction l generalizing a with
  | nil => rfl
  | cons b l ih =>
    rw [play, play, h (a, b) (by simp), ih fun p hp => h p (by simp [hp])]

/-- Keys added after the last one change nothing before it. -/
theorem play_append {a : K} {l : List K} (m : List K)
    (h : x ≤ time ((a :: l).getLast (List.cons_ne_nil a l))) :
    play time rest blend beyond x a (l ++ m) = play time rest blend beyond x a l := by
  induction l generalizing a with
  | nil =>
    have ha : x ≤ time a := h
    rw [play_before ha, play_before ha]
  | cons b l ih =>
    rw [List.cons_append, play, play]
    split
    · rfl
    · split
      · rfl
      · exact ih h

/-- After the second key the first one changes nothing. At the second key itself the
track blends to its end instead of resting. -/
theorem play_tail {R : P → P → Prop} (hrefl : ∀ p, R p p) {a b : K} {l : List K}
    (h : time a < time b) (hseam : R (blend a b (time b)) (rest b)) (hx : time b ≤ x) :
    R (play time rest blend beyond x a (b :: l)) (play time rest blend beyond x b l) := by
  rcases hx.eq_or_lt with rfl | hx
  · rw [play_within h le_rfl, play_before le_rfl]
    exact hseam
  · rw [play_after (h.trans hx) hx]
    exact hrefl _

/-- No key is later than the last one. -/
theorem le_last {l : List K} (htime : l.IsChain fun c d => time c < time d) {b : K}
    (hlast : l.getLast? = some b) : ∀ a ∈ l, time a ≤ time b := by
  intro a ha
  have htrans : IsTrans K fun c d => time c < time d := ⟨fun _ _ _ => lt_trans⟩
  have hsorted : l.Pairwise fun c d => time c ≤ time d :=
    (List.isChain_iff_pairwise.mp htime).imp le_of_lt
  rw [List.getLast?_eq_getLast_of_ne_nil (List.ne_nil_of_mem ha)] at hlast
  rw [← Option.some.inj hlast]
  exact hsorted.rel_getLast_of_rel_getLast_getLast ha le_rfl

/-- Blends that end in the later key lead to the last key. -/
theorem play_end {a : K} {l : List K} (htime : (a :: l).IsChain fun c d => time c < time d)
    (hblend : ∀ p ∈ neighbours (a :: l), blend p.1 p.2 (time p.2) = rest p.2)
    {b : K} (hlast : (a :: l).getLast? = some b) :
    play time rest blend beyond (time b) a l = rest b := by
  induction l generalizing a with
  | nil =>
    obtain rfl := Option.some.inj hlast
    exact play_before le_rfl
  | cons c l ih =>
    obtain ⟨hac, htail⟩ := List.isChain_cons_cons.mp htime
    have hrest := ih htail (fun p hp => hblend p (by simp [hp])) hlast
    rw [← hrest]
    exact play_tail (R := (· = ·)) (fun _ => rfl) hac (hblend (a, c) (by simp))
      (le_last htail hlast c List.mem_cons_self)

/-- Between the first and the last key there are first neighbours of which the later one has
not passed. -/
theorem exists_neighbours {a : K} {l : List K} (hfirst : time a < x)
    (hlast : x ≤ time ((a :: l).getLast (List.cons_ne_nil a l))) :
    ∃ c d, (neighbours (a :: l)).find? (fun p => decide (x ≤ time p.2)) = some (c, d) ∧
      time c < x ∧ x ≤ time d := by
  induction l generalizing a with
  | nil => exact absurd hlast (not_le.mpr hfirst)
  | cons b l ih =>
    by_cases hb : x ≤ time b
    · exact ⟨a, b, by simp [hb], hfirst, hb⟩
    · rw [neighbours_cons_cons, List.find?_cons_of_neg (by simpa using hb)]
      exact ih (not_le.mp hb) hlast

/-- The track is blended between them. -/
theorem play_find {a : K} {l : List K} (hfirst : time a < x) {c d : K}
    (hfind : (neighbours (a :: l)).find? (fun p => decide (x ≤ time p.2)) = some (c, d)) :
    play time rest blend beyond x a l = blend c d x := by
  induction l generalizing a with
  | nil => cases hfind
  | cons b l ih =>
    rw [neighbours_cons_cons] at hfind
    by_cases hb : x ≤ time b
    · rw [List.find?_cons_of_pos (by simpa using hb)] at hfind
      cases hfind
      exact play_within hfirst hb
    · rw [List.find?_cons_of_neg (by simpa using hb)] at hfind
      exact (play_after hfirst (not_le.mp hb)).trans (ih (not_le.mp hb) hfind)

theorem play_beyond {a : K} {l : List K} (h : ∀ b ∈ a :: l, time b < x) :
    play time rest blend beyond x a l = beyond ((a :: l).getLast (List.cons_ne_nil a l)) x := by
  induction l generalizing a with
  | nil =>
    rw [play, if_neg (not_le.mpr (h a (by simp)))]
    rfl
  | cons b l ih =>
    rw [play_after (h a (by simp)) (h b (by simp)), ih fun c hc => h c (List.mem_cons_of_mem a hc)]
    rfl

end play

/-! ## How fast a track moves -/

section speed

variable {R : Type} [Field R] (time val : K → R)

/-- The slope between two keys. -/
def slope (a b : K) : R := (val b - val a) / (time b - time a)

/-- The straight line from one key to the next. -/
def line (a b : K) (x : R) : R :=
  val a + (x - time a) / (time b - time a) * (val b - val a)

theorem line_eq (a b : K) (x : R) :
    line time val a b x = val a + slope time val a b * (x - time a) := by
  rw [line, slope]
  ring

variable [LinearOrder R]

/-- On a set of times the function changes at most at a rate. -/
def RateOn (V : R) (f : R → R) (s : Set R) : Prop :=
  ∀ x ∈ s, ∀ y ∈ s, x ≤ y → |f y - f x| ≤ V * (y - x)

theorem RateOn.congr {V : R} {f g : R → R} {s : Set R} (h : RateOn V f s)
    (hfg : ∀ x ∈ s, g x = f x) : RateOn V g s := by
  intro x hx y hy hle
  rw [hfg x hx, hfg y hy]
  exact h x hx y hy hle

variable [IsStrictOrderedRing R]

theorem line_end {a b : K} (h : time a < time b) : line time val a b (time b) = val b := by
  rw [line, div_self (sub_pos.mpr h).ne']
  ring

/-- A point of the line lies between its ends. -/
theorem line_mem {a b : K} {x : R} (ha : time a < x) (hb : x ≤ time b) :
    line time val a b x ∈ Set.uIcc (val a) (val b) := by
  have hpos : 0 < time b - time a := sub_pos.mpr (ha.trans_le hb)
  have hlow : 0 ≤ (x - time a) / (time b - time a) :=
    div_nonneg (sub_nonneg.mpr ha.le) hpos.le
  have hhigh : (x - time a) / (time b - time a) ≤ 1 := by
    rw [div_le_one hpos]
    linarith
  rw [line]
  generalize (x - time a) / (time b - time a) = r at hlow hhigh
  rw [Set.mem_uIcc]
  rcases le_total (val a) (val b) with hle | hle
  · exact .inl (by constructor <;> nlinarith)
  · exact .inr (by constructor <;> nlinarith)

/-- Two pieces that meet. -/
theorem RateOn.glue {V : R} {f : R → R} {s : Set R} {c : R} (hc : c ∈ s)
    (hbefore : RateOn V f (s ∩ Set.Iic c)) (hafter : RateOn V f (s ∩ Set.Ici c)) :
    RateOn V f s := by
  intro x hx y hy hle
  rcases le_total y c with hyc | hcy
  · exact hbefore x ⟨hx, hle.trans hyc⟩ y ⟨hy, hyc⟩ hle
  · rcases le_total c x with hcx | hxc
    · exact hafter x ⟨hx, hcx⟩ y ⟨hy, hcy⟩ hle
    · have hleft := hbefore x ⟨hx, hxc⟩ c ⟨hc, le_rfl⟩ hxc
      have hright := hafter c ⟨hc, le_rfl⟩ y ⟨hy, hcy⟩ hcy
      calc |f y - f x| ≤ |f y - f c| + |f c - f x| := abs_sub_le _ _ _
        _ ≤ V * (y - c) + V * (c - x) := add_le_add hright hleft
        _ = V * (y - x) := by ring

theorem rateOn_const {V : R} (hV : 0 ≤ V) (c : R) (s : Set R) : RateOn V (fun _ => c) s := by
  intro x _ y _ hle
  simpa using mul_nonneg hV (sub_nonneg.mpr hle)

theorem rateOn_line {V v : R} (h : |v| ≤ V) (c t : R) (s : Set R) :
    RateOn V (fun x => c + v * (x - t)) s := by
  intro x _ y _ hle
  have hstep : c + v * (y - t) - (c + v * (x - t)) = v * (y - x) := by ring
  rw [hstep, abs_mul, abs_of_nonneg (sub_nonneg.mpr hle)]
  exact mul_le_mul_of_nonneg_right h (sub_nonneg.mpr hle)

/-- A track of straight lines, continued at a velocity, moves no faster than the fastest of
its lines and that velocity. -/
theorem play_rate {V v : R} (hv : |v| ≤ V) {a : K} {l : List K}
    (htime : (a :: l).IsChain fun c d => time c < time d)
    (hslope : ∀ p ∈ neighbours (a :: l), |slope time val p.1 p.2| ≤ V) :
    RateOn V (fun x => play time val (line time val) (fun c x => val c + v * (x - time c)) x a l)
      Set.univ := by
  have hV : 0 ≤ V := (abs_nonneg v).trans hv
  induction l generalizing a with
  | nil =>
    refine .glue (Set.mem_univ (time a)) ?_ ?_
    · exact (rateOn_const hV (val a) _).congr fun x hx => play_before hx.2
    · refine (rateOn_line hv (val a) (time a) _).congr fun x hx => ?_
      rcases (show time a ≤ x from hx.2).eq_or_lt with rfl | hlt
      · rw [play_before le_rfl]
        ring
      · rw [play, if_neg (not_le.mpr hlt)]
  | cons b l ih =>
    obtain ⟨hab, htail⟩ := List.isChain_cons_cons.mp htime
    have hfirst := hslope (a, b) (by simp)
    have hrest := ih htail fun p hp => hslope p (by simp [hp])
    refine .glue (Set.mem_univ (time a)) ?_ (.glue (c := time b) ⟨trivial, hab.le⟩ ?_ ?_)
    · exact (rateOn_const hV (val a) _).congr fun x hx => play_before hx.2
    · refine (rateOn_line hfirst (val a) (time a) _).congr fun x hx => ?_
      rcases (show time a ≤ x from hx.1.2).eq_or_lt with rfl | hlt
      · rw [play_before le_rfl]
        ring
      · rw [play_within hlt hx.2, line_eq]
    · have hkept : RateOn V _ (Set.univ ∩ Set.Ici (time a) ∩ Set.Ici (time b)) :=
        fun x _ y _ => hrest x trivial y trivial
      refine hkept.congr fun x hx => ?_
      exact play_tail (R := (· = ·)) (fun _ => rfl) hab (line_end time val hab) hx.2

end speed

end Keyframes
