import Mathlib.Algebra.Order.Group.Defs
import Mathlib.Algebra.Order.Monoid.Unbundled.Basic
import Mathlib.Data.List.Basic
import Mathlib.Tactic.GCongr

/-!
# Heartbeats

A sender whose beats are never more than `gap` apart, and a monitor that remembers when
it last heard one. As long as no beat is on its way for longer than `delay`, the monitor
has heard something within `gap + delay`.
-/

namespace Heartbeat

variable {T : Type} [AddCommGroup T] [LinearOrder T] [IsOrderedAddMonoid T]

/-- Beats from `first` to `last`, at most `gap` apart. Each is `pending`, or had come in when
the monitor was at `seen`. -/
structure Pulse (gap first last seen : T) (pending : List T) : Prop where
  opened : first ∈ pending ∨ first ≤ seen
  steady : ∀ x, first ≤ x → x < last → ∃ y, x < y ∧ y ≤ x + gap ∧ (y ∈ pending ∨ y ≤ seen)

variable {gap first last seen : T} {pending : List T}

omit [IsOrderedAddMonoid T] in
theorem Pulse.start (gap seen : T) {first : T} (h : first ∈ pending) :
    Pulse gap first first seen pending :=
  ⟨.inl h, fun _ hlow hhigh => absurd hlow (not_le.mpr hhigh)⟩

/-- The next beat, before the gap is over. -/
theorem Pulse.beat (h : Pulse gap first last seen pending) {t : T} (ht : t ≤ last + gap)
    {pending' : List T} (hold : ∀ y ∈ pending, y ∈ pending') (hnew : t ∈ pending') :
    Pulse gap first t seen pending' := by
  refine ⟨h.opened.imp_left (hold first), fun x hlow hhigh => ?_⟩
  by_cases hx : x < last
  · obtain ⟨y, hxy, hgap, hy⟩ := h.steady x hlow hx
    exact ⟨y, hxy, hgap, hy.imp_left (hold y)⟩
  · have hlast : last ≤ x := not_lt.mp hx
    exact ⟨t, hhigh, ht.trans (by gcongr), .inl hnew⟩

omit [IsOrderedAddMonoid T] in
/-- Beats come in, and the monitor moves on. -/
theorem Pulse.arrive (h : Pulse gap first last seen pending) {t : T} (ht : seen ≤ t)
    {pending' : List T} (hdone : ∀ y ∈ pending, y ∈ pending' ∨ y ≤ t) :
    Pulse gap first last t pending' := by
  have move : ∀ y, y ∈ pending ∨ y ≤ seen → y ∈ pending' ∨ y ≤ t := by
    rintro y (hy | hy)
    · exact hdone y hy
    · exact .inr (hy.trans ht)
  refine ⟨move first h.opened, fun x hlow hhigh => ?_⟩
  obtain ⟨y, hxy, hgap, hy⟩ := h.steady x hlow hhigh
  exact ⟨y, hxy, hgap, move y hy⟩

/-- While nothing is overdue, the monitor has heard of the sender within the timeout. -/
theorem Pulse.alive (h : Pulse gap first last seen pending) {opened delay timeout now : T}
    (hopened : opened ≤ seen) (hfirst : first + delay ≤ opened + timeout)
    (hgap : gap ≤ timeout) (hnext : gap + delay ≤ timeout) (hdue : ∀ y ∈ pending, now ≤ y + delay)
    (hlast : now ≤ last + gap) : now ≤ seen + timeout := by
  by_cases hbegun : first ≤ seen
  · by_cases hbehind : seen < last
    · obtain ⟨y, hafter, hnear, hy⟩ := h.steady seen hbegun hbehind
      have hpending : y ∈ pending := hy.resolve_right (not_le.mpr hafter)
      calc now ≤ y + delay := hdue y hpending
        _ ≤ seen + gap + delay := by gcongr
        _ = seen + (gap + delay) := add_assoc _ _ _
        _ ≤ seen + timeout := by gcongr
    · have hheard : last ≤ seen := not_lt.mp hbehind
      calc now ≤ last + gap := hlast
        _ ≤ seen + timeout := by gcongr
  · calc now ≤ first + delay := hdue first (h.opened.resolve_right hbegun)
      _ ≤ opened + timeout := hfirst
      _ ≤ seen + timeout := by gcongr

end Heartbeat
