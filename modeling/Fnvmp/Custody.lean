import Mathlib.Data.List.Basic
import Mathlib.Logic.Function.Basic
import Mathlib.Logic.Relation

/-!
# Custody of resources

A ledger says which key holds which resource, which resources were ever acquired, and
how often each was released. Acquiring takes a fresh resource under a free key and
releasing gives one back, so each resource is held by one key or was released once.
-/

namespace Custody

variable {K R : Type} [DecidableEq K] [DecidableEq R]

structure Ledger (K R : Type) where
  holder : K → Option R
  acquired : List R
  released : R → Nat

def vacant : Ledger K R := ⟨fun _ => none, [], fun _ => 0⟩

def acquire (l : Ledger K R) (k : K) (r : R) : Ledger K R where
  holder := Function.update l.holder k (some r)
  acquired := l.acquired ++ [r]
  released := l.released

def release (l : Ledger K R) (k : K) (r : R) : Ledger K R where
  holder := Function.update l.holder k none
  acquired := l.acquired
  released := Function.update l.released r (l.released r + 1)

inductive Step (l : Ledger K R) : Ledger K R → Prop where
  | acquire (k : K) (r : R) : l.holder k = none → r ∉ l.acquired → Step l (acquire l k r)
  | release (k : K) (r : R) : l.holder k = some r → Step l (release l k r)

/-- Any number of acquisitions and releases. -/
abbrev Steps : Ledger K R → Ledger K R → Prop := Relation.ReflTransGen Step

structure Sound (l : Ledger K R) : Prop where
  one_holder : ∀ k k' r, l.holder k = some r → l.holder k' = some r → k = k'
  held : ∀ k r, l.holder k = some r → r ∈ l.acquired ∧ l.released r = 0
  accounted : ∀ r ∈ l.acquired, (∃ k, l.holder k = some r) ∨ l.released r = 1
  unknown : ∀ r, r ∉ l.acquired → l.released r = 0

omit [DecidableEq K] [DecidableEq R] in
theorem sound_vacant : Sound (vacant : Ledger K R) where
  one_holder := by simp [vacant]
  held := by simp [vacant]
  accounted := by simp [vacant]
  unknown := by simp [vacant]

omit [DecidableEq R] in
theorem acquire_holder (l : Ledger K R) (k a : K) (r : R) :
    (acquire l k r).holder a = if a = k then some r else l.holder a :=
  Function.update_apply ..

theorem release_holder (l : Ledger K R) (k a : K) (r : R) :
    (release l k r).holder a = if a = k then none else l.holder a :=
  Function.update_apply ..

theorem release_released (l : Ledger K R) (k : K) (r s : R) :
    (release l k r).released s = if s = r then l.released r + 1 else l.released s :=
  Function.update_apply ..

/-- What of soundness is left when a resource may also get lost: each is held by one key
at most, and none that is held was released. -/
structure Guarded (l : Ledger K R) : Prop where
  one_holder : ∀ k k' r, l.holder k = some r → l.holder k' = some r → k = k'
  held : ∀ k r, l.holder k = some r → r ∈ l.acquired ∧ l.released r = 0
  unknown : ∀ r, r ∉ l.acquired → l.released r = 0

omit [DecidableEq K] [DecidableEq R] in
theorem Sound.guarded {l : Ledger K R} (h : Sound l) : Guarded l :=
  ⟨h.one_holder, h.held, h.unknown⟩

omit [DecidableEq R] in
theorem guarded_acquire {l : Ledger K R} (h : Guarded l) {k : K} {r : R} (hr : r ∉ l.acquired) :
    Guarded (acquire l k r) where
  one_holder := by
    have hold : ∀ a, l.holder a ≠ some r := fun a ha => hr (h.held a r ha).1
    intro a b s ha hb
    rw [acquire_holder] at ha hb
    split at ha
    · split at hb
      · simp_all
      · cases ha
        exact absurd hb (hold b)
    · split at hb
      · cases hb
        exact absurd ha (hold a)
      · exact h.one_holder a b s ha hb
  held := by
    intro a s ha
    rw [acquire_holder] at ha
    split at ha
    · rw [← Option.some.inj ha]
      exact ⟨by simp [acquire], h.unknown r hr⟩
    · exact ⟨List.mem_append_left _ (h.held a s ha).1, (h.held a s ha).2⟩
  unknown := by
    intro s hs
    exact h.unknown s fun hmem => hs (List.mem_append_left _ hmem)

omit [DecidableEq R] in
/-- A key may lose what it holds without giving it back. -/
theorem guarded_lose {l : Ledger K R} (h : Guarded l) (k : K) :
    Guarded { l with holder := Function.update l.holder k none } where
  one_holder := by
    intro a b s ha hb
    simp only [Function.update_apply] at ha hb
    split at ha
    · cases ha
    · split at hb
      · cases hb
      · exact h.one_holder a b s ha hb
  held := by
    intro a s ha
    simp only [Function.update_apply] at ha
    split at ha
    · cases ha
    · exact h.held a s ha
  unknown := h.unknown

theorem guarded_release {l : Ledger K R} (h : Guarded l) {k : K} {r : R}
    (hk : l.holder k = some r) : Guarded (release l k r) where
  one_holder := (guarded_lose h k).one_holder
  held := by
    intro a s ha
    have hlost := (guarded_lose h k).held a s ha
    refine ⟨hlost.1, ?_⟩
    rw [release_released, if_neg]
    · exact hlost.2
    · rintro rfl
      rw [release_holder] at ha
      split at ha
      · cases ha
      · rename_i hak
        exact hak (h.one_holder a k s ha hk)
  unknown := by
    intro s hs
    rw [release_released, if_neg]
    · exact h.unknown s hs
    · rintro rfl
      exact hs (h.held k s hk).1

omit [DecidableEq R] in
theorem sound_acquire {l : Ledger K R} (h : Sound l) {k : K} {r : R} (hfree : l.holder k = none)
    (hr : r ∉ l.acquired) : Sound (acquire l k r) := by
  obtain ⟨hone, hheld, hunknown⟩ := guarded_acquire h.guarded (k := k) hr
  refine ⟨hone, hheld, fun s hs => ?_, hunknown⟩
  rcases List.mem_append.mp hs with hs | hs
  · refine (h.accounted s hs).imp_left ?_
    rintro ⟨a, ha⟩
    refine ⟨a, ?_⟩
    rw [acquire_holder, if_neg]
    · exact ha
    · rintro rfl
      rw [hfree] at ha
      cases ha
  · rw [List.mem_singleton.mp hs]
    exact .inl ⟨k, by simp [acquire_holder]⟩

theorem sound_release {l : Ledger K R} (h : Sound l) {k : K} {r : R} (hk : l.holder k = some r) :
    Sound (release l k r) := by
  obtain ⟨hone, hheld, hunknown⟩ := guarded_release h.guarded hk
  refine ⟨hone, hheld, fun s hs => ?_, hunknown⟩
  rw [release_released]
  split
  · rw [(h.held k r hk).2]
    exact .inr rfl
  · rename_i hsr
    refine (h.accounted s hs).imp_left ?_
    rintro ⟨a, ha⟩
    refine ⟨a, ?_⟩
    rw [release_holder, if_neg]
    · exact ha
    · rintro rfl
      rw [hk, Option.some.injEq] at ha
      exact hsr ha.symm

/-- What a key once held it still holds, or has given back. -/
theorem Steps.kept {l l' : Ledger K R} (hs : Steps l l') {k : K} {r : R}
    (hk : l.holder k = some r) : l'.holder k = some r ∨ 0 < l'.released r := by
  induction hs with
  | refl => exact .inl hk
  | tail _ hstep ih =>
    cases hstep with
    | acquire k' r' hfree hr =>
      refine ih.imp_left fun hheld => ?_
      rw [acquire_holder, if_neg]
      · exact hheld
      · rintro rfl
        rw [hfree] at hheld
        cases hheld
    | release k' r' hk' =>
      rw [release_holder, release_released]
      rcases ih with hheld | hdone
      · split
        · rename_i heq
          rw [heq, hk', Option.some.injEq] at hheld
          exact .inr (by simp [hheld])
        · exact .inl hheld
      · refine .inr ?_
        split
        · exact Nat.succ_pos _
        · exact hdone

end Custody
