import Mathlib.Data.List.Basic
import Mathlib.Data.List.Pairwise
import Mathlib.Order.Defs.LinearOrder

/-!
# Replays of a list

A replay reads a list with a cursor that only moves forward: it may drop entries and
repeat the one it stands on, and never goes back. Loss without reordering, and a
register that keeps the last value and is read at any time, both make replays.
-/

namespace Replay

variable {α β : Type}

inductive Replays : List α → List α → Prop where
  | done (l : List α) : Replays l []
  | skip (a : α) {l xs : List α} : Replays l xs → Replays (a :: l) xs
  | emit {a : α} {l xs : List α} : Replays (a :: l) xs → Replays (a :: l) (a :: xs)

theorem Replays.skips {l xs : List α} (h : Replays l xs) (m : List α) : Replays (m ++ l) xs := by
  induction m with
  | nil => exact h
  | cons a m ih => exact .skip a ih

theorem Replays.append {l xs m ys : List α} (h : Replays l xs) (h' : Replays m ys) :
    Replays (l ++ m) (xs ++ ys) := by
  induction h with
  | done l => exact h'.skips l
  | skip a _ ih => exact .skip a ih
  | emit _ ih => exact .emit ih

theorem replays_replicate (a : α) (n : Nat) : Replays [a] (List.replicate n a) := by
  induction n with
  | zero => exact .done [a]
  | succ n ih => exact .emit ih

/-- The reader may lose entries. -/
theorem Replays.thin {l xs ys : List α} (h : Replays l xs) (hsub : List.Sublist ys xs) :
    Replays l ys := by
  induction h generalizing ys with
  | done l =>
    rw [List.sublist_nil.mp hsub]
    exact .done l
  | skip a _ ih => exact .skip a (ih hsub)
  | emit _ ih =>
    cases hsub with
    | cons _ hsub => exact ih hsub
    | cons_cons _ hsub => exact .emit (ih hsub)

theorem Replays.cons_mono {a : α} {l m xs : List α} (h : Replays (a :: l) xs)
    (hlm : ∀ ys, Replays l ys → Replays m ys) : Replays (a :: m) xs := by
  generalize hl : a :: l = k at h
  induction h with
  | done k => exact .done _
  | skip b h' ih =>
    cases hl
    exact .skip _ (hlm _ h')
  | emit h' ih =>
    cases hl
    exact .emit (ih rfl)

/-- So may the list that is read. -/
theorem Replays.widen {l m xs : List α} (hsub : List.Sublist l m) (h : Replays l xs) :
    Replays m xs := by
  induction hsub generalizing xs with
  | slnil => exact h
  | cons a _ ih => exact .skip a (ih h)
  | cons_cons a _ ih => exact h.cons_mono fun _ => ih

/-- Every entry of `got` stands somewhere in `sent`, further on or where the last one stood. -/
def InOrderOf (sent got : List α) : Prop :=
  ∃ js : List ℕ, js.Pairwise (· ≤ ·) ∧ got.map some = js.map fun j => sent[j]?

theorem Replays.inOrderOf {l xs : List α} (h : Replays l xs) : InOrderOf l xs := by
  induction h with
  | done l => exact ⟨[], .nil, rfl⟩
  | skip a _ ih =>
    obtain ⟨js, hle, hmap⟩ := ih
    refine ⟨js.map (· + 1), ?_, ?_⟩
    · exact hle.map _ fun _ _ hjk => Nat.succ_le_succ hjk
    · simpa [Function.comp_def] using hmap
  | emit _ ih =>
    obtain ⟨js, hle, hmap⟩ := ih
    refine ⟨0 :: js, List.pairwise_cons.mpr ⟨fun _ _ => Nat.zero_le _, hle⟩, ?_⟩
    simp [hmap]

theorem not_inOrderOf_swap {a b : α} (h : a ≠ b) : ¬ InOrderOf [a, b] [b, a] := by
  rintro ⟨js, hle, hmap⟩
  have hlength : js.length = 2 := by simpa using (congrArg List.length hmap).symm
  obtain ⟨j, k, rfl⟩ := List.length_eq_two.mp hlength
  simp only [List.map_cons, List.map_nil, List.cons.injEq, and_true] at hmap
  obtain ⟨hj, hk⟩ := hmap
  have hjk : j ≤ k := by simpa using hle
  have hfirst : j ≠ 0 := by
    rintro rfl
    exact h (Option.some.inj hj).symm
  have hsecond : k ≠ 1 := by
    rintro rfl
    exact h (Option.some.inj hk)
  obtain ⟨hlt, -⟩ := List.getElem?_eq_some_iff.mp hk.symm
  simp only [List.length_cons, List.length_nil] at hlt
  omega

/-! ## Registers -/

/-- However often the value is read from now on, the readings replay the list. -/
def Showing (l xs : List α) (v : α) : Prop := ∀ n, Replays l (xs ++ List.replicate n v)

theorem Replays.take {l xs : List α} (h : Replays l xs) (v : α) : Showing (l ++ [v]) xs v :=
  fun n => h.append (replays_replicate v n)

theorem Showing.read {l xs : List α} {v : α} (h : Showing l xs v) (n : Nat) :
    Showing l (xs ++ List.replicate n v) v := by
  intro k
  rw [List.append_assoc, List.replicate_append_replicate]
  exact h (n + k)

theorem Showing.extend {l xs : List α} {v : α} (h : Showing l xs v) (m : List α) :
    Showing (l ++ m) xs v := fun n => by
  simpa using (h n).append (.done m)

end Replay
