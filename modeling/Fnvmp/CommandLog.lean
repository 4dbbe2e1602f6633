import Mathlib.Data.List.Basic
import Mathlib.Data.List.Induction

/-!
# Logs of what has been done

A log lists items oldest first. `latest` is the newest value some items carry, `since`
also the notes taken after it, and a log is `Guarded` when each item was allowed by the
items before it.
-/

namespace CommandLog

variable {α β γ : Type}

/-- The value carried by the newest item that carries one. -/
def latest (f : α → Option β) (log : List α) : Option β := (log.filterMap f).getLast?

theorem latest_append (f : α → Option β) (log log' : List α) :
    latest f (log ++ log') = (latest f log').or (latest f log) := by
  simp only [latest, List.filterMap_append, List.getLast?_append]

theorem latest_snoc (f : α → Option β) (log : List α) (a : α) :
    latest f (log ++ [a]) = (f a).or (latest f log) := by
  rw [latest_append]
  cases h : f a <;> simp [latest, h]

/-- Items that carry nothing do not show. -/
theorem latest_silent (f : α → Option β) (log log' : List α) (h : ∀ a ∈ log', f a = none) :
    latest f (log ++ log') = latest f log := by
  have hnil : log'.filterMap f = [] := List.filterMap_eq_nil_iff.mpr h
  rw [latest_append, latest, hnil]
  rfl

/-- The newest item that opens something, with the notes of the items after it. -/
def since (opens : α → Option β) (note : α → Option γ) (log : List α) : Option (β × List γ) :=
  log.foldl (fun state a => match opens a with
    | some b => some (b, [])
    | none => state.map fun s => (s.1, s.2 ++ (note a).toList)) none

theorem since_open (opens : α → Option β) (note : α → Option γ) (log : List α) {a : α} {b : β}
    (h : opens a = some b) : since opens note (log ++ [a]) = some (b, []) := by
  simp [since, h]

theorem since_note (opens : α → Option β) (note : α → Option γ) (log : List α) {a : α} {c : γ}
    (h : opens a = none) (hnote : note a = some c) : since opens note (log ++ [a]) =
      (since opens note log).map fun s => (s.1, s.2 ++ [c]) := by
  simp [since, h, hnote]

theorem since_silent (opens : α → Option β) (note : α → Option γ) (log log' : List α)
    (h : ∀ a ∈ log', opens a = none ∧ note a = none) :
    since opens note (log ++ log') = since opens note log := by
  induction log' using List.reverseRecOn with
  | nil => rw [List.append_nil]
  | append_singleton rest a ih =>
    obtain ⟨hopens, hnote⟩ := h a (by simp)
    rw [← ih fun b hb => h b (List.mem_append_left _ hb), ← List.append_assoc]
    cases hs : since opens note (log ++ rest) <;>
      simpa [since, List.foldl_append, hopens, hnote] using hs

/-- Each item of the log is allowed by the items before it. -/
def Guarded (allows : List α → α → Prop) (log : List α) : Prop :=
  ∀ before a after, log = before ++ a :: after → allows before a

variable {allows : List α → α → Prop}

theorem guarded_nil : Guarded allows [] := by
  intro before a after h
  simp at h

theorem guarded_snoc (log : List α) (a : α) :
    Guarded allows (log ++ [a]) ↔ Guarded allows log ∧ allows log a := by
  constructor
  · intro h
    refine ⟨fun before b after hlog => h before b (after ++ [a]) (by simp [hlog]), ?_⟩
    exact h log a [] rfl
  · rintro ⟨h, ha⟩ before b after hlog
    rcases List.eq_nil_or_concat after with rfl | ⟨rest, c, rfl⟩
    · obtain ⟨rfl, hab⟩ := List.append_inj' hlog rfl
      cases hab
      exact ha
    · rw [List.concat_eq_append, ← List.cons_append, ← List.append_assoc] at hlog
      exact h before b rest (List.append_inj' hlog rfl).1

/-- Items that are allowed after anything keep a log guarded. -/
theorem Guarded.append_free {log log' : List α} (h : Guarded allows log)
    (hfree : ∀ a ∈ log', ∀ before, allows before a) : Guarded allows (log ++ log') := by
  induction log' using List.reverseRecOn with
  | nil => simpa using h
  | append_singleton rest a ih =>
    rw [← List.append_assoc, guarded_snoc]
    refine ⟨ih fun b hb => hfree b (List.mem_append_left _ hb), hfree a ?_ _⟩
    exact List.mem_append_right _ (List.mem_singleton_self a)

end CommandLog
