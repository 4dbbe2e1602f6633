import Mathlib.Data.List.Basic

/-!
# Runs of a partial event machine

A machine steps on an event to a new state and a list of outputs, or fails.
`exec` runs a list of events and concatenates the outputs; the rules below carry
an invariant of the state and of the whole output through a run.
-/

namespace EventRun

variable {σ ε ω : Type}

/-- Run the events in order; `none` as soon as one step fails. -/
def exec (step : σ → ε → Option (σ × List ω)) : σ → List ε → Option (σ × List ω)
  | s, [] => some (s, [])
  | s, e :: es =>
    (step s e).bind fun r => (exec step r.1 es).map fun r' => (r'.1, r.2 ++ r'.2)

variable {step : σ → ε → Option (σ × List ω)}

@[simp] theorem exec_nil (s : σ) : exec step s [] = some (s, []) := rfl

theorem exec_cons_eq_some {s : σ} {e : ε} {es : List ε} {t : σ} {log : List ω} :
    exec step s (e :: es) = some (t, log) ↔
      ∃ s' out rest, step s e = some (s', out) ∧ exec step s' es = some (t, rest) ∧
        log = out ++ rest := by
  simp only [exec, Option.bind_eq_some_iff, Option.map_eq_some_iff, Prod.exists, Prod.mk.injEq]
  constructor
  · rintro ⟨s', out, hs, t', rest, he, rfl, rfl⟩
    exact ⟨s', out, rest, hs, he, rfl⟩
  · rintro ⟨s', out, rest, hs, he, rfl⟩
    exact ⟨s', out, hs, t, rest, he, rfl, rfl⟩

/-- The invariant rule, for a property of the state, the events still to come and the
output so far: what every step keeps holds when no event is left. -/
theorem exec_rule (P : σ → List ε → List ω → Prop) (log : List ω)
    (hstep : ∀ s e es log s' out, P s (e :: es) log → step s e = some (s', out) →
      P s' es (log ++ out))
    {s t : σ} {es : List ε} {out : List ω} (h : P s es log)
    (hrun : exec step s es = some (t, out)) : P t [] (log ++ out) := by
  induction es generalizing s log out with
  | nil =>
    cases hrun
    simpa using h
  | cons e es ih =>
    obtain ⟨s', mid, rest, hs, he, rfl⟩ := exec_cons_eq_some.mp hrun
    rw [← List.append_assoc]
    exact ih (log ++ mid) (hstep s e es log s' mid h hs) he

/-- A machine whose steps never fail from the states it keeps to never fails. -/
theorem exec_isSome (P : σ → Prop) (es : List ε)
    (hstep : ∀ s e, e ∈ es → P s → ∃ s' out, step s e = some (s', out) ∧ P s')
    {s : σ} (h : P s) : ∃ t out, exec step s es = some (t, out) ∧ P t := by
  induction es generalizing s with
  | nil => exact ⟨s, [], rfl, h⟩
  | cons e es ih =>
    obtain ⟨s', out, hs, h'⟩ := hstep s e List.mem_cons_self h
    obtain ⟨t, rest, he, ht⟩ := ih (fun s e hmem => hstep s e (List.mem_cons_of_mem _ hmem)) h'
    exact ⟨t, out ++ rest, exec_cons_eq_some.mpr ⟨s', out, rest, hs, he, rfl⟩, ht⟩

theorem exec_append {s : σ} {es es' : List ε} {t : σ} {log : List ω} :
    exec step s (es ++ es') = some (t, log) ↔
      ∃ m out rest, exec step s es = some (m, out) ∧ exec step m es' = some (t, rest) ∧
        log = out ++ rest := by
  induction es generalizing s log with
  | nil => simp
  | cons e es ih =>
    simp only [List.cons_append, exec_cons_eq_some, ih]
    constructor
    · rintro ⟨s', o, r, hs, ⟨m, o', r', he, he', rfl⟩, rfl⟩
      exact ⟨m, o ++ o', r', ⟨s', o, o', hs, he, rfl⟩, he', by simp⟩
    · rintro ⟨m, o, r, ⟨s', o', r', hs, he, rfl⟩, he', rfl⟩
      exact ⟨s', o', r' ++ r, hs, ⟨m, r', r, he, he', rfl⟩, by simp⟩

/-- A monitor that takes the outputs of every step, as long as it agrees with the machine, takes
those of a run. -/
theorem exec_taken {μ : Type} (take : μ → ω → Option μ) (Agrees : σ → μ → Prop)
    (hstep : ∀ s e s' out m, Agrees s m → step s e = some (s', out) →
      ∃ m', out.foldlM take m = some m' ∧ Agrees s' m')
    {s t : σ} {m : μ} {es : List ε} {log : List ω} (h : Agrees s m)
    (hrun : exec step s es = some (t, log)) : ∃ m', log.foldlM take m = some m' ∧ Agrees t m' := by
  induction es generalizing s m log with
  | nil =>
    cases hrun
    exact ⟨m, rfl, h⟩
  | cons e es ih =>
    obtain ⟨s', out, rest, hs, he, rfl⟩ := exec_cons_eq_some.mp hrun
    obtain ⟨m', htaken, h'⟩ := hstep s e s' out m h hs
    obtain ⟨m'', hrest, hend⟩ := ih h' he
    refine ⟨m'', ?_, hend⟩
    rw [List.foldlM_append, htaken]
    exact hrest

/-- Every event of a run is admitted where it comes. -/
def Admitted (step : σ → ε → Option (σ × List ω)) (admits : σ → ε → Prop) : σ → List ε → Prop
  | _, [] => True
  | s, e :: es => admits s e ∧ ∀ r ∈ step s e, Admitted step admits r.1 es

instance Admitted.decidable (step : σ → ε → Option (σ × List ω)) (admits : σ → ε → Prop)
    [∀ s e, Decidable (admits s e)] :
    ∀ (s : σ) (es : List ε), Decidable (Admitted step admits s es)
  | _, [] => isTrue trivial
  | s, e :: es =>
    have (r : σ × List ω) := Admitted.decidable step admits r.1 es
    inferInstanceAs (Decidable (_ ∧ ∀ r ∈ step s e, Admitted step admits r.1 es))

/-- Two machines that go together on every admitted event go together over a run: neither fails,
and the outputs are the same. -/
theorem exec_simulates {τ : Type} {spec : τ → ε → Option (τ × List ω)} {admits : σ → ε → Prop}
    (Rel : σ → τ → List ε → Prop)
    (hstep : ∀ s t e es, Rel s t (e :: es) → admits s e →
      ∃ s' t' out, step s e = some (s', out) ∧ spec t e = some (t', out) ∧ Rel s' t' es)
    {s : σ} {t : τ} {es : List ε} (h : Rel s t es) (hadmitted : Admitted step admits s es) :
    ∃ s' t' log, exec step s es = some (s', log) ∧ exec spec t es = some (t', log) ∧
      Rel s' t' [] := by
  induction es generalizing s t with
  | nil => exact ⟨s, t, [], rfl, rfl, h⟩
  | cons e es ih =>
    obtain ⟨hfirst, hrest⟩ := hadmitted
    obtain ⟨s', t', out, hs, ht, h'⟩ := hstep s t e es h hfirst
    obtain ⟨s'', t'', log, hs', ht', hend⟩ := ih h' (hrest _ hs)
    exact ⟨s'', t'', out ++ log, exec_cons_eq_some.mpr ⟨s', out, log, hs, hs', rfl⟩,
      exec_cons_eq_some.mpr ⟨t', out, log, ht, ht', rfl⟩, hend⟩

end EventRun
