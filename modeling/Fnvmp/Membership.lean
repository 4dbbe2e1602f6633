import Mathlib.Data.List.Basic
import Mathlib.Data.List.Count
import Mathlib.Data.List.Nodup
import Mathlib.Logic.Function.Basic

/-!
# Group membership with farewell notices

The log of a group whose members join under fresh identities, are mentioned to
others while they are members, and whose departure is announced to exactly the
remaining members. `Run.orderly` collects what every such log satisfies, for any
number of joins, departures and reused seats.
-/

namespace Membership

variable {P I : Type} [DecidableEq P] [DecidableEq I]

/-- `mention q i` tells `q` that `i` is there, `farewell q i` that `i` has gone. -/
inductive Entry (P I : Type) where
  | join (seat : P) (id : I)
  | leave (seat : P) (id : I)
  | mention (dest : P) (id : I)
  | farewell (dest : P) (id : I)
  deriving DecidableEq

/-- The effect of one entry on the occupation of the seats. -/
def seat (table : P → Option I) : Entry P I → P → Option I
  | .join p i => Function.update table p (some i)
  | .leave p _ => Function.update table p none
  | .mention _ _ => table
  | .farewell _ _ => table

/-- Who sits where after a log. -/
def members (log : List (Entry P I)) : P → Option I := log.foldl seat (fun _ => none)

def joined (log : List (Entry P I)) : List I :=
  log.filterMap fun e => match e with
    | .join _ i => some i
    | _ => none

omit [DecidableEq I] in
@[simp] theorem members_nil : members ([] : List (Entry P I)) = fun _ => none := rfl

omit [DecidableEq I] in
theorem members_append (log es : List (Entry P I)) :
    members (log ++ es) = es.foldl seat (members log) := by
  simp [members]

omit [DecidableEq P] [DecidableEq I] in
theorem joined_append (log es : List (Entry P I)) :
    joined (log ++ es) = joined log ++ joined es := by
  simp [joined]

omit [DecidableEq P] [DecidableEq I] in
@[simp] theorem joined_nil : joined ([] : List (Entry P I)) = [] := rfl

/-- One thing the group does after `log`: mention present members, seat a fresh
identity on a free seat, or announce a departure and free the seat. -/
inductive Step (log : List (Entry P I)) : List (Entry P I) → Prop where
  | quiet (es : List (Entry P I)) :
      (∀ e ∈ es, ∃ q i p, e = .mention q i ∧ members log p = some i) → Step log es
  | join (p : P) (i : I) : members log p = none → i ∉ joined log → Step log [.join p i]
  | leave (p : P) (i : I) (es : List (Entry P I)) : members log p = some i →
      (∀ e ∈ es, ∃ q, e = .farewell q i) →
      (∀ q, es.count (.farewell q i) = if q ≠ p ∧ (members log q).isSome then 1 else 0) →
      Step log (es ++ [.leave p i])

inductive Run : List (Entry P I) → Prop where
  | nil : Run []
  | snoc {log es : List (Entry P I)} : Run log → Step log es → Run (log ++ es)

/-- Splitting a longer log at an entry that is not among the new ones. -/
theorem split_append {α : Type} {log es before after : List α} {y : α} (hy : y ∉ es)
    (h : log ++ es = before ++ y :: after) :
    ∃ after', log = before ++ y :: after' ∧ after = after' ++ es := by
  rcases List.append_eq_append_iff.mp h with ⟨t, -, hes⟩ | ⟨t, hlog, hes⟩
  · exact absurd (hes ▸ List.mem_append_right t List.mem_cons_self) hy
  · cases t with
    | nil =>
      rw [List.nil_append] at hes
      exact absurd (hes ▸ List.mem_cons_self) hy
    | cons z t =>
      rw [List.cons_append, List.cons.injEq] at hes
      exact ⟨t, by rw [hlog, hes.1], hes.2⟩

/-- Splitting a log at its own last entry, when that is new. -/
theorem split_last {α : Type} {log before after : List α} {y : α} (hy : y ∉ log)
    (h : log ++ [y] = before ++ y :: after) : before = log ∧ after = [] := by
  rcases List.append_eq_append_iff.mp h with ⟨t, hb, ht⟩ | ⟨t, hb, ht⟩
  · cases t with
    | nil => exact ⟨by simpa using hb, by simpa using ht.symm⟩
    | cons x t => simp at ht
  · cases t with
    | nil => exact ⟨by simpa using hb.symm, by simpa using ht⟩
    | cons x t =>
      rw [List.cons_append, List.cons.injEq] at ht
      exact absurd (by simp [hb, ht.1]) hy

/-- What a log of the group looks like at every moment. -/
structure Orderly (log : List (Entry P I)) : Prop where
  fresh : (joined log).Nodup
  member_joined : ∀ p i, members log p = some i → i ∈ joined log
  one_seat : ∀ p q i, members log p = some i → members log q = some i → p = q
  seat_free : ∀ before p i after, log = before ++ .join p i :: after → members before p = none
  accounted : ∀ p i, .join p i ∈ log → members log p = some i ∨ .leave p i ∈ log
  left_joined : ∀ p i, .leave p i ∈ log → i ∈ joined log
  left_absent : ∀ p i, .leave p i ∈ log → ∀ q, members log q ≠ some i
  farewell_left : ∀ q i, .farewell q i ∈ log → ∃ p, .leave p i ∈ log
  departure : ∀ before p i after, log = before ++ .leave p i :: after →
    (∀ q, log.count (.farewell q i) = if q ≠ p ∧ (members before q).isSome then 1 else 0) ∧
    ∀ q, .mention q i ∉ after

omit [DecidableEq P] [DecidableEq I] in
theorem mem_joined {log : List (Entry P I)} {p : P} {i : I} (h : .join p i ∈ log) :
    i ∈ joined log :=
  List.mem_filterMap.mpr ⟨_, h, rfl⟩

omit [DecidableEq P] [DecidableEq I] in
theorem join_unique {log : List (Entry P I)} (h : (joined log).Nodup) {p q : P} {i : I}
    (hp : .join p i ∈ log) (hq : .join q i ∈ log) : q = p := by
  obtain ⟨before, after, rfl⟩ := List.append_of_mem hp
  have hj : joined (before ++ .join p i :: after) = joined before ++ i :: joined after :=
    joined_append before _
  rw [hj, List.nodup_middle, List.nodup_cons, List.mem_append, not_or] at h
  simp only [List.mem_append, List.mem_cons, Entry.join.injEq, and_true] at hq
  obtain hq | rfl | hq := hq
  · exact absurd (mem_joined hq) h.1.1
  · rfl
  · exact absurd (mem_joined hq) h.1.2

omit [DecidableEq I] in
/-- Mentions and farewells move nobody. -/
theorem members_still (log es : List (Entry P I))
    (h : ∀ e ∈ es, (∃ q i, e = .mention q i) ∨ ∃ q i, e = .farewell q i) :
    members (log ++ es) = members log := by
  rw [members_append]
  induction es with
  | nil => rfl
  | cons e es ih =>
    have he : seat (members log) e = members log := by
      rcases h e List.mem_cons_self with ⟨q, i, rfl⟩ | ⟨q, i, rfl⟩ <;> rfl
    rw [List.foldl_cons, he]
    exact ih fun e hmem => h e (List.mem_cons_of_mem _ hmem)

omit [DecidableEq P] [DecidableEq I] in
theorem joined_still (log es : List (Entry P I)) (h : ∀ e ∈ es, ∀ p i, e ≠ .join p i) :
    joined (log ++ es) = joined log := by
  have hnil : joined es = [] := by
    refine List.filterMap_eq_nil_iff.mpr ?_
    intro e he
    cases e with
    | join p i => exact absurd rfl (h _ he p i)
    | leave => rfl
    | mention => rfl
    | farewell => rfl
  rw [joined_append, hnil, List.append_nil]

theorem orderly_nil : Orderly ([] : List (Entry P I)) where
  fresh := List.nodup_nil
  member_joined := by simp
  one_seat := by simp
  seat_free := by simp
  accounted := by simp
  left_joined := by simp
  left_absent := by simp
  farewell_left := by simp
  departure := by simp

namespace Orderly

/-- A seat taken in the old log was free then. -/
theorem seat_free_old {log es before after : List (Entry P I)} (h : Orderly log) {p : P} {i : I}
    (hold : .join p i ∉ es) (heq : log ++ es = before ++ .join p i :: after) :
    members before p = none := by
  obtain ⟨after', hlog, -⟩ := split_append hold heq
  exact h.seat_free before p i after' hlog

/-- A departure of the old log stays announced once, whatever follows without naming
the ones who left. -/
theorem departure_old {log es before after : List (Entry P I)} (h : Orderly log)
    (hes : ∀ p i, Entry.leave p i ∈ log → ∀ q, Entry.farewell q i ∉ es ∧ Entry.mention q i ∉ es)
    {p : P} {i : I} (hold : .leave p i ∉ es)
    (heq : log ++ es = before ++ .leave p i :: after) :
    (∀ q, (log ++ es).count (.farewell q i) =
      if q ≠ p ∧ (members before q).isSome then 1 else 0) ∧ ∀ q, .mention q i ∉ after := by
  obtain ⟨after', hlog, rfl⟩ := split_append hold heq
  obtain ⟨hcount, hquiet⟩ := h.departure before p i after' hlog
  have hnew := hes p i (by simp [hlog])
  constructor
  · intro q
    rw [List.count_append, List.count_eq_zero_of_not_mem (hnew q).1, Nat.add_zero]
    exact hcount q
  · intro q hmem
    rcases List.mem_append.mp hmem with hmem | hmem
    · exact hquiet q hmem
    · exact (hnew q).2 hmem

end Orderly

theorem orderly_quiet {log es : List (Entry P I)} (h : Orderly log)
    (hes : ∀ e ∈ es, ∃ q i p, e = .mention q i ∧ members log p = some i) : Orderly (log ++ es) := by
  have hm : members (log ++ es) = members log := members_still log es fun e he => by
    obtain ⟨q, i, p, rfl, -⟩ := hes e he
    exact .inl ⟨q, i, rfl⟩
  have hj : joined (log ++ es) = joined log := joined_still log es fun e he p i heq => by
    obtain ⟨q, i', p', rfl, -⟩ := hes e he
    cases heq
  have hnew : ∀ e, (∀ q i, e ≠ .mention q i) → e ∉ es := fun e hne hmem => by
    obtain ⟨q, i, p, rfl, -⟩ := hes e hmem
    exact hne q i rfl
  have hold : ∀ e, (∀ q i, e ≠ .mention q i) → e ∈ log ++ es → e ∈ log := fun e hne hmem =>
    (List.mem_append.mp hmem).resolve_right (hnew e hne)
  constructor
  · rw [hj]; exact h.fresh
  · rw [hm, hj]; exact h.member_joined
  · rw [hm]; exact h.one_seat
  · intro before p i after heq
    exact h.seat_free_old (hnew _ (by simp)) heq
  · intro p i hmem
    rw [hm]
    exact (h.accounted p i (hold _ (by simp) hmem)).imp_right (List.mem_append_left _)
  · intro p i hmem
    rw [hj]
    exact h.left_joined p i (hold _ (by simp) hmem)
  · intro p i hmem
    rw [hm]
    exact h.left_absent p i (hold _ (by simp) hmem)
  · intro q i hmem
    obtain ⟨p, hp⟩ := h.farewell_left q i (hold _ (by simp) hmem)
    exact ⟨p, List.mem_append_left _ hp⟩
  · intro before p i after heq
    refine h.departure_old (fun p i hleft q => ⟨hnew _ (by simp), fun hmem => ?_⟩)
      (hnew _ (by simp)) heq
    obtain ⟨q', i', p', heq', hp'⟩ := hes _ hmem
    cases heq'
    exact h.left_absent p i hleft p' hp'

omit [DecidableEq I] in
theorem members_join (log : List (Entry P I)) (p : P) (i : I) :
    members (log ++ [.join p i]) = Function.update (members log) p (some i) := by
  rw [members_append]
  rfl

omit [DecidableEq I] in
/-- Whoever sits somewhere has just joined there or was there before. -/
theorem members_join_cases {log : List (Entry P I)} {p q : P} {i k : I}
    (h : members (log ++ [.join p i]) q = some k) :
    q = p ∧ k = i ∨ q ≠ p ∧ members log q = some k := by
  rw [members_join, Function.update_apply] at h
  split at h
  · rename_i hqp
    exact .inl ⟨hqp, (Option.some.inj h).symm⟩
  · rename_i hqp
    exact .inr ⟨hqp, h⟩

theorem orderly_join {log : List (Entry P I)} (h : Orderly log) {p : P} {i : I}
    (hfree : members log p = none) (hfresh : i ∉ joined log) : Orderly (log ++ [.join p i]) := by
  have hj : joined (log ++ [.join p i]) = joined log ++ [i] := by
    rw [joined_append]; rfl
  have hold : ∀ e, e ≠ .join p i → e ∈ log ++ [.join p i] → e ∈ log := fun e hne hmem =>
    (List.mem_append.mp hmem).resolve_right (by simpa using hne)
  constructor
  · rw [hj, List.nodup_append]
    refine ⟨h.fresh, by simp, ?_⟩
    rintro a ha b hb rfl
    exact hfresh (List.mem_singleton.mp hb ▸ ha)
  · intro q k hq
    rw [hj, List.mem_append]
    obtain ⟨-, rfl⟩ | ⟨-, hq⟩ := members_join_cases hq
    · exact .inr List.mem_cons_self
    · exact .inl (h.member_joined q k hq)
  · intro q r k hq hr
    obtain ⟨rfl, rfl⟩ | ⟨-, hq'⟩ := members_join_cases hq
    · obtain ⟨rfl, -⟩ | ⟨-, hr'⟩ := members_join_cases hr
      · rfl
      · exact absurd (h.member_joined r k hr') hfresh
    · obtain ⟨-, rfl⟩ | ⟨-, hr'⟩ := members_join_cases hr
      · exact absurd (h.member_joined q k hq') hfresh
      · exact h.one_seat q r k hq' hr'
  · intro before q k after heq
    by_cases hmem : Entry.join q k ∈ [Entry.join p i]
    · obtain ⟨rfl, rfl⟩ : q = p ∧ k = i := by simpa using hmem
      obtain ⟨rfl, -⟩ := split_last (fun hlog => hfresh (mem_joined hlog)) heq
      exact hfree
    · exact h.seat_free_old hmem heq
  · intro q k hmem
    rw [members_join]
    by_cases hqk : Entry.join q k = .join p i
    · obtain ⟨rfl, rfl⟩ : q = p ∧ k = i := by simpa using hqk
      exact .inl (Function.update_self ..)
    · rcases h.accounted q k (hold _ hqk hmem) with hseat | hleft
      · have hqp : q ≠ p := by
          rintro rfl
          rw [hfree] at hseat
          cases hseat
        exact .inl (by rw [Function.update_of_ne hqp, hseat])
      · exact .inr (List.mem_append_left _ hleft)
  · intro q k hmem
    rw [hj]
    exact List.mem_append_left _ (h.left_joined q k (hold _ (by simp) hmem))
  · intro q k hmem r hr
    have hleft := hold _ (by simp) hmem
    obtain ⟨-, rfl⟩ | ⟨-, hr⟩ := members_join_cases hr
    · exact hfresh (h.left_joined q k hleft)
    · exact h.left_absent q k hleft r hr
  · intro q k hmem
    obtain ⟨r, hr⟩ := h.farewell_left q k (hold _ (by simp) hmem)
    exact ⟨r, List.mem_append_left _ hr⟩
  · intro before q k after heq
    exact h.departure_old (fun _ _ _ r => by simp) (by simp) heq

section Leave

/-! What one announced departure does to an orderly log. -/

variable {log es : List (Entry P I)} {p : P} {i : I}

omit [DecidableEq P] [DecidableEq I] in
/-- The entries of a departure are farewells to the one player and its leaving. -/
theorem mem_leave (hes : ∀ e ∈ es, ∃ q, e = .farewell q i) {e : Entry P I}
    (he : e ∈ es ++ [.leave p i]) : (∃ q, e = .farewell q i) ∨ e = .leave p i :=
  (List.mem_append.mp he).imp (hes e) List.mem_singleton.mp

omit [DecidableEq I] in
theorem members_farewells (hes : ∀ e ∈ es, ∃ q, e = .farewell q i) :
    members (log ++ es) = members log :=
  members_still log es fun e he => by
    obtain ⟨q, rfl⟩ := hes e he
    exact .inr ⟨q, i, rfl⟩

omit [DecidableEq I] in
theorem members_leave (hes : ∀ e ∈ es, ∃ q, e = .farewell q i) :
    members (log ++ (es ++ [.leave p i])) = Function.update (members log) p none := by
  rw [← List.append_assoc, members_append, members_farewells hes]
  rfl

omit [DecidableEq I] in
/-- Whoever sits somewhere afterwards sat there before. -/
theorem members_leave_eq_some (hes : ∀ e ∈ es, ∃ q, e = .farewell q i) {q : P} {k : I}
    (h : members (log ++ (es ++ [.leave p i])) q = some k) : q ≠ p ∧ members log q = some k := by
  rw [members_leave hes, Function.update_apply] at h
  split at h
  · cases h
  · rename_i hqp
    exact ⟨hqp, h⟩

omit [DecidableEq P] [DecidableEq I] in
theorem joined_leave (hes : ∀ e ∈ es, ∃ q, e = .farewell q i) :
    joined (log ++ (es ++ [.leave p i])) = joined log := by
  refine joined_still log _ fun e he q k heq => ?_
  rcases mem_leave hes he with ⟨q', rfl⟩ | rfl <;> cases heq

/-- The new departure is announced by its own farewells only. -/
theorem Orderly.departure_new (h : Orderly log) (hp : members log p = some i)
    (hes : ∀ e ∈ es, ∃ q, e = .farewell q i)
    (hcount : ∀ q, es.count (.farewell q i) = if q ≠ p ∧ (members log q).isSome then 1 else 0)
    {before after : List (Entry P I)}
    (heq : log ++ (es ++ [.leave p i]) = before ++ .leave p i :: after) :
    (∀ q, List.count (.farewell q i) (log ++ (es ++ [.leave p i])) =
      if q ≠ p ∧ (members before q).isSome then 1 else 0) ∧ ∀ q, .mention q i ∉ after := by
  have hnone : Entry.leave p i ∉ log ++ es := by
    intro hmem
    rcases List.mem_append.mp hmem with hmem | hmem
    · exact h.left_absent p i hmem p hp
    · obtain ⟨q, hq⟩ := hes _ hmem
      cases hq
  rw [← List.append_assoc] at heq
  obtain ⟨rfl, rfl⟩ := split_last hnone heq
  refine ⟨fun q => ?_, by simp⟩
  have hlog : log.count (.farewell q i) = 0 := by
    refine List.count_eq_zero_of_not_mem fun hq => ?_
    obtain ⟨r, hr⟩ := h.farewell_left q i hq
    exact h.left_absent r i hr p hp
  rw [List.count_append, List.count_append, hlog, hcount q, members_farewells hes]
  simp

theorem orderly_leave (h : Orderly log) (hp : members log p = some i)
    (hes : ∀ e ∈ es, ∃ q, e = .farewell q i)
    (hcount : ∀ q, es.count (.farewell q i) = if q ≠ p ∧ (members log q).isSome then 1 else 0) :
    Orderly (log ++ (es ++ [.leave p i])) := by
  have hnojoin : ∀ q k, Entry.join q k ∉ es ++ [.leave p i] := fun q k hmem => by
    rcases mem_leave hes hmem with ⟨_, heq⟩ | heq <;> cases heq
  have hleaves : ∀ q k, Entry.leave q k ∈ es ++ [.leave p i] → q = p ∧ k = i := fun q k hmem => by
    rcases mem_leave hes hmem with ⟨_, heq⟩ | heq <;> cases heq
    exact ⟨rfl, rfl⟩
  constructor
  · rw [joined_leave hes]; exact h.fresh
  · intro q k hq
    rw [joined_leave hes]
    exact h.member_joined q k (members_leave_eq_some hes hq).2
  · intro q r k hq hr
    exact h.one_seat q r k (members_leave_eq_some hes hq).2 (members_leave_eq_some hes hr).2
  · intro before q k after heq
    exact h.seat_free_old (hnojoin q k) heq
  · intro q k hmem
    have hlog : Entry.join q k ∈ log := (List.mem_append.mp hmem).resolve_right (hnojoin q k)
    rcases h.accounted q k hlog with hseat | hleft
    · by_cases hqp : q = p
      · subst hqp
        rw [hp] at hseat
        cases hseat
        exact .inr (by simp)
      · rw [members_leave hes, Function.update_of_ne hqp]
        exact .inl hseat
    · exact .inr (List.mem_append_left _ hleft)
  · intro q k hmem
    rw [joined_leave hes]
    rcases List.mem_append.mp hmem with hmem | hmem
    · exact h.left_joined q k hmem
    · obtain ⟨rfl, rfl⟩ := hleaves q k hmem
      exact h.member_joined q k hp
  · intro q k hmem r hr'
    obtain ⟨hrp, hr⟩ := members_leave_eq_some hes hr'
    rcases List.mem_append.mp hmem with hmem | hmem
    · exact h.left_absent q k hmem r hr
    · obtain ⟨rfl, rfl⟩ := hleaves q k hmem
      exact hrp (h.one_seat r q k hr hp)
  · intro q k hmem
    rcases List.mem_append.mp hmem with hmem | hmem
    · obtain ⟨r, hr⟩ := h.farewell_left q k hmem
      exact ⟨r, List.mem_append_left _ hr⟩
    · rcases mem_leave hes hmem with ⟨_, heq⟩ | heq <;> cases heq
      exact ⟨p, by simp⟩
  · intro before q k after heq
    by_cases hmem : Entry.leave q k ∈ es ++ [Entry.leave p i]
    · obtain ⟨rfl, rfl⟩ := hleaves q k hmem
      exact h.departure_new hp hes hcount heq
    · refine h.departure_old (fun r k hleft q => ⟨fun hnew => ?_, fun hnew => ?_⟩) hmem heq
      · rcases mem_leave hes hnew with ⟨_, heq⟩ | heq <;> cases heq
        exact h.left_absent r i hleft p hp
      · rcases mem_leave hes hnew with ⟨_, heq⟩ | heq <;> cases heq

end Leave

theorem Step.orderly {log es : List (Entry P I)} (h : Orderly log) (hs : Step log es) :
    Orderly (log ++ es) := by
  cases hs with
  | quiet _ hes => exact orderly_quiet h hes
  | join p i hfree hfresh => exact orderly_join h hfree hfresh
  | leave p i es hp hes hcount => exact orderly_leave h hp hes hcount

/-- Every run keeps its log orderly. -/
theorem Run.orderly {log : List (Entry P I)} (h : Run log) : Orderly log := by
  induction h with
  | nil => exact orderly_nil
  | snoc _ hs ih => exact hs.orderly ih

end Membership
