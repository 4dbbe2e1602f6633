import Mathlib.Order.Basic
import Mathlib.Order.Lattice
import Mathlib.Data.List.Basic
import Mathlib.Data.List.Nodup
import Mathlib.Data.List.Forall2
import Mathlib.Data.Option.Basic

/-!
# Ordered maps

The standard ordered associative container: a map is the list of its entries,
strictly sorted by key, and carries the proof of that order. Iteration visits
the entries in key order, and two maps with the same lookups are equal.
-/

universe u v w

/-- A map from ordered keys, held as its strictly sorted list of entries. -/
structure OrderedMap (κ : Type u) (α : Type v) [LinearOrder κ] where
  entries : List (κ × α)
  sorted : entries.Pairwise (fun a b => a.1 < b.1)

namespace OrderedMap

variable {κ : Type u} {α : Type v} {σ : Type w} [LinearOrder κ]

def empty : OrderedMap κ α := ⟨[], List.Pairwise.nil⟩

instance : EmptyCollection (OrderedMap κ α) := ⟨empty⟩
instance : Inhabited (OrderedMap κ α) := ⟨empty⟩
instance [DecidableEq α] : DecidableEq (OrderedMap κ α) := fun a b =>
  decidable_of_iff (a.entries = b.entries) (by cases a; cases b; simp)

/-- The value stored under a key. -/
def find? (m : OrderedMap κ α) (k : κ) : Option α :=
  (m.entries.find? (fun e => e.1 = k)).map Prod.snd

def keys (m : OrderedMap κ α) : List κ := m.entries.map Prod.fst

def size (m : OrderedMap κ α) : Nat := m.entries.length

/-- Place one entry in a sorted list, over an old entry of the same key. -/
def insertEntry (k : κ) (v : α) : List (κ × α) → List (κ × α)
  | [] => [(k, v)]
  | e :: rest =>
    if k < e.1 then (k, v) :: e :: rest
    else if e.1 < k then e :: insertEntry k v rest
    else (k, v) :: rest

theorem mem_insertEntry (k : κ) (v : α) (l : List (κ × α))
    (h : l.Pairwise (fun a b => a.1 < b.1)) (e : κ × α) :
    e ∈ insertEntry k v l ↔ e = (k, v) ∨ (e.1 ≠ k ∧ e ∈ l) := by
  induction l with
  | nil => simp [insertEntry]
  | cons x rest ih =>
    obtain ⟨hx, hrest⟩ := List.pairwise_cons.mp h
    have habove : k ≤ x.1 → ∀ y ∈ rest, y.1 ≠ k := by
      intro hk y hy he
      exact absurd (hx y hy) (not_lt.mpr (he ▸ hk))
    simp only [insertEntry]
    split
    · rename_i hlt
      have hne : ∀ y ∈ x :: rest, y.1 ≠ k := by
        intro y hy
        rcases List.mem_cons.mp hy with rfl | hy
        · exact ne_of_gt hlt
        · exact habove hlt.le y hy
      simp only [List.mem_cons]
      constructor
      · rintro (rfl | hy)
        · exact .inl rfl
        · exact .inr ⟨hne e (List.mem_cons.mpr hy), hy⟩
      · rintro (rfl | ⟨-, hy⟩)
        · exact .inl rfl
        · exact .inr hy
    · split
      · rename_i hgt
        simp only [List.mem_cons, ih hrest]
        constructor
        · rintro (rfl | rfl | ⟨hne, hy⟩)
          · exact .inr ⟨ne_of_lt hgt, .inl rfl⟩
          · exact .inl rfl
          · exact .inr ⟨hne, .inr hy⟩
        · rintro (rfl | ⟨hne, rfl | hy⟩)
          · exact .inr (.inl rfl)
          · exact .inl rfl
          · exact .inr (.inr ⟨hne, hy⟩)
      · rename_i hnlt hngt
        have heq : x.1 = k := le_antisymm (not_lt.mp hnlt) (not_lt.mp hngt)
        simp only [List.mem_cons]
        constructor
        · rintro (rfl | hy)
          · exact .inl rfl
          · exact .inr ⟨habove (le_of_eq heq.symm) e hy, .inr hy⟩
        · rintro (rfl | ⟨hne, rfl | hy⟩)
          · exact .inl rfl
          · exact absurd heq hne
          · exact .inr hy

theorem insertEntry_sorted (k : κ) (v : α) (l : List (κ × α))
    (h : l.Pairwise (fun a b => a.1 < b.1)) :
    (insertEntry k v l).Pairwise (fun a b => a.1 < b.1) := by
  induction l with
  | nil => simp [insertEntry]
  | cons x rest ih =>
    obtain ⟨hx, hrest⟩ := List.pairwise_cons.mp h
    simp only [insertEntry]
    split
    · rename_i hlt
      refine List.pairwise_cons.mpr ⟨?_, h⟩
      intro y hy
      rcases List.mem_cons.mp hy with rfl | hy
      · exact hlt
      · exact lt_trans hlt (hx y hy)
    · split
      · rename_i hgt
        refine List.pairwise_cons.mpr ⟨?_, ih hrest⟩
        intro y hy
        rcases (mem_insertEntry k v rest hrest y).mp hy with rfl | ⟨-, hy⟩
        · exact hgt
        · exact hx y hy
      · rename_i hnlt hngt
        have heq : x.1 = k := le_antisymm (not_lt.mp hnlt) (not_lt.mp hngt)
        exact List.pairwise_cons.mpr ⟨fun y hy => heq ▸ hx y hy, hrest⟩

/-- Assignment through the index operator: insert, or overwrite. -/
def insert (m : OrderedMap κ α) (k : κ) (v : α) : OrderedMap κ α :=
  ⟨insertEntry k v m.entries, insertEntry_sorted k v m.entries m.sorted⟩

def erase (m : OrderedMap κ α) (k : κ) : OrderedMap κ α :=
  ⟨m.entries.filter (fun e => e.1 ≠ k), m.sorted.filter _⟩

/-- Write through a reference to the value stored under `k`. -/
def modify (m : OrderedMap κ α) (k : κ) (f : α → α) : OrderedMap κ α :=
  ⟨m.entries.map (fun e => if e.1 = k then (e.1, f e.2) else e), by
    refine List.pairwise_map.mpr (m.sorted.imp ?_)
    intro a b hab
    split <;> split <;> exact hab⟩

theorem keys_sorted (m : OrderedMap κ α) : m.keys.Pairwise (· < ·) :=
  List.pairwise_map.mpr m.sorted

theorem keys_nodup (m : OrderedMap κ α) : m.keys.Nodup :=
  m.keys_sorted.imp fun h => ne_of_lt h

/-- At most one entry carries a given key. -/
theorem entries_unique (m : OrderedMap κ α) {k : κ} {v v' : α}
    (h : (k, v) ∈ m.entries) (h' : (k, v') ∈ m.entries) : v = v' :=
  congrArg Prod.snd (List.inj_on_of_nodup_map m.keys_nodup h h' rfl)

theorem find?_eq_some (m : OrderedMap κ α) (k : κ) (v : α) :
    m.find? k = some v ↔ (k, v) ∈ m.entries := by
  simp only [find?, Option.map_eq_some_iff]
  constructor
  · rintro ⟨⟨k', v'⟩, hf, rfl⟩
    have hk : k' = k := by simpa using List.find?_some hf
    exact hk ▸ List.mem_of_find?_eq_some hf
  · intro h
    cases hf : m.entries.find? (fun e => e.1 = k) with
    | none =>
      have hno := List.find?_eq_none.mp hf (k, v) h
      simp at hno
    | some e =>
      obtain ⟨k', v'⟩ := e
      have hk : k' = k := by simpa using List.find?_some hf
      subst hk
      exact ⟨_, rfl, m.entries_unique (List.mem_of_find?_eq_some hf) h⟩

theorem find?_eq_none (m : OrderedMap κ α) (k : κ) :
    m.find? k = none ↔ ∀ v, (k, v) ∉ m.entries := by
  simp [Option.eq_none_iff_forall_ne_some, find?_eq_some]

@[simp] theorem find?_empty (k : κ) : (∅ : OrderedMap κ α).find? k = none := rfl

theorem find?_insert (m : OrderedMap κ α) (k k' : κ) (v : α) :
    (m.insert k v).find? k' = if k' = k then some v else m.find? k' := by
  apply Option.ext
  intro v'
  rw [find?_eq_some]
  simp only [insert, mem_insertEntry k v m.entries m.sorted, Prod.mk.injEq]
  by_cases hk : k' = k
  · simp [hk, eq_comm]
  · simp [hk, find?_eq_some]

theorem find?_erase (m : OrderedMap κ α) (k k' : κ) :
    (m.erase k).find? k' = if k' = k then none else m.find? k' := by
  apply Option.ext
  intro v'
  rw [find?_eq_some]
  by_cases hk : k' = k <;> simp [erase, hk, find?_eq_some]

theorem find?_modify (m : OrderedMap κ α) (k k' : κ) (f : α → α) :
    (m.modify k f).find? k' = if k' = k then (m.find? k').map f else m.find? k' := by
  apply Option.ext
  intro v'
  rw [find?_eq_some]
  simp only [modify, List.mem_map, Prod.exists]
  by_cases hk : k' = k
  · subst hk
    simp only [↓reduceIte, Option.map_eq_some_iff, find?_eq_some]
    constructor
    · rintro ⟨a, b, hab, he⟩
      split at he
      · rename_i ha
        cases he
        exact ⟨b, ha ▸ hab, rfl⟩
      · rename_i ha
        exact absurd (congrArg Prod.fst he) ha
    · rintro ⟨b, hb, rfl⟩
      exact ⟨k', b, hb, by simp⟩
  · simp only [hk, ↓reduceIte, find?_eq_some]
    constructor
    · rintro ⟨a, b, hab, he⟩
      split at he
      · rename_i ha
        exact absurd ((congrArg Prod.fst he).symm.trans ha) hk
      · exact he ▸ hab
    · intro h
      exact ⟨k', v', h, by simp [hk]⟩

@[simp] theorem find?_insert_self (m : OrderedMap κ α) (k : κ) (v : α) :
    (m.insert k v).find? k = some v := by simp [find?_insert]

@[simp] theorem find?_erase_self (m : OrderedMap κ α) (k : κ) :
    (m.erase k).find? k = none := by simp [find?_erase]

theorem mem_keys (m : OrderedMap κ α) (k : κ) : k ∈ m.keys ↔ (m.find? k).isSome := by
  simp only [keys, List.mem_map, Prod.exists, exists_and_right, exists_eq_right,
    Option.isSome_iff_exists, find?_eq_some]

theorem mem_keys_insert (m : OrderedMap κ α) (k k' : κ) (v : α) :
    k' ∈ (m.insert k v).keys ↔ k' = k ∨ k' ∈ m.keys := by
  rw [mem_keys, mem_keys, find?_insert]
  by_cases hk : k' = k <;> simp [hk]

theorem mem_keys_modify (m : OrderedMap κ α) (k k' : κ) (f : α → α) :
    k' ∈ (m.modify k f).keys ↔ k' ∈ m.keys := by
  rw [mem_keys, mem_keys, find?_modify]
  by_cases hk : k' = k <;> simp [hk]

theorem mem_keys_erase (m : OrderedMap κ α) (k k' : κ) :
    k' ∈ (m.erase k).keys ↔ k' ≠ k ∧ k' ∈ m.keys := by
  rw [mem_keys, mem_keys, find?_erase]
  by_cases hk : k' = k <;> simp [hk]

theorem keys_erase (m : OrderedMap κ α) (k : κ) :
    (m.erase k).keys = m.keys.filter (fun x => x ≠ k) := by
  simp only [keys, erase, List.filter_map, Function.comp_def]

/-- Erasing the entry at a position of the iteration closes the gap there. -/
theorem entries_erase {m : OrderedMap κ α} {l r : List (κ × α)} {e : κ × α}
    (h : m.entries = l ++ e :: r) : (m.erase e.1).entries = l ++ r := by
  have hsorted := m.sorted
  rw [h] at hsorted
  obtain ⟨-, htail, hbefore⟩ := List.pairwise_append.mp hsorted
  have hl : ∀ x ∈ l, decide (x.1 ≠ e.1) = true := fun x hx =>
    decide_eq_true (hbefore x hx e List.mem_cons_self).ne
  have hr : ∀ x ∈ r, decide (x.1 ≠ e.1) = true := fun x hx =>
    decide_eq_true ((List.pairwise_cons.mp htail).1 x hx).ne'
  change m.entries.filter _ = l ++ r
  rw [h, List.filter_append, List.filter_cons_of_neg (by simp),
    List.filter_eq_self.mpr hl, List.filter_eq_self.mpr hr]

/-- There is no reference to write through for an absent key. -/
theorem modify_absent (m : OrderedMap κ α) (k : κ) (f : α → α) (h : m.find? k = none) :
    m.modify k f = m := by
  have hentries : (m.modify k f).entries = m.entries := by
    have hid : ∀ e ∈ m.entries, (if e.1 = k then (e.1, f e.2) else e) = e := by
      intro e he
      rw [if_neg]
      rintro rfl
      exact (m.find?_eq_none e.1).mp h e.2 he
    simp only [modify]
    rw [List.map_congr_left hid, List.map_id']
  cases m
  simpa [modify] using hentries

/-- The loop over all entries that may write each value and threads a state. -/
def sweepEntries (f : σ → κ → α → σ × α) : σ → List (κ × α) → σ × List (κ × α)
  | s, [] => (s, [])
  | s, (k, v) :: rest =>
    let (s', v') := f s k v
    let (s'', rest') := sweepEntries f s' rest
    (s'', (k, v') :: rest')

omit [LinearOrder κ] in
theorem sweepEntries_keys (f : σ → κ → α → σ × α) (s : σ) (l : List (κ × α)) :
    (sweepEntries f s l).2.map Prod.fst = l.map Prod.fst := by
  induction l generalizing s with
  | nil => rfl
  | cons e rest ih => simp [sweepEntries, ih]

def sweep (f : σ → κ → α → σ × α) (s : σ) (m : OrderedMap κ α) : σ × OrderedMap κ α :=
  ((sweepEntries f s m.entries).1, ⟨(sweepEntries f s m.entries).2, by
    have h := m.keys_sorted
    rw [keys, ← sweepEntries_keys f s m.entries] at h
    exact List.pairwise_map.mp h⟩)

omit [LinearOrder κ] in
theorem sweepEntries_rule {P : σ → Prop} {R : κ → α → α → Prop} (f : σ → κ → α → σ × α)
    (l : List (κ × α)) {s : σ} (h : P s)
    (hstep : ∀ s k v, (k, v) ∈ l → P s → P (f s k v).1 ∧ R k v (f s k v).2) :
    P (sweepEntries f s l).1 ∧
      List.Forall₂ (fun e e' => e.1 = e'.1 ∧ R e.1 e.2 e'.2) l (sweepEntries f s l).2 := by
  induction l generalizing s with
  | nil => exact ⟨h, .nil⟩
  | cons e rest ih =>
    obtain ⟨hs, hr⟩ := hstep s e.1 e.2 List.mem_cons_self h
    obtain ⟨hP, hR⟩ := ih hs fun s k v hmem => hstep s k v (List.mem_cons_of_mem _ hmem)
    exact ⟨hP, .cons ⟨rfl, hr⟩ hR⟩

theorem find?_forall₂ {R : κ → α → α → Prop} {l l' : List (κ × α)}
    (h : List.Forall₂ (fun e e' => e.1 = e'.1 ∧ R e.1 e.2 e'.2) l l') (k : κ) :
    Option.Rel (R k) ((l.find? fun e => e.1 = k).map Prod.snd)
      ((l'.find? fun e => e.1 = k).map Prod.snd) := by
  induction h with
  | nil => exact .none
  | @cons e e' l l' hee _ ih =>
    obtain ⟨hkey, hrel⟩ := hee
    by_cases hk : e.1 = k
    · have hk' : e'.1 = k := hkey ▸ hk
      simp only [List.find?_cons, hk, hk', decide_true, Option.map_some]
      exact .some (hk ▸ hrel)
    · have hk' : ¬ e'.1 = k := hkey ▸ hk
      simpa only [List.find?_cons, hk, hk', decide_false] using ih

/-- What every pass of the loop keeps, and what it does to the value it visits. -/
theorem sweep_rule {P : σ → Prop} {R : κ → α → α → Prop} (f : σ → κ → α → σ × α)
    (m : OrderedMap κ α) {s : σ} (h : P s)
    (hstep : ∀ s k v, m.find? k = some v → P s → P (f s k v).1 ∧ R k v (f s k v).2) :
    P (sweep f s m).1 ∧ ∀ k, Option.Rel (R k) (m.find? k) ((sweep f s m).2.find? k) := by
  obtain ⟨hP, hR⟩ := sweepEntries_rule f m.entries h fun s k v hmem =>
    hstep s k v ((m.find?_eq_some k v).mpr hmem)
  exact ⟨hP, find?_forall₂ hR⟩

omit [LinearOrder κ] in
theorem sweepEntries_between {le : σ → σ → Prop} (hrefl : ∀ s, le s s)
    (htrans : ∀ a b c, le a b → le b c → le a c) (f : σ → κ → α → σ × α)
    (hstep : ∀ s k v, le s (f s k v).1) (l : List (κ × α)) (s : σ) :
    le s (sweepEntries f s l).1 ∧ List.Forall₂ (fun e e' => e.1 = e'.1 ∧
      ∃ mid, le s mid ∧ le mid (sweepEntries f s l).1 ∧ e'.2 = (f mid e.1 e.2).2) l
        (sweepEntries f s l).2 := by
  induction l generalizing s with
  | nil => exact ⟨hrefl s, .nil⟩
  | cons e rest ih =>
    obtain ⟨hend, hrest⟩ := ih (f s e.1 e.2).1
    have hfirst := hstep s e.1 e.2
    have hall := htrans _ _ _ hfirst hend
    refine ⟨hall, .cons ⟨rfl, s, hrefl s, hall, rfl⟩ (hrest.imp fun e e' hee => ?_)⟩
    obtain ⟨hkey, mid, hlow, hhigh, hval⟩ := hee
    exact ⟨hkey, mid, htrans _ _ _ hfirst hlow, hhigh, hval⟩

/-- Where every pass moves the state up, each value is visited at a state on the way. -/
theorem sweep_between {le : σ → σ → Prop} (hrefl : ∀ s, le s s)
    (htrans : ∀ a b c, le a b → le b c → le a c) (f : σ → κ → α → σ × α)
    (hstep : ∀ s k v, le s (f s k v).1) (m : OrderedMap κ α) (s : σ) :
    le s (sweep f s m).1 ∧ ∀ k, Option.Rel
      (fun v v' => ∃ mid, le s mid ∧ le mid (sweep f s m).1 ∧ v' = (f mid k v).2)
      (m.find? k) ((sweep f s m).2.find? k) := by
  obtain ⟨hend, hall⟩ := sweepEntries_between hrefl htrans f hstep m.entries s
  exact ⟨hend, find?_forall₂ (R := fun k v v' => ∃ mid, le s mid ∧
    le mid (sweepEntries f s m.entries).1 ∧ v' = (f mid k v).2) hall⟩

end OrderedMap
