import Mathlib.Data.List.Chain
import Mathlib.Data.List.Nodup
import Mathlib.Logic.Function.Basic

/-!
# Rings of nodes

A node carries its own two pointers, and a list is a ring of nodes through a sentinel. What a
write does to a ring is settled by where the written node stands in it.
-/

namespace IntrusiveList

variable {ν : Type}

structure Heap (ν : Type) where
  next : ν → ν
  previous : ν → ν

def Heap.setNext [DecidableEq ν] (h : Heap ν) (a b : ν) : Heap ν :=
  { h with next := Function.update h.next a b }

def Heap.setPrevious [DecidableEq ν] (h : Heap ν) (a b : ν) : Heap ν :=
  { h with previous := Function.update h.previous a b }

/-- The two nodes point to each other. -/
def Link (h : Heap ν) (a b : ν) : Prop := h.next a = b ∧ h.previous b = a

abbrev Path (h : Heap ν) (l : List ν) : Prop := l.IsChain (Link h)

/-- The nodes `xs` in a ring with the sentinel `s`. -/
structure Linked (h : Heap ν) (s : ν) (xs : List ν) : Prop where
  path : Path h (s :: (xs ++ [s]))
  nodup : (s :: xs).Nodup

section

variable {h h' : Heap ν} {s t x : ν} {l xs ys zs : List ν}

/-- A path depends on the pointers along it alone. -/
theorem Path.congr (hp : Path h l) (hnext : ∀ a ∈ l.dropLast, h'.next a = h.next a)
    (hprevious : ∀ b ∈ l.tail, h'.previous b = h.previous b) : Path h' l := by
  induction l with
  | nil => exact .nil
  | cons a l ih =>
    cases l with
    | nil => exact .singleton a
    | cons b l =>
      obtain ⟨hlink, hrest⟩ := List.isChain_cons_cons.mp hp
      refine List.isChain_cons_cons.mpr ⟨⟨?_, ?_⟩, ih hrest ?_ ?_⟩
      · rw [hnext a (by simp)]
        exact hlink.1
      · rw [hprevious b (by simp)]
        exact hlink.2
      · intro c hc
        exact hnext c (by simp [hc])
      · intro c hc
        exact hprevious c (List.mem_cons_of_mem b hc)

theorem Linked.congr (hr : Linked h s xs)
    (hsame : ∀ a ∈ s :: xs, h'.next a = h.next a ∧ h'.previous a = h.previous a) :
    Linked h' s xs := by
  refine ⟨hr.path.congr (fun a ha => (hsame a ?_).1) fun b hb => (hsame b ?_).2, hr.nodup⟩
  · have hmem : a ∈ s :: xs := by
      rw [← List.cons_append, List.dropLast_concat] at ha
      exact ha
    exact hmem
  · have hmem : b ∈ s :: xs := by
      rw [List.tail_cons, List.mem_append, List.mem_singleton] at hb
      rw [List.mem_cons]
      exact hb.symm
    exact hmem

theorem getLast?_ring (s : ν) (xs : List ν) : (s :: xs).getLast? = some (xs.getLastD s) := by
  rw [List.getLast?_cons, List.getLastD_eq_getLast?]

theorem head?_ring (s : ν) (ys : List ν) : (ys ++ [s]).head? = some (ys.headD s) := by
  cases ys <;> rfl

/-- A ring with a place in it is two paths and the link between them. -/
theorem linked_append_iff : Linked h s (xs ++ ys) ↔ (s :: (xs ++ ys)).Nodup ∧ Path h (s :: xs) ∧
    Path h (ys ++ [s]) ∧ Link h (xs.getLastD s) (ys.headD s) := by
  have hsplit : s :: ((xs ++ ys) ++ [s]) = (s :: xs) ++ (ys ++ [s]) := by simp
  constructor
  · intro hr
    obtain ⟨hfront, hback, hlink⟩ := List.isChain_append.mp (hsplit ▸ hr.path)
    exact ⟨hr.nodup, hfront, hback, hlink _ (getLast?_ring s xs) _ (head?_ring s ys)⟩
  · rintro ⟨hnodup, hfront, hback, hlink⟩
    refine ⟨hsplit ▸ List.isChain_append.mpr ⟨hfront, hback, ?_⟩, hnodup⟩
    intro a ha b hb
    rw [getLast?_ring] at ha
    rw [head?_ring] at hb
    cases ha
    cases hb
    exact hlink

/-- The same with a segment of the ring in between. -/
theorem linked_segment_iff : Linked h s (xs ++ (x :: zs ++ ys)) ↔
    (s :: (xs ++ (x :: zs ++ ys))).Nodup ∧ Path h (s :: xs) ∧ Path h (x :: zs) ∧
      Path h (ys ++ [s]) ∧ Link h (xs.getLastD s) x ∧ Link h (zs.getLastD x) (ys.headD s) := by
  have hsegment : Path h (x :: zs ++ ys ++ [s]) ↔ Path h (x :: zs) ∧ Path h (ys ++ [s]) ∧
      Link h (zs.getLastD x) (ys.headD s) := by
    rw [List.append_assoc, Path, List.isChain_append, getLast?_ring, head?_ring]
    simp
  rw [linked_append_iff, hsegment]
  constructor
  · rintro ⟨hnodup, hfront, ⟨hmid, hback, hlast⟩, hfirst⟩
    exact ⟨hnodup, hfront, hmid, hback, hfirst, hlast⟩
  · rintro ⟨hnodup, hfront, hmid, hback, hfirst, hlast⟩
    exact ⟨hnodup, hfront, ⟨hmid, hback, hlast⟩, hfirst⟩

theorem linked_cons_iff : Linked h s (xs ++ x :: ys) ↔ (s :: (xs ++ x :: ys)).Nodup ∧
    Path h (s :: xs) ∧ Path h (ys ++ [s]) ∧ Link h (xs.getLastD s) x ∧ Link h x (ys.headD s) := by
  have hsegment : Linked h s (xs ++ ([x] ++ ys)) ↔ _ := linked_segment_iff
  simpa using hsegment

theorem getLastD_mem (s : ν) (xs : List ν) : xs.getLastD s ∈ s :: xs := by
  induction xs generalizing s with
  | nil => exact List.mem_singleton_self s
  | cons x xs ih =>
    rw [List.getLastD_cons]
    exact List.mem_cons_of_mem s (ih x)

theorem headD_mem (s : ν) (ys : List ν) : ys.headD s ∈ ys ++ [s] := by
  cases ys with
  | nil => exact List.mem_singleton_self s
  | cons y ys => exact List.mem_cons_self

theorem getLastD_segment (s x : ν) (xs zs : List ν) :
    (xs ++ x :: zs).getLastD s = zs.getLastD x := by
  rw [List.getLastD_eq_getLast?, List.getLast?_append, getLast?_ring]
  rfl

theorem ne_last (hnodup : (s :: xs).Nodup) {a : ν} (ha : a ∈ (s :: xs).dropLast) :
    a ≠ xs.getLastD s := by
  induction xs generalizing s with
  | nil => cases ha
  | cons x xs ih =>
    obtain ⟨hout, hrest⟩ := List.nodup_cons.mp hnodup
    rw [List.dropLast_cons_cons, List.mem_cons] at ha
    rw [List.getLastD_cons]
    obtain rfl | ha := ha
    · intro heq
      exact hout (heq ▸ getLastD_mem x xs)
    · exact ih hrest ha

theorem ne_first (hnodup : (s :: ys).Nodup) {b : ν} (hb : b ∈ (ys ++ [s]).tail) :
    b ≠ ys.headD s := by
  cases ys with
  | nil => cases hb
  | cons y ys =>
    obtain ⟨hout, hrest⟩ := List.nodup_cons.mp hnodup
    rintro rfl
    rw [List.cons_append, List.tail_cons, List.mem_append, List.mem_singleton] at hb
    obtain hb | hb := hb
    · exact (List.nodup_cons.mp hrest).1 hb
    · exact hout (hb ▸ List.mem_cons_self)

/-- The first path of a ring, where at most the last pointer forward was written. -/
theorem Linked.front (hr : Linked h s (xs ++ ys))
    (hnext : ∀ a ∈ s :: xs, a ≠ xs.getLastD s → h'.next a = h.next a)
    (hprevious : ∀ b ∈ xs, h'.previous b = h.previous b) : Path h' (s :: xs) := by
  obtain ⟨hnodup, hfront, -, -⟩ := linked_append_iff.mp hr
  have hxs : (s :: xs).Nodup := by
    rw [← List.cons_append] at hnodup
    exact (List.nodup_append.mp hnodup).1
  refine Path.congr hfront (fun a ha => ?_) hprevious
  exact hnext a (List.dropLast_subset _ ha) (ne_last hxs ha)

/-- The second path, where at most the first pointer back was written. -/
theorem Linked.back (hr : Linked h s (xs ++ ys)) (hnext : ∀ a ∈ ys, h'.next a = h.next a)
    (hprevious : ∀ b ∈ ys ++ [s], b ≠ ys.headD s → h'.previous b = h.previous b) :
    Path h' (ys ++ [s]) := by
  obtain ⟨hnodup, -, hback, -⟩ := linked_append_iff.mp hr
  have hys : (s :: ys).Nodup := by
    obtain ⟨hout, hrest⟩ := List.nodup_cons.mp hnodup
    refine List.nodup_cons.mpr ⟨fun hmem => hout (List.mem_append_right xs hmem), ?_⟩
    exact (List.nodup_append.mp hrest).2.1
  refine Path.congr hback (fun a ha => hnext a ?_) fun b hb =>
    hprevious b (List.mem_of_mem_tail hb) (ne_first hys hb)
  rw [List.dropLast_concat] at ha
  exact ha

theorem Linked.link (hr : Linked h s (xs ++ ys)) : Link h (xs.getLastD s) (ys.headD s) :=
  (linked_append_iff.mp hr).2.2.2

theorem Linked.next_sentinel (hr : Linked h s xs) : h.next s = xs.headD s := by
  have hring : Linked h s ([] ++ xs) := hr
  exact hring.link.1

theorem front_subset (s : ν) (xs ys : List ν) : s :: xs ⊆ s :: (xs ++ ys) :=
  List.cons_subset_cons s (List.subset_append_left xs ys)

theorem back_subset (s : ν) (xs ys : List ν) : ys ++ [s] ⊆ s :: (xs ++ ys) := by
  intro c hc
  obtain hin | hend := List.mem_append.mp hc
  · exact List.mem_cons_of_mem s (List.mem_append_right xs hin)
  · exact List.mem_singleton.mp hend ▸ List.mem_cons_self

theorem mem_of_without (x : ν) {c : ν} (hc : c ∈ xs ++ ys) : c ∈ xs ++ x :: ys :=
  List.perm_middle.mem_iff.mpr (List.mem_cons_of_mem x hc)

theorem Linked.last_notin (hr : Linked h s (xs ++ ys)) : xs.getLastD s ∉ ys := by
  intro hmem
  have hnodup := hr.nodup
  rw [← List.cons_append] at hnodup
  exact (List.nodup_append.mp hnodup).2.2 _ (getLastD_mem s xs) _ hmem rfl

theorem Linked.first_notin (hr : Linked h s (xs ++ ys)) : ys.headD s ∉ xs := by
  intro hmem
  obtain ⟨hout, hrest⟩ := List.nodup_cons.mp hr.nodup
  obtain hin | hend := List.mem_append.mp (headD_mem s ys)
  · exact (List.nodup_append.mp hrest).2.2 _ hmem _ hin rfl
  · rw [List.mem_singleton.mp hend] at hmem
    exact hout (List.mem_append_left ys hmem)

end

end IntrusiveList
