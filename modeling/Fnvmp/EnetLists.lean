import Fnvmp.IntrusiveList

/-!
# The lists of ENet

Each function writes the pointers that it writes in the source. What it does to the ring it is
called on, and that it leaves the others alone, are the rules for the code above it.
-/

namespace Fnvmp.Enet

open IntrusiveList

variable {ν : Type} [DecidableEq ν]

def listClear (h : Heap ν) (list : ν) : Heap ν := (h.setNext list list).setPrevious list list

def listInsert (h : Heap ν) (position result : ν) : Heap ν :=
  let h := h.setPrevious result (h.previous position)
  let h := h.setNext result position
  let h := h.setNext (h.previous result) result
  h.setPrevious position result

def listRemove (h : Heap ν) (position : ν) : Heap ν :=
  let h := h.setNext (h.previous position) (h.next position)
  h.setPrevious (h.next position) (h.previous position)

def listMove (h : Heap ν) (position first last : ν) : Heap ν :=
  let h := h.setNext (h.previous first) (h.next last)
  let h := h.setPrevious (h.next last) (h.previous first)
  let h := h.setPrevious first (h.previous position)
  let h := h.setNext last position
  let h := h.setNext (h.previous first) first
  h.setPrevious position last

theorem listInsert_next (h : Heap ν) (position x : ν) : (listInsert h position x).next =
    Function.update (Function.update h.next x position) (h.previous position) x := by
  simp [listInsert, Heap.setNext, Heap.setPrevious]

theorem listInsert_previous (h : Heap ν) (position x : ν) : (listInsert h position x).previous =
    Function.update (Function.update h.previous x (h.previous position)) position x := by
  simp [listInsert, Heap.setNext, Heap.setPrevious]

theorem listRemove_next (h : Heap ν) (x : ν) :
    (listRemove h x).next = Function.update h.next (h.previous x) (h.next x) := rfl

theorem listRemove_previous (h : Heap ν) {x : ν} (hx : x ≠ h.previous x) :
    (listRemove h x).previous = Function.update h.previous (h.next x) (h.previous x) := by
  simp [listRemove, Heap.setNext, Heap.setPrevious, hx]

theorem listMove_next (h : Heap ν) {position first last : ν} (hlast : last ≠ h.previous first)
    (hposition : position ≠ h.next last) : (listMove h position first last).next =
      Function.update (Function.update (Function.update h.next (h.previous first) (h.next last))
        last position) (h.previous position) first := by
  simp [listMove, Heap.setNext, Heap.setPrevious, hlast, hposition]

theorem listMove_previous (h : Heap ν) {position first last : ν} (hlast : last ≠ h.previous first)
    (hposition : position ≠ h.next last) : (listMove h position first last).previous =
      Function.update (Function.update (Function.update h.previous (h.next last)
        (h.previous first)) first (h.previous position)) position last := by
  simp [listMove, Heap.setNext, Heap.setPrevious, hlast, hposition]

variable {h : Heap ν} {s t x : ν} {xs ys zs : List ν}

theorem listClear_ring (h : Heap ν) (s : ν) : Linked (listClear h s) s [] := by
  refine ⟨?_, List.nodup_singleton s⟩
  simp [listClear, IntrusiveList.Path, IntrusiveList.Link, Heap.setNext, Heap.setPrevious]

theorem listClear_other (hother : Linked h t zs) (hs : s ∉ t :: zs) :
    Linked (listClear h s) t zs := by
  refine hother.congr fun c hc => ?_
  have hne : c ≠ s := fun heq => hs (heq ▸ hc)
  exact ⟨Function.update_of_ne hne _ _, Function.update_of_ne hne _ _⟩

/-- Insertion in front of a place of the ring. -/
theorem listInsert_ring (hr : Linked h s (xs ++ ys)) (hx : x ∉ s :: (xs ++ ys)) :
    Linked (listInsert h (ys.headD s) x) s (xs ++ x :: ys) := by
  have hprevious : h.previous (ys.headD s) = xs.getLastD s := hr.link.2
  have hnext' := listInsert_next h (ys.headD s) x
  have hprevious' := listInsert_previous h (ys.headD s) x
  rw [hprevious] at hnext' hprevious'
  have hout : ∀ c ∈ s :: (xs ++ ys), c ≠ x := fun c hc heq => hx (heq ▸ hc)
  have hlast : xs.getLastD s ≠ x := hout _ (front_subset s xs ys (getLastD_mem s xs))
  have hfirst : ys.headD s ≠ x := hout _ (back_subset s xs ys (headD_mem s ys))
  refine linked_cons_iff.mpr ⟨?_, hr.front ?_ ?_, hr.back ?_ ?_, ⟨?_, ?_⟩, ?_, ?_⟩
  · rw [← List.cons_append, List.nodup_middle]
    exact List.nodup_cons.mpr ⟨hx, hr.nodup⟩
  · intro c hc hne
    rw [hnext', Function.update_of_ne hne,
      Function.update_of_ne (hout c (front_subset s xs ys hc))]
  · intro c hc
    have hne : c ≠ ys.headD s := fun heq => hr.first_notin (heq ▸ hc)
    rw [hprevious', Function.update_of_ne hne, Function.update_of_ne (hout c (by simp [hc]))]
  · intro c hc
    have hne : c ≠ xs.getLastD s := fun heq => hr.last_notin (heq ▸ hc)
    rw [hnext', Function.update_of_ne hne, Function.update_of_ne (hout c (by simp [hc]))]
  · intro c hc hne
    rw [hprevious', Function.update_of_ne hne,
      Function.update_of_ne (hout c (back_subset s xs ys hc))]
  · rw [hnext', Function.update_self]
  · rw [hprevious', Function.update_of_ne hfirst.symm, Function.update_self]
  · rw [hnext', Function.update_of_ne hlast.symm, Function.update_self]
  · rw [hprevious', Function.update_self]

theorem listRemove_writes (hr : Linked h s (xs ++ x :: ys)) :
    (listRemove h x).next = Function.update h.next (xs.getLastD s) (ys.headD s) ∧
      (listRemove h x).previous = Function.update h.previous (ys.headD s) (xs.getLastD s) := by
  obtain ⟨-, -, -, hbefore, hbehind⟩ := linked_cons_iff.mp hr
  have hne : x ≠ h.previous x := by
    rw [hbefore.2]
    intro heq
    exact hr.last_notin (heq ▸ List.mem_cons_self)
  rw [listRemove_next, listRemove_previous h hne, hbefore.2, hbehind.1]
  exact ⟨rfl, rfl⟩

/-- Removal of a node of the ring. -/
theorem listRemove_ring (hr : Linked h s (xs ++ x :: ys)) :
    Linked (listRemove h x) s (xs ++ ys) := by
  have hr' : Linked h s ((xs ++ [x]) ++ ys) := by
    rw [List.append_assoc]
    exact hr
  have hlast : xs.getLastD s ∉ x :: ys := hr.last_notin
  have hfirst : ys.headD s ∉ xs ++ [x] := hr'.first_notin
  obtain ⟨hnext', hprevious'⟩ := listRemove_writes hr
  refine linked_append_iff.mpr ⟨?_, hr.front ?_ ?_, hr'.back ?_ ?_, ?_, ?_⟩
  · have hnodup := hr.nodup
    rw [← List.cons_append, List.nodup_middle] at hnodup
    exact (List.nodup_cons.mp hnodup).2
  · intro c _ hne
    rw [hnext', Function.update_of_ne hne]
  · intro c hc
    have hne : c ≠ ys.headD s := fun heq => hfirst (List.mem_append_left [x] (heq ▸ hc))
    rw [hprevious', Function.update_of_ne hne]
  · intro c hc
    have hne : c ≠ xs.getLastD s := fun heq => hlast (List.mem_cons_of_mem x (heq ▸ hc))
    rw [hnext', Function.update_of_ne hne]
  · intro c _ hne
    rw [hprevious', Function.update_of_ne hne]
  · rw [hnext', Function.update_self]
  · rw [hprevious', Function.update_self]

/-- The other rings are not touched. -/
theorem listInsert_other (hr : Linked h s (xs ++ ys)) (hother : Linked h t zs)
    (hapart : (s :: (xs ++ ys)).Disjoint (t :: zs)) (hx : x ∉ t :: zs) :
    Linked (listInsert h (ys.headD s) x) t zs := by
  refine hother.congr fun c hc => ?_
  have hlast : c ≠ xs.getLastD s := fun heq =>
    hapart (front_subset s xs ys (getLastD_mem s xs)) (heq ▸ hc)
  have hfirst : c ≠ ys.headD s := fun heq =>
    hapart (back_subset s xs ys (headD_mem s ys)) (heq ▸ hc)
  have hne : c ≠ x := fun heq => hx (heq ▸ hc)
  rw [listInsert_next, listInsert_previous, hr.link.2, Function.update_of_ne hlast,
    Function.update_of_ne hne, Function.update_of_ne hfirst, Function.update_of_ne hne]
  exact ⟨rfl, rfl⟩

theorem listRemove_other (hr : Linked h s (xs ++ x :: ys)) (hother : Linked h t zs)
    (hapart : (s :: (xs ++ x :: ys)).Disjoint (t :: zs)) : Linked (listRemove h x) t zs := by
  refine hother.congr fun c hc => ?_
  have hlast : c ≠ xs.getLastD s := fun heq =>
    hapart (front_subset s xs (x :: ys) (getLastD_mem s xs)) (heq ▸ hc)
  have hfirst : c ≠ ys.headD s := fun heq => by
    have hmem := back_subset s (xs ++ [x]) ys (headD_mem s ys)
    rw [List.append_assoc] at hmem
    exact hapart hmem (heq ▸ hc)
  obtain ⟨hnext', hprevious'⟩ := listRemove_writes hr
  rw [hnext', hprevious', Function.update_of_ne hlast, Function.update_of_ne hfirst]
  exact ⟨rfl, rfl⟩

/-- A node leaves one ring and is inserted in another. -/
theorem relocate_ring {us vs : List ν} (hr : Linked h s (us ++ x :: vs))
    (ht : Linked h t (xs ++ ys)) (hapart : (s :: (us ++ x :: vs)).Disjoint (t :: (xs ++ ys))) :
    Linked (listInsert (listRemove h x) (ys.headD t) x) s (us ++ vs) ∧
      Linked (listInsert (listRemove h x) (ys.headD t) x) t (xs ++ x :: ys) ∧
      (s :: (us ++ vs)).Disjoint (t :: (xs ++ x :: ys)) := by
  have hperm : (s :: (us ++ x :: vs)).Perm (x :: (s :: (us ++ vs))) :=
    @List.perm_middle ν x (s :: us) vs
  have hout : x ∉ s :: (us ++ vs) := (List.nodup_cons.mp (hperm.nodup_iff.mp hr.nodup)).1
  have hin : x ∉ t :: (xs ++ ys) := fun hx => hapart (hperm.mem_iff.mpr List.mem_cons_self) hx
  have hrest : (s :: (us ++ vs)).Disjoint (t :: (xs ++ ys)) := fun c hc hc' =>
    hapart (hperm.mem_iff.mpr (List.mem_cons_of_mem x hc)) hc'
  have hleft := listRemove_ring hr
  have hother := listRemove_other hr ht hapart
  refine ⟨listInsert_other hother hleft (fun c hc hc' => hrest hc' hc) hout,
    listInsert_ring hother hin, fun c hc hc' => ?_⟩
  have hperm' : (t :: (xs ++ x :: ys)).Perm (x :: (t :: (xs ++ ys))) :=
    @List.perm_middle ν x (t :: xs) ys
  obtain heq | hmem := List.mem_cons.mp (hperm'.mem_iff.mp hc')
  · exact hout (heq ▸ hc)
  · exact hrest hc hmem

section

variable {us vs ms : List ν} {f : ν}

/-- The six pointers that a move writes. -/
theorem listMove_writes (hr : Linked h s (us ++ (f :: ms ++ vs))) (ht : Linked h t (xs ++ ys))
    (hapart : (s :: (us ++ (f :: ms ++ vs))).Disjoint (t :: (xs ++ ys))) :
    (listMove h (ys.headD t) f (ms.getLastD f)).next =
        Function.update (Function.update (Function.update h.next (us.getLastD s) (vs.headD s))
          (ms.getLastD f) (ys.headD t)) (xs.getLastD t) f ∧
      (listMove h (ys.headD t) f (ms.getLastD f)).previous =
        Function.update (Function.update (Function.update h.previous (vs.headD s) (us.getLastD s))
          f (xs.getLastD t)) (ys.headD t) (ms.getLastD f) := by
  obtain ⟨-, -, -, -, hbefore, hbehind⟩ := linked_segment_iff.mp hr
  have hlast : ms.getLastD f ≠ h.previous f := by
    rw [hbefore.2]
    intro heq
    exact hr.last_notin (List.mem_append_left vs (heq ▸ getLastD_mem f ms))
  have hposition : ys.headD t ≠ h.next (ms.getLastD f) := by
    rw [hbehind.1]
    intro heq
    have hmem : vs.headD s ∈ s :: (us ++ (f :: ms ++ vs)) := by
      rw [← List.append_assoc]
      exact back_subset s (us ++ f :: ms) vs (headD_mem s vs)
    exact hapart hmem (heq ▸ back_subset t xs ys (headD_mem t ys))
  rw [listMove_next h hlast hposition, listMove_previous h hlast hposition, hbefore.2, hbehind.1,
    ht.link.2]
  exact ⟨rfl, rfl⟩

theorem listMove_other {u : ν} (hr : Linked h s (us ++ (f :: ms ++ vs)))
    (ht : Linked h t (xs ++ ys))
    (hapart : (s :: (us ++ (f :: ms ++ vs))).Disjoint (t :: (xs ++ ys)))
    (hother : Linked h u zs) (hs : (s :: (us ++ (f :: ms ++ vs))).Disjoint (u :: zs))
    (ht' : (t :: (xs ++ ys)).Disjoint (u :: zs)) :
    Linked (listMove h (ys.headD t) f (ms.getLastD f)) u zs := by
  refine hother.congr fun c hc => ?_
  have hne : ∀ d ∈ s :: (us ++ (f :: ms ++ vs)), c ≠ d := fun d hd heq => hs hd (heq ▸ hc)
  have hne' : ∀ d ∈ t :: (xs ++ ys), c ≠ d := fun d hd heq => ht' hd (heq ▸ hc)
  have hbehind : vs.headD s ∈ s :: (us ++ (f :: ms ++ vs)) := by
    have hsub := back_subset s (us ++ f :: ms) vs (headD_mem s vs)
    rw [List.append_assoc] at hsub
    exact hsub
  have hmoved : f :: ms ⊆ s :: (us ++ (f :: ms ++ vs)) := fun d hd =>
    List.mem_cons_of_mem s (List.mem_append_right us (List.mem_append_left vs hd))
  obtain ⟨hnext, hprevious⟩ := listMove_writes hr ht hapart
  constructor
  · rw [hnext, Function.update_of_ne (hne' _ (front_subset t xs ys (getLastD_mem t xs))),
      Function.update_of_ne (hne _ (hmoved (getLastD_mem f ms))),
      Function.update_of_ne (hne _ (front_subset s us _ (getLastD_mem s us)))]
  · rw [hprevious, Function.update_of_ne (hne' _ (back_subset t xs ys (headD_mem t ys))),
      Function.update_of_ne (hne _ (hmoved List.mem_cons_self)),
      Function.update_of_ne (hne _ hbehind)]

/-- The ring that a segment leaves. -/
theorem listMove_left (hr : Linked h s (us ++ (f :: ms ++ vs))) (ht : Linked h t (xs ++ ys))
    (hapart : (s :: (us ++ (f :: ms ++ vs))).Disjoint (t :: (xs ++ ys))) :
    Linked (listMove h (ys.headD t) f (ms.getLastD f)) s (us ++ vs) := by
  have hr' : Linked h s ((us ++ f :: ms) ++ vs) := by
    rw [List.append_assoc]
    exact hr
  obtain ⟨-, hrest, hout⟩ := List.nodup_append.mp
    ((List.perm_append_comm_assoc (s :: us) (f :: ms) vs).nodup_iff.mp hr.nodup)
  have hfront : s :: us ⊆ s :: (us ++ (f :: ms ++ vs)) := front_subset s us _
  have hback : vs ++ [s] ⊆ s :: (us ++ (f :: ms ++ vs)) := by
    have hsub := back_subset s (us ++ f :: ms) vs
    rw [List.append_assoc] at hsub
    exact hsub
  have hlast : ∀ c ∈ s :: (us ++ (f :: ms ++ vs)), c ≠ xs.getLastD t := fun c hc heq =>
    hapart hc (heq ▸ front_subset t xs ys (getLastD_mem t xs))
  have hfirst : ∀ c ∈ s :: (us ++ (f :: ms ++ vs)), c ≠ ys.headD t := fun c hc heq =>
    hapart hc (heq ▸ back_subset t xs ys (headD_mem t ys))
  obtain ⟨hnext, hprevious⟩ := listMove_writes hr ht hapart
  refine linked_append_iff.mpr ⟨hrest, hr.front ?_ ?_, hr'.back ?_ ?_, ?_, ?_⟩
  · intro c hc hne
    have hmoved : c ≠ ms.getLastD f := fun heq =>
      hout _ (getLastD_mem f ms) c (List.mem_append_left vs hc) heq.symm
    rw [hnext, Function.update_of_ne (hlast c (hfront hc)), Function.update_of_ne hmoved,
      Function.update_of_ne hne]
  · intro c hc
    have hmoved : c ≠ f := fun heq => hr.first_notin (heq ▸ hc)
    have hne : c ≠ vs.headD s := fun heq =>
      hr'.first_notin (List.mem_append_left (f :: ms) (heq ▸ hc))
    rw [hprevious, Function.update_of_ne (hfirst c (hfront (List.mem_cons_of_mem s hc))),
      Function.update_of_ne hmoved, Function.update_of_ne hne]
  · intro c hc
    have hmoved : c ≠ ms.getLastD f := fun heq => hr'.last_notin (by
      rw [getLastD_segment, ← heq]
      exact hc)
    have hne : c ≠ us.getLastD s := fun heq =>
      hr.last_notin (List.mem_append_right (f :: ms) (heq ▸ hc))
    rw [hnext, Function.update_of_ne (hlast c (hback (List.mem_append_left [s] hc))),
      Function.update_of_ne hmoved, Function.update_of_ne hne]
  · intro c hc hne
    have hmoved : c ≠ f := fun heq => by
      refine hout f List.mem_cons_self c ?_ heq.symm
      exact (back_subset s us vs hc)
    rw [hprevious, Function.update_of_ne (hfirst c (hback hc)), Function.update_of_ne hmoved,
      Function.update_of_ne hne]
  · have hmem := getLastD_mem s us
    have hmoved : us.getLastD s ≠ ms.getLastD f := fun heq =>
      hout _ (getLastD_mem f ms) _ (List.mem_append_left vs hmem) heq.symm
    rw [hnext, Function.update_of_ne (hlast _ (hfront hmem)), Function.update_of_ne hmoved,
      Function.update_self]
  · have hmem := headD_mem s vs
    have hmoved : vs.headD s ≠ f := fun heq =>
      hout f List.mem_cons_self _ (back_subset s us vs hmem) heq.symm
    rw [hprevious, Function.update_of_ne (hfirst _ (hback hmem)), Function.update_of_ne hmoved,
      Function.update_self]

/-- The ring that it joins. -/
theorem listMove_joined (hr : Linked h s (us ++ (f :: ms ++ vs))) (ht : Linked h t (xs ++ ys))
    (hapart : (s :: (us ++ (f :: ms ++ vs))).Disjoint (t :: (xs ++ ys))) :
    Linked (listMove h (ys.headD t) f (ms.getLastD f)) t (xs ++ (f :: ms ++ ys)) := by
  have hr' : Linked h s ((us ++ f :: ms) ++ vs) := by
    rw [List.append_assoc]
    exact hr
  obtain ⟨-, -, hmid, -, -, -⟩ := linked_segment_iff.mp hr
  obtain ⟨hsegment, -, -⟩ := List.nodup_append.mp
    ((List.perm_append_comm_assoc (s :: us) (f :: ms) vs).nodup_iff.mp hr.nodup)
  have hmoved : f :: ms ⊆ s :: (us ++ (f :: ms ++ vs)) := fun c hc =>
    List.mem_cons_of_mem s (List.mem_append_right us (List.mem_append_left vs hc))
  have hother : ∀ c ∈ t :: (xs ++ ys), ∀ d ∈ s :: (us ++ (f :: ms ++ vs)), c ≠ d :=
    fun c hc d hd heq => hapart hd (heq ▸ hc)
  have hbefore : us.getLastD s ∈ s :: (us ++ (f :: ms ++ vs)) :=
    front_subset s us _ (getLastD_mem s us)
  have hbehind : vs.headD s ∈ s :: (us ++ (f :: ms ++ vs)) := by
    have hsub := back_subset s (us ++ f :: ms) vs (headD_mem s vs)
    rw [List.append_assoc] at hsub
    exact hsub
  have hlast := front_subset t xs ys (getLastD_mem t xs)
  have hfirst := back_subset t xs ys (headD_mem t ys)
  obtain ⟨hnext, hprevious⟩ := listMove_writes hr ht hapart
  refine linked_segment_iff.mpr
    ⟨?_, ht.front ?_ ?_, hmid.congr ?_ ?_, ht.back ?_ ?_, ⟨?_, ?_⟩, ?_, ?_⟩
  · refine (List.perm_append_comm_assoc (t :: xs) (f :: ms) ys).nodup_iff.mpr ?_
    exact List.nodup_append.mpr
      ⟨hsegment, ht.nodup, fun c hc d hd => (hother d hd c (hmoved hc)).symm⟩
  · intro c hc hne
    have hmem := front_subset t xs ys hc
    rw [hnext, Function.update_of_ne hne,
      Function.update_of_ne (hother c hmem _ (hmoved (getLastD_mem f ms))),
      Function.update_of_ne (hother c hmem _ hbefore)]
  · intro c hc
    have hmem := front_subset t xs ys (List.mem_cons_of_mem t hc)
    have hne : c ≠ ys.headD t := fun heq => ht.first_notin (heq ▸ hc)
    rw [hprevious, Function.update_of_ne hne,
      Function.update_of_ne (hother c hmem f (hmoved List.mem_cons_self)),
      Function.update_of_ne (hother c hmem _ hbehind)]
  · intro c hc
    have hin := List.dropLast_subset _ hc
    have hne : c ≠ us.getLastD s := fun heq =>
      hr.last_notin (List.mem_append_left vs (heq ▸ hin))
    rw [hnext, Function.update_of_ne (hother _ hlast c (hmoved hin)).symm,
      Function.update_of_ne (ne_last hsegment hc), Function.update_of_ne hne]
  · intro c hc
    have hin : c ∈ f :: ms := List.mem_cons_of_mem f hc
    have hne : c ≠ vs.headD s := fun heq =>
      hr'.first_notin (List.mem_append_right us (heq ▸ hin))
    have hhead : c ≠ f := fun heq => (List.nodup_cons.mp hsegment).1 (heq ▸ hc)
    rw [hprevious, Function.update_of_ne (hother _ hfirst c (hmoved hin)).symm,
      Function.update_of_ne hhead, Function.update_of_ne hne]
  · intro c hc
    have hmem := back_subset t xs ys (List.mem_append_left [t] hc)
    have hne : c ≠ xs.getLastD t := fun heq => ht.last_notin (heq ▸ hc)
    rw [hnext, Function.update_of_ne hne,
      Function.update_of_ne (hother c hmem _ (hmoved (getLastD_mem f ms))),
      Function.update_of_ne (hother c hmem _ hbefore)]
  · intro c hc hne
    have hmem := back_subset t xs ys hc
    rw [hprevious, Function.update_of_ne hne,
      Function.update_of_ne (hother c hmem f (hmoved List.mem_cons_self)),
      Function.update_of_ne (hother c hmem _ hbehind)]
  · rw [hnext, Function.update_self]
  · rw [hprevious, Function.update_of_ne (hother _ hfirst f (hmoved List.mem_cons_self)).symm,
      Function.update_self]
  · rw [hnext, Function.update_of_ne (hother _ hlast _ (hmoved (getLastD_mem f ms))).symm,
      Function.update_self]
  · rw [hprevious, Function.update_self]

end


/-! ## Several rings -/

variable {ι : Type} [DecidableEq ι]

/-- No node in two of the lists. -/
def Apart (sentinel : ι → ν) (valid : ι → Prop) (contents : ι → List ν) : Prop :=
  ∀ i j, valid i → valid j → i ≠ j →
    (sentinel i :: contents i).Disjoint (sentinel j :: contents j)

/-- The lists of the sentinels that exist, each a ring. -/
structure Rings (h : Heap ν) (sentinel : ι → ν) (valid : ι → Prop) (contents : ι → List ν) :
    Prop where
  linked : ∀ i, valid i → Linked h (sentinel i) (contents i)
  apart : Apart sentinel valid contents

section

variable {sentinel : ι → ν} {valid : ι → Prop} {contents : ι → List ν} {i j : ι}

omit [DecidableEq ν] in
theorem Apart.update (ha : Apart sentinel valid contents) (hnew : ∀ j, valid j → j ≠ i →
    (sentinel i :: zs).Disjoint (sentinel j :: contents j)) :
    Apart sentinel valid (Function.update contents i zs) := by
  intro j k hj hk hne
  obtain rfl | hji := eq_or_ne j i
  · rw [Function.update_self, Function.update_of_ne hne.symm]
    exact hnew k hk hne.symm
  · rw [Function.update_of_ne hji]
    obtain rfl | hki := eq_or_ne k i
    · rw [Function.update_self]
      exact fun c hc hc' => hnew j hj hji hc' hc
    · rw [Function.update_of_ne hki]
      exact ha j k hj hk hne

omit [DecidableEq ν] in
theorem linked_update (hi : Linked h (sentinel i) zs)
    (hothers : ∀ j, valid j → j ≠ i → Linked h (sentinel j) (contents j)) :
    ∀ j, valid j → Linked h (sentinel j) (Function.update contents i zs j) := by
  intro j hj
  obtain rfl | hne := eq_or_ne j i
  · rw [Function.update_self]
    exact hi
  · rw [Function.update_of_ne hne]
    exact hothers j hj hne

theorem Rings.insert (hr : Rings h sentinel valid contents) (hi : valid i)
    (hsplit : contents i = xs ++ ys) (hx : ∀ j, valid j → x ∉ sentinel j :: contents j) :
    Rings (listInsert h (ys.headD (sentinel i)) x) sentinel valid
      (Function.update contents i (xs ++ x :: ys)) := by
  have hring : Linked h (sentinel i) (xs ++ ys) := hsplit ▸ hr.linked i hi
  have hout : x ∉ sentinel i :: (xs ++ ys) := hsplit ▸ hx i hi
  refine ⟨linked_update (listInsert_ring hring hout) ?_, hr.apart.update ?_⟩
  · intro j hj hne
    refine listInsert_other hring (hr.linked j hj) ?_ (hx j hj)
    rw [← hsplit]
    exact hr.apart i j hi hj hne.symm
  · intro j hj hne c hc hc'
    have hperm : (sentinel i :: (xs ++ x :: ys)).Perm (x :: (sentinel i :: contents i)) := by
      rw [hsplit]
      exact @List.perm_middle ν x (sentinel i :: xs) ys
    have hmem : c = x ∨ c ∈ sentinel i :: contents i := List.mem_cons.mp (hperm.mem_iff.mp hc)
    obtain rfl | hmem := hmem
    · exact hx j hj hc'
    · exact hr.apart i j hi hj hne.symm hmem hc'

theorem Rings.remove (hr : Rings h sentinel valid contents) (hi : valid i)
    (hsplit : contents i = xs ++ x :: ys) :
    Rings (listRemove h x) sentinel valid (Function.update contents i (xs ++ ys)) := by
  have hring : Linked h (sentinel i) (xs ++ x :: ys) := hsplit ▸ hr.linked i hi
  refine ⟨linked_update (listRemove_ring hring) ?_, hr.apart.update ?_⟩
  · intro j hj hne
    refine listRemove_other hring (hr.linked j hj) ?_
    rw [← hsplit]
    exact hr.apart i j hi hj hne.symm
  · intro j hj hne c hc hc'
    have hmem : c ∈ sentinel i :: contents i := by
      rw [hsplit]
      exact List.cons_subset_cons _ (fun d hd => mem_of_without x hd) hc
    exact hr.apart i j hi hj hne.symm hmem hc'

/-- A segment of one list moves to a place of another. -/
theorem Rings.move {us vs ms : List ν} {f : ν} (hr : Rings h sentinel valid contents)
    (hi : valid i) (hj : valid j) (hij : i ≠ j) (hfrom : contents i = us ++ (f :: ms ++ vs))
    (hto : contents j = xs ++ ys) :
    Rings (listMove h (ys.headD (sentinel j)) f (ms.getLastD f)) sentinel valid
      (Function.update (Function.update contents i (us ++ vs)) j (xs ++ (f :: ms ++ ys))) := by
  have hring : Linked h (sentinel i) (us ++ (f :: ms ++ vs)) := hfrom ▸ hr.linked i hi
  have hring' : Linked h (sentinel j) (xs ++ ys) := hto ▸ hr.linked j hj
  have hapart : (sentinel i :: (us ++ (f :: ms ++ vs))).Disjoint (sentinel j :: (xs ++ ys)) := by
    rw [← hfrom, ← hto]
    exact hr.apart i j hi hj hij
  have hrest : ∀ c ∈ sentinel i :: (us ++ vs), c ∈ sentinel i :: contents i := by
    intro c hc
    rw [hfrom]
    refine List.cons_subset_cons _ (fun d hd => ?_) hc
    obtain hd | hd := List.mem_append.mp hd
    · exact List.mem_append_left _ hd
    · exact List.mem_append_right us (List.mem_append_right (f :: ms) hd)
  have hjoined : ∀ c ∈ sentinel j :: (xs ++ (f :: ms ++ ys)),
      c ∈ f :: ms ∨ c ∈ sentinel j :: contents j := by
    intro c hc
    rw [hto]
    have hperm := List.perm_append_comm_assoc (sentinel j :: xs) (f :: ms) ys
    exact List.mem_append.mp (hperm.mem_iff.mp hc)
  have hmoved : ∀ c ∈ f :: ms, c ∈ sentinel i :: contents i ∧ c ∉ sentinel i :: (us ++ vs) := by
    intro c hc
    obtain ⟨-, -, hout⟩ := List.nodup_append.mp
      ((List.perm_append_comm_assoc (sentinel i :: us) (f :: ms) vs).nodup_iff.mp hring.nodup)
    refine ⟨?_, fun hc' => hout c hc c hc' rfl⟩
    rw [hfrom]
    exact List.mem_cons_of_mem _ (List.mem_append_right us (List.mem_append_left vs hc))
  refine ⟨linked_update (listMove_joined hring hring' hapart) ?_, Apart.update ?_ ?_⟩
  · intro k hk hkj
    obtain rfl | hki := eq_or_ne k i
    · rw [Function.update_self]
      exact listMove_left hring hring' hapart
    · rw [Function.update_of_ne hki]
      refine listMove_other hring hring' hapart (hr.linked k hk) ?_ ?_
      · rw [← hfrom]
        exact hr.apart i k hi hk hki.symm
      · rw [← hto]
        exact hr.apart j k hj hk hkj.symm
  · refine hr.apart.update fun k hk hki c hc hc' => ?_
    exact hr.apart i k hi hk hki.symm (hrest c hc) hc'
  · intro k hk hkj c hc hc'
    obtain rfl | hki := eq_or_ne k i
    · rw [Function.update_self] at hc'
      obtain hc | hc := hjoined c hc
      · exact (hmoved c hc).2 hc'
      · exact hr.apart k j hi hj hij (hrest c hc') hc
    · rw [Function.update_of_ne hki] at hc'
      obtain hc | hc := hjoined c hc
      · exact hr.apart i k hi hk hki.symm (hmoved c hc).1 hc'
      · exact hr.apart j k hj hk hkj.symm hc hc'

end

end Fnvmp.Enet
