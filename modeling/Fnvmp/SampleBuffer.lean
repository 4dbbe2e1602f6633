import Fnvmp.Interpolation
import Mathlib.Data.List.Range

/-!
# The ring buffer as a list

The samples a buffer retains, oldest first. A push appends to this list and drops the
oldest entry once five are kept; the search for neighbours is a search through it.
-/

namespace Fnvmp.Interp

variable {F : Type}

/-- The retained samples, oldest first. -/
def retained (state : EntityInterpState F) : List (SnapshotSample F) :=
  (List.range state.count).map (getSample state)

@[simp] theorem retained_length (state : EntityInterpState F) :
    (retained state).length = state.count := by
  simp [retained]

/-- The newest five entries of a list. -/
def newest (l : List (SnapshotSample F)) : List (SnapshotSample F) := l.drop (l.length - bufferSize)

/-! ## Writing -/

theorem slot_val (state : EntityInterpState F) (i : Nat) :
    (slot state i).val = (state.writeIdx.val + bufferSize - state.count + i) % bufferSize := by
  simp only [slot, bufferSize]
  omega

/-- The slot about to be written is the one after the newest sample. -/
theorem slot_count (state : EntityInterpState F) (h : state.count ≤ bufferSize) :
    slot state state.count = state.writeIdx := by
  apply Fin.ext
  rw [slot_val]
  have hidx := state.writeIdx.isLt
  simp only [bufferSize] at *
  omega

theorem slot_ne (state : EntityInterpState F) {i : Nat} (h : state.count ≤ bufferSize)
    (hi : i < state.count) (hfirst : state.count = bufferSize → i ≠ 0) :
    slot state i ≠ state.writeIdx := by
  intro heq
  have hval := congrArg Fin.val heq
  rw [slot_val] at hval
  have hidx := state.writeIdx.isLt
  simp only [bufferSize] at *
  omega

theorem writeSample_writeIdx (state : EntityInterpState F) (sample : SnapshotSample F) :
    (writeSample state sample).writeIdx.val = (state.writeIdx.val + 1) % bufferSize := by
  simp [writeSample, Fin.val_add]

theorem writeSample_count (state : EntityInterpState F) (sample : SnapshotSample F)
    (h : state.count ≤ bufferSize) :
    (writeSample state sample).count = min (state.count + 1) bufferSize := by
  simp only [writeSample, bufferSize] at *
  split <;> omega

/-- By how much a push shifts the logical indices: the oldest sample goes when five are kept. -/
theorem slot_writeSample (state : EntityInterpState F) (sample : SnapshotSample F) (i : Nat)
    (h : state.count ≤ bufferSize) : slot (writeSample state sample) i =
      slot state (i + (state.count + 1 - bufferSize)) := by
  apply Fin.ext
  rw [slot_val, slot_val, writeSample_writeIdx, writeSample_count state sample h]
  have hidx := state.writeIdx.isLt
  simp only [bufferSize] at *
  omega

theorem getSample_writeSample (state : EntityInterpState F) (sample : SnapshotSample F) {i : Nat}
    (h : state.count ≤ bufferSize) (hi : i < (writeSample state sample).count) :
    getSample (writeSample state sample) i =
      if i + (state.count + 1 - bufferSize) = state.count then sample
      else getSample state (i + (state.count + 1 - bufferSize)) := by
  rw [writeSample_count state sample h] at hi
  rw [getSample, slot_writeSample state sample i h]
  change Function.update state.samples state.writeIdx sample _ = _
  split
  next hlast =>
    rw [hlast, slot_count state h, Function.update_self]
  next hkept =>
    rw [Function.update_of_ne, getSample]
    apply slot_ne state h
    · simp only [bufferSize] at *
      omega
    · intro hfull
      simp only [bufferSize] at *
      omega

/-- A push keeps the newest five. -/
theorem retained_writeSample (state : EntityInterpState F) (sample : SnapshotSample F)
    (h : state.count ≤ bufferSize) :
    retained (writeSample state sample) = newest (retained state ++ [sample]) := by
  have hcount := writeSample_count state sample h
  apply List.ext_getElem
  · simp only [newest, retained_length, hcount, List.length_drop, List.length_append,
      List.length_singleton]
    omega
  · intro i hi hi'
    have hlt : i < (writeSample state sample).count := by simpa using hi
    simp only [retained, newest, List.getElem_map, List.getElem_range, List.getElem_drop,
      List.length_append, List.length_map, List.length_range, List.length_singleton]
    rw [getSample_writeSample state sample h hlt]
    rw [hcount] at hlt
    split
    next hlast =>
      rw [List.getElem_append_right (by simp; omega)]
      simp
    next hkept =>
      rw [List.getElem_append_left (by simp; omega), List.getElem_map, List.getElem_range]
      rw [Nat.add_comm]

/-! ## Reading -/

theorem retained_zero (state : EntityInterpState F) (h : 0 < state.count) :
    (retained state)[0]? = some (getSample state 0) := by
  simp [retained, h]

theorem retained_last (state : EntityInterpState F) (h : 0 < state.count) :
    (retained state).getLast? = some (getSample state (state.count - 1)) := by
  rw [List.getLast?_eq_getElem?]
  have hlt : state.count - 1 < state.count := by omega
  simp [retained, hlt]

/-- The first neighbours between which a time lies. -/
def bracket (renderTime : ℚ) :
    List (SnapshotSample F) → Option (SnapshotSample F × SnapshotSample F)
  | a :: b :: rest =>
    if renderTime ≥ a.timestamp ∧ renderTime ≤ b.timestamp then some (a, b)
    else bracket renderTime (b :: rest)
  | _ => none

/-- The loop over neighbouring samples is the search through the retained ones. -/
theorem findBracket_eq (state : EntityInterpState F) (renderTime : ℚ) (n i : Nat) :
    findBracket state renderTime i n =
      bracket renderTime ((List.range' i (n + 1)).map (getSample state)) := by
  induction n generalizing i with
  | zero => rfl
  | succ n ih =>
    have hsplit : List.range' i (n + 2) = i :: List.range' (i + 1) (n + 1) := List.range'_succ
    have hsplit' : List.range' (i + 1) (n + 1) = (i + 1) :: List.range' (i + 2) n :=
      List.range'_succ
    rw [findBracket, ih, hsplit, hsplit']
    rfl

theorem findBracket_retained (state : EntityInterpState F) (renderTime : ℚ)
    (h : 0 < state.count) : findBracket state renderTime 0 (state.count - 1) =
      bracket renderTime (retained state) := by
  rw [findBracket_eq, retained, List.range_eq_range']
  congr 3
  omega

/-- What the search finds are neighbours, and the time lies after the first of them. -/
theorem bracket_some {renderTime : ℚ} {l : List (SnapshotSample F)} {a b : SnapshotSample F}
    (h : bracket renderTime l = some (a, b))
    (hhead : ∀ c, l.head? = some c → c.timestamp < renderTime) :
    a.timestamp < renderTime ∧ renderTime ≤ b.timestamp ∧
      ∃ before after, l = before ++ a :: b :: after := by
  induction l with
  | nil => cases h
  | cons c l ih =>
    cases l with
    | nil => cases h
    | cons d rest =>
      rw [bracket] at h
      split at h
      next hfound =>
        cases h
        exact ⟨hhead a rfl, hfound.2, [], rest, rfl⟩
      next hmissed =>
        have hlate : d.timestamp < renderTime :=
          not_le.mp fun hle => hmissed ⟨(hhead c rfl).le, hle⟩
        obtain ⟨hafter, hbefore, before, after, hcut⟩ := ih h fun e he => by
          cases he
          exact hlate
        exact ⟨hafter, hbefore, c :: before, after, by rw [hcut, List.cons_append]⟩

/-- A read is a read of the list of retained samples. -/
theorem getState_retained [Add F] [Sub F] [Mul F] [RatCast F] [LT F] [DecidableLT F]
    (fuel : Nat) {states : InterpStates F} {id : UInt32} {state : EntityInterpState F}
    (hid : states.find? id = some state) {oldest : SnapshotSample F}
    {rest : List (SnapshotSample F)} (h : retained state = oldest :: rest)
    (renderTime currentTime : ℚ) : getState fuel states id renderTime currentTime =
      if rest = [] ∨ renderTime ≤ oldest.timestamp then some (some oldest.pose)
      else
        match if renderTime ≤ ((oldest :: rest).getLast (List.cons_ne_nil oldest rest)).timestamp
          then bracket renderTime (oldest :: rest) else none with
        | some (a, b) => (interpolate fuel a b renderTime).map some
        | none => some (some (extrapolate state
            ((oldest :: rest).getLast (List.cons_ne_nil oldest rest)) renderTime currentTime)) := by
  have hcount : state.count = rest.length + 1 := by
    rw [← retained_length, h, List.length_cons]
  have hpos : 0 < state.count := by omega
  have hfirst := retained_zero state hpos
  have hlast := retained_last state hpos
  rw [h] at hfirst
  rw [h, List.getLast?_eq_getLast_of_ne_nil (List.cons_ne_nil oldest rest)] at hlast
  have hone : state.count = 1 ↔ rest = [] := by
    rw [hcount, Nat.add_eq_right, List.length_eq_zero_iff]
  rw [getState, hid]
  dsimp only
  rw [if_neg hpos.ne', ← Option.some.inj hfirst, ← Option.some.inj hlast,
    findBracket_retained state renderTime hpos, h]
  exact if_congr (or_congr_left hone) rfl rfl

/-- Samples in the order of their times. -/
def InTime (l : List (SnapshotSample F)) : Prop :=
  l.Pairwise fun a b => a.timestamp ≤ b.timestamp

theorem InTime.push {l : List (SnapshotSample F)} (h : InTime l) {s : SnapshotSample F}
    (hlast : ∀ a ∈ l, a.timestamp ≤ s.timestamp) : InTime (newest (l ++ [s])) := by
  have happend : InTime (l ++ [s]) := by
    refine List.pairwise_append.mpr ⟨h, List.pairwise_singleton _ _, fun a ha b hb => ?_⟩
    obtain rfl := List.mem_singleton.mp hb
    exact hlast a ha
  exact happend.sublist (List.drop_sublist _ _)

/-- Between neighbours taken at different times the search stops there. -/
theorem bracket_between {renderTime : ℚ} {before after : List (SnapshotSample F)}
    {a b : SnapshotSample F} (h : InTime (before ++ a :: b :: after))
    (hafter : a.timestamp < renderTime) (hbefore : renderTime ≤ b.timestamp) :
    bracket renderTime (before ++ a :: b :: after) = some (a, b) := by
  induction before with
  | nil =>
    rw [List.nil_append, bracket, if_pos ⟨hafter.le, hbefore⟩]
  | cons c before ih =>
    obtain ⟨-, htail⟩ := List.pairwise_cons.mp h
    cases before with
    | nil =>
      rw [List.cons_append, List.nil_append, bracket, if_neg]
      · exact ih htail
      · exact fun hfound => absurd hfound.2 (not_le.mpr hafter)
    | cons d before =>
      have hd : d.timestamp ≤ a.timestamp :=
        (List.pairwise_cons.mp htail).1 a (by simp)
      rw [List.cons_append, List.cons_append, bracket, if_neg]
      · exact ih htail
      · exact fun hfound => absurd hfound.2 (not_le.mpr (lt_of_le_of_lt hd hafter))

/-! ## Pushing -/

variable [Sub F] [Div F] [RatCast F]

theorem updateVelocity_buffer (state : EntityInterpState F) (x y z : F) (t : ℚ) :
    (updateVelocity state x y z t).count = state.count ∧
      retained (updateVelocity state x y z t) = retained state := by
  unfold updateVelocity
  split
  · dsimp only
    split <;> exact ⟨rfl, rfl⟩
  · exact ⟨rfl, rfl⟩

/-- The samples kept for an entity; none for an entity without a buffer. -/
def samples (states : InterpStates F) (id : UInt32) : List (SnapshotSample F) :=
  ((states.find? id).map retained).getD []

/-- Every buffer of the map holds at most five samples. -/
def Bounded (states : InterpStates F) : Prop :=
  ∀ id state, states.find? id = some state → state.count ≤ bufferSize

theorem pushSnapshot_samples {states : InterpStates F} (h : Bounded states) (k id : UInt32)
    (x y z rotZ : F) (t : ℚ) : samples (pushSnapshot states k x y z rotZ t) id =
      if id = k then newest (samples states id ++ [⟨x, y, z, rotZ, t⟩]) else samples states id := by
  simp only [samples, pushSnapshot, OrderedMap.find?_insert]
  split
  next heq =>
    subst heq
    simp only [Option.map_some, Option.getD_some]
    obtain ⟨hcount, hretained⟩ :=
      updateVelocity_buffer ((states.find? id).getD emptyState) x y z t
    have hbound : ((states.find? id).getD emptyState).count ≤ bufferSize := by
      cases hid : states.find? id with
      | none => exact Nat.zero_le _
      | some state => exact h id state hid
    rw [retained_writeSample _ _ (hcount ▸ hbound), hretained]
    cases hid : states.find? id <;> rfl
  next => rfl

theorem pushSnapshot_bounded {states : InterpStates F} (h : Bounded states) (k : UInt32)
    (x y z rotZ : F) (t : ℚ) : Bounded (pushSnapshot states k x y z rotZ t) := by
  intro id state hid
  rw [pushSnapshot, OrderedMap.find?_insert] at hid
  split at hid
  · cases hid
    obtain ⟨hcount, -⟩ := updateVelocity_buffer ((states.find? k).getD emptyState) x y z t
    have hbound : ((states.find? k).getD emptyState).count ≤ bufferSize := by
      cases hk : states.find? k with
      | none => exact Nat.zero_le _
      | some state => exact h k state hk
    rw [writeSample_count _ _ (hcount ▸ hbound)]
    exact Nat.min_le_right _ _
  · exact h id state hid

end Fnvmp.Interp
