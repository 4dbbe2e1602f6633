import Fnvmp.EnetLink
import Mathlib.Data.List.Perm.Subperm
import Mathlib.Data.List.Nodup

/-!
# Unsequenced packets come through at most once

The receiver keeps one bit for each group number of the window it is in and nothing for
any other: a number behind the window is dropped unread, a number past it opens a window
of its own.
-/

namespace Fnvmp.Enet

open Protocol SequenceWindow

variable {α : Type} {r : Receiver α} {command : UnsequencedCommand α} {base a : ℕ}

/-- Where the window of a number begins. -/
def groupBase (n : ℕ) : ℕ := n / peerUnsequencedWindowSize * peerUnsequencedWindowSize

theorem groupBase_le (n : ℕ) : groupBase n ≤ n := Nat.div_mul_le_self n peerUnsequencedWindowSize

theorem groupBase_groupBase (n : ℕ) : groupBase (groupBase n) = groupBase n := by
  rw [groupBase, groupBase, Nat.mul_div_cancel _ (by decide)]

theorem groupBase_mono {m n : ℕ} (h : m ≤ n) : groupBase m ≤ groupBase n :=
  Nat.mul_le_mul_right _ (Nat.div_le_div_right h)

theorem wrapped_mod (n : ℕ) :
    n % uint16Size % peerUnsequencedWindowSize = n % peerUnsequencedWindowSize :=
  Nat.mod_mod_of_dvd n (by decide)

/-- The wrapped number of a window is the wrapped number less its place in the window. -/
theorem wrapped_sub (n : ℕ) :
    n % uint16Size - n % peerUnsequencedWindowSize = groupBase n % uint16Size := by
  unfold groupBase peerUnsequencedWindowSize uint16Size
  omega

section

variable (hchannel : command.channelID < r.channelCount)
  (hgroup : command.unsequencedGroup = a % uint16Size)
  (hbase : r.incomingUnsequencedGroup = base % uint16Size)

include hchannel hgroup hbase

/-- A number behind the window is dropped while it is fresh. -/
theorem handleSendUnsequenced_behind (hlt : a < base)
    (hfresh : base ≤ a + unsequencedLifetime) (full : Bool) :
    handleSendUnsequenced r command full = r := by
  have hle : base ≤ a + uint16Size := hfresh.trans (Nat.add_le_add_left (by decide) a)
  have hlift := lift_behind hlt hle
  simp only [handleSendUnsequenced, if_neg hchannel.not_ge, hgroup, hbase]
  rw [if_pos]
  unfold unsequencedLifetime peerUnsequencedWindowSize peerFreeUnsequencedWindows uint16Size at *
  omega

/-- In the window of the receiver, or where that one would be after some turns of the counter,
the bit decides. -/
theorem handleSendUnsequenced_here (hwindow : groupBase a % uint16Size = base % uint16Size)
    (full : Bool) :
    handleSendUnsequenced r command full =
      if r.unsequencedWindow (a % peerUnsequencedWindowSize) ∨ full then r
      else { r with
        dispatchedCommands := r.dispatchedCommands ++ [command.post]
        unsequencedWindow :=
          Function.update r.unsequencedWindow (a % peerUnsequencedWindowSize) true } := by
  have hpass : ¬base % uint16Size + peerFreeUnsequencedWindows * peerUnsequencedWindowSize ≤
      lift uint16Size (base % uint16Size) (a % uint16Size) := by
    have hsplit := wrapped_sub a
    have hlow : ¬a % uint16Size < base % uint16Size := by omega
    rw [lift, if_neg hlow]
    unfold peerUnsequencedWindowSize peerFreeUnsequencedWindows at *
    omega
  simp only [handleSendUnsequenced, if_neg hchannel.not_ge, hgroup, hbase, if_neg hpass,
    wrapped_mod, wrapped_sub, hwindow, ne_eq, not_true_eq_false, not_false_eq_true, true_and, if_false]
  by_cases hbit : r.unsequencedWindow (a % peerUnsequencedWindowSize) <;> simp [hbit]

/-- In another window: dropped, or the window is opened. -/
theorem handleSendUnsequenced_turn (hwindow : groupBase a % uint16Size ≠ base % uint16Size)
    (full : Bool) :
    handleSendUnsequenced r command full = r ∨ handleSendUnsequenced r command full =
      { r with
        incomingUnsequencedGroup := groupBase a % uint16Size
        dispatchedCommands := r.dispatchedCommands ++ if full then [] else [command.post]
        unsequencedWindow := fun i =>
          decide (full = false ∧ i = a % peerUnsequencedWindowSize) } := by
  simp only [handleSendUnsequenced, if_neg hchannel.not_ge, hgroup, hbase, wrapped_mod,
    wrapped_sub, ne_eq, hwindow, not_false_eq_true, not_true_eq_false, false_and, if_false, if_true]
  split
  · exact .inl rfl
  · right
    cases full with
    | true => simp
    | false =>
      simp only [Bool.false_eq_true, if_false, true_and]
      congr 1
      funext i
      by_cases hi : i = a % peerUnsequencedWindowSize
      · subst hi
        simp
      · simp [hi]

end

/-- `accepted` are the numbers, from one on, of the packets that came through, in the order in
which they did, and the window of the receiver begins at `base`. A bit may be set for a number
that never came: then the counter has made a turn while nothing got through. -/
structure UnsequencedInv (l : Link α) (accepted : List ℕ) (base : ℕ) : Prop where
  group : l.sender.outgoingUnsequencedGroup = (unsequencedOf l.sent).length % uint16Size
  copies : ∀ copy ∈ l.unsequenced, 0 < copy.stamp ∧
    copy.content.channelID < l.receiver.channelCount ∧
    copy.content.unsequencedGroup = copy.stamp % uint16Size ∧
    (unsequencedOf l.sent)[copy.stamp - 1]? = some copy.content.post
  window : l.receiver.incomingUnsequencedGroup = base % uint16Size
  aligned : groupBase base = base
  reached : base ≤ (unsequencedOf l.sent).length
  nodup : accepted.Nodup
  before : ∀ a ∈ accepted, 0 < a ∧ a ≤ (unsequencedOf l.sent).length ∧ groupBase a ≤ base
  posts : (unsequencedOf l.dispatched).map some =
    accepted.map fun a => (unsequencedOf l.sent)[a - 1]?
  bits : ∀ a ∈ accepted, base ≤ a →
    l.receiver.unsequencedWindow (a % peerUnsequencedWindowSize) = true

namespace UnsequencedInv

variable {l : Link α} {accepted : List ℕ} {copy : Copy (UnsequencedCommand α)}

theorem stamp_le (h : UnsequencedInv l accepted base) (hcopy : copy ∈ l.unsequenced) :
    copy.stamp ≤ (unsequencedOf l.sent).length := by
  obtain ⟨hpos, -, -, hpost⟩ := h.copies copy hcopy
  have := (List.getElem?_eq_some_iff.mp hpost).1
  omega

theorem low (h : UnsequencedInv l accepted base) (hge : base ≤ a) : base ≤ groupBase a :=
  h.aligned ▸ groupBase_mono hge

/-- A number from the window on that came through is in the window, and its bit is set. -/
theorem known (h : UnsequencedInv l accepted base) (ha : a ∈ accepted) (hge : base ≤ a) :
    groupBase a = base ∧ l.receiver.unsequencedWindow (a % peerUnsequencedWindowSize) = true :=
  ⟨Nat.le_antisymm (h.before a ha).2.2 (h.low hge), h.bits a ha hge⟩

/-- In a window of its own a number leaves behind whatever came through before. -/
theorem stays (h : UnsequencedInv l accepted base) (ha : a ∈ accepted) {n : ℕ} (hge : base ≤ n)
    (hfrom : groupBase n ≤ a) : groupBase n = base := by
  have hthere := (h.known ha ((h.low hge).trans hfrom)).1
  have hmono := groupBase_mono hfrom
  rw [groupBase_groupBase, hthere] at hmono
  exact Nat.le_antisymm hmono (h.low hge)

/-- A packet comes through that had not come before, and the receiver is in its window. -/
theorem accept (h : UnsequencedInv l accepted base) (hcopy : copy ∈ l.unsequenced)
    (hge : base ≤ copy.stamp) (hnew : copy.stamp ∉ accepted) {r : Receiver α}
    (hcount : r.channelCount = l.receiver.channelCount)
    (hbase : r.incomingUnsequencedGroup = groupBase copy.stamp % uint16Size)
    (hdispatched : r.dispatchedCommands = l.receiver.dispatchedCommands ++ [copy.content.post])
    (hbit : r.unsequencedWindow (copy.stamp % peerUnsequencedWindowSize) = true)
    (hbits : ∀ a ∈ accepted, groupBase copy.stamp ≤ a →
      r.unsequencedWindow (a % peerUnsequencedWindowSize) = true) :
    UnsequencedInv { l with receiver := r } (accepted ++ [copy.stamp]) (groupBase copy.stamp) := by
  obtain ⟨hpos, hchannel, hgroup, hpost⟩ := h.copies copy hcopy
  have hle := h.stamp_le hcopy
  refine ⟨h.group, ?_, hbase, groupBase_groupBase _, (groupBase_le _).trans hle, ?_,
    fun a ha => ?_, ?_, fun a ha hfrom => ?_⟩
  · rw [hcount]
    exact h.copies
  · exact List.Nodup.append h.nodup (List.nodup_singleton _) (by simpa using hnew)
  · rcases List.mem_append.mp ha with ha | ha
    · obtain ⟨hpos', hle', hbefore⟩ := h.before a ha
      exact ⟨hpos', hle', hbefore.trans (h.low hge)⟩
    · rw [List.mem_singleton.mp ha]
      exact ⟨hpos, hle, le_rfl⟩
  · have hposts := h.posts
    simp only [Link.dispatched, hdispatched, unsequencedOf_append, List.map_append] at hposts ⊢
    rw [← List.append_assoc, hposts, List.map_singleton, hpost]
    rfl
  · rcases List.mem_append.mp ha with ha | ha
    · exact hbits a ha hfrom
    · rw [List.mem_singleton.mp ha]
      exact hbit

/-- The window moves on and its first packet finds no room. -/
theorem refuse (h : UnsequencedInv l accepted base) (hcopy : copy ∈ l.unsequenced)
    (hge : base ≤ copy.stamp) (hnext : groupBase copy.stamp ≠ base) {r : Receiver α}
    (hcount : r.channelCount = l.receiver.channelCount)
    (hbase : r.incomingUnsequencedGroup = groupBase copy.stamp % uint16Size)
    (hdispatched : r.dispatchedCommands = l.receiver.dispatchedCommands) :
    UnsequencedInv { l with receiver := r } accepted (groupBase copy.stamp) := by
  have hle := h.stamp_le hcopy
  refine ⟨h.group, ?_, hbase, groupBase_groupBase _, (groupBase_le _).trans hle, h.nodup,
    fun a ha => ?_, ?_, fun a ha hfrom => ?_⟩
  · rw [hcount]
    exact h.copies
  · obtain ⟨hpos', hle', hbefore⟩ := h.before a ha
    exact ⟨hpos', hle', hbefore.trans (h.low hge)⟩
  · simp only [Link.dispatched, hdispatched]
    exact h.posts
  · exact absurd (h.stays ha hge hfrom) hnext

theorem arrive (h : UnsequencedInv l accepted base) {i : ℕ} {full : Bool}
    (hfresh : Fresh l (.unsequenced i full)) :
    ∃ accepted' base', UnsequencedInv (l.arrive i full) accepted' base' := by
  unfold Link.arrive
  cases hcopy : l.unsequenced[i]? with
  | none => exact ⟨accepted, base, h⟩
  | some copy =>
    have hold := hfresh copy hcopy
    have hmem := List.mem_of_getElem? hcopy
    obtain ⟨hpos, hchannel, hgroup, hpost⟩ := h.copies copy hmem
    dsimp only
    rcases Nat.lt_or_ge copy.stamp base with hlt | hge
    · rw [handleSendUnsequenced_behind hchannel hgroup h.window hlt (h.reached.trans hold)]
      exact ⟨accepted, base, h⟩
    by_cases hwindow : groupBase copy.stamp % uint16Size = base % uint16Size
    · rw [handleSendUnsequenced_here hchannel hgroup h.window hwindow]
      split
      · exact ⟨accepted, base, h⟩
      · rename_i hfree
        refine ⟨_, _, h.accept hmem hge (fun hin => hfree (.inl (h.known hin hge).2)) rfl
          (h.window.trans hwindow.symm) rfl (Function.update_self ..) fun a ha hfrom => ?_⟩
        have hset := h.bits a ha ((h.low hge).trans hfrom)
        simp [Function.update_apply, hset]
    · have hnext : groupBase copy.stamp ≠ base := fun heq => hwindow (congrArg (· % uint16Size) heq)
      rcases handleSendUnsequenced_turn hchannel hgroup h.window hwindow full with hsame | hturn
      · rw [hsame]
        exact ⟨accepted, base, h⟩
      rw [hturn]
      cases full with
      | true => exact ⟨_, _, h.refuse hmem hge hnext rfl rfl (List.append_nil _)⟩
      | false =>
        refine ⟨_, _, h.accept hmem hge (fun hin => hnext (h.known hin hge).1) rfl rfl rfl
          (by simp) fun a ha hfrom => ?_⟩
        exact absurd (h.stays ha hge hfrom) hnext

end UnsequencedInv

end Fnvmp.Enet
