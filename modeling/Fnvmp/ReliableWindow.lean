import Fnvmp.Enet
import Mathlib.Algebra.Order.Group.Multiset
import Mathlib.Tactic.Abel

/-!
# The sending half of a reliable channel

A command is fresh until it first goes out and held from then until it is acknowledged.
The window counters count what is held, and the rule that a window is opened only while
the nine after it are unused keeps all that is held within seven windows.
-/

namespace Fnvmp.Enet

open Protocol SequenceWindow

variable {α : Type} {s s' : Sender α} {c n : ℕ}

def OutgoingCommand.key (command : OutgoingCommand α) : ℕ × α :=
  (command.reliableSequenceNumber, command.packet)

def keysOn (c : ℕ) (commands : List (OutgoingCommand α)) : List (ℕ × α) :=
  (commands.filter fun command => command.channelID = c).map OutgoingCommand.key

@[simp] theorem keysOn_nil : keysOn c ([] : List (OutgoingCommand α)) = [] := rfl

@[simp] theorem keysOn_append (commands more : List (OutgoingCommand α)) :
    keysOn c (commands ++ more) = keysOn c commands ++ keysOn c more := by
  simp [keysOn]

theorem keysOn_cons (command : OutgoingCommand α) (rest : List (OutgoingCommand α)) :
    keysOn c (command :: rest) =
      (if command.channelID = c then [command.key] else []) ++ keysOn c rest := by
  unfold keysOn
  split <;> simp_all

theorem mem_keysOn {k : ℕ × α} {commands : List (OutgoingCommand α)} :
    k ∈ keysOn c commands ↔ ∃ command ∈ commands, command.channelID = c ∧ command.key = k := by
  simp [keysOn, and_assoc]

/-- What has not gone out yet, in the order it will. -/
def Sender.fresh (s : Sender α) (c : ℕ) : List (ℕ × α) :=
  keysOn c (s.outgoingSendReliableCommands.filter fun command => command.sendAttempts = 0)

/-- What has gone out and is not acknowledged, waiting for that or to go out again. -/
def Sender.held (s : Sender α) (c : ℕ) : Multiset (ℕ × α) :=
  (keysOn c s.sentReliableCommands : Multiset (ℕ × α)) +
    (keysOn c (s.outgoingSendReliableCommands.filter fun command => command.sendAttempts ≠ 0) :
      Multiset (ℕ × α))

def window (k : ℕ × α) : ℕ := k.1 / peerReliableWindowSize

/-- The counters and bits tell what is held. -/
structure Sender.Sound (s : Sender α) : Prop where
  attempted : ∀ command ∈ s.sentReliableCommands, command.sendAttempts ≠ 0
  sentChannel : ∀ command ∈ s.sentReliableCommands, command.channelID < s.channelCount
  channel : ∀ command ∈ s.outgoingSendReliableCommands, command.channelID < s.channelCount
  count : ∀ c w, (s.channels c).reliableWindows w = (s.held c).countP fun k => window k = w
  used : ∀ c w, w < 16 → (s.channels c).usedReliableWindows.getLsbD w =
    decide (0 < (s.channels c).reliableWindows w)

/-! ## Window bits -/

theorem getLsbD_bit {i : ℕ} (hi : i < 16) (w : ℕ) : (1#16 <<< w).getLsbD i = decide (i = w) := by
  rw [BitVec.getLsbD_shiftLeft, BitVec.getLsbD_one, decide_eq_true hi, Bool.true_and]
  by_cases hlt : i < w
  · simp [hlt, hlt.ne]
  · rw [decide_eq_false hlt]
    simp only [Nat.zero_lt_succ, decide_true, Bool.not_false, Bool.true_and, decide_eq_decide]
    omega

theorem getLsbD_windowMask {w j : ℕ} (hw : w < 16) (hj : j < 10) :
    (windowMask w).getLsbD ((w + j) % 16) = true := by
  have h : ∀ w : Fin 16, ∀ j : Fin 10, (windowMask w.val).getLsbD ((w.val + j.val) % 16) = true := by
    decide
  exact h ⟨w, hw⟩ ⟨j, hj⟩

/-- Where a window may be opened, the nine after it hold nothing. -/
theorem Sender.Sound.unused_of_windowWrap (h : s.Sound) {w j : ℕ} (hw : w < 16) (hj : j < 10)
    (hwrap : windowWrap (s.channels c) w = false) {k : ℕ × α} (hk : k ∈ s.held c) :
    window k ≠ (w + j) % 16 := by
  intro heq
  have hi := Nat.mod_lt (w + j) (show 0 < 16 by decide)
  simp only [windowWrap, Bool.or_eq_false_iff, decide_eq_false_iff_not, ne_eq, not_not] at hwrap
  have hbit : ((s.channels c).usedReliableWindows &&& windowMask w).getLsbD ((w + j) % 16) =
      false := by
    rw [hwrap.2]
    exact BitVec.getLsbD_zero
  rw [BitVec.getLsbD_and, getLsbD_windowMask hw hj, Bool.and_true, h.used c _ hi,
    decide_eq_false_iff_not, h.count, Nat.not_lt, Nat.le_zero, Multiset.countP_eq_zero] at hbit
  exact hbit k hk heq

/-! ## Queueing -/

/-- The number the next command of the channel gets. -/
def Sender.next (s : Sender α) (c : ℕ) : ℕ :=
  ((s.channels c).outgoingReliableSequenceNumber + 1) % uint16Size

theorem setupOutgoingCommand_fresh (s : Sender α) (c c' : ℕ) (packet : α) :
    (setupOutgoingCommand s c packet).fresh c' =
      s.fresh c' ++ if c = c' then [(s.next c, packet)] else [] := by
  simp [Sender.fresh, setupOutgoingCommand, keysOn_cons, OutgoingCommand.key, Sender.next]

@[simp] theorem setupOutgoingCommand_held (s : Sender α) (c c' : ℕ) (packet : α) :
    (setupOutgoingCommand s c packet).held c' = s.held c' := by
  simp [Sender.held, setupOutgoingCommand]

/-- Queueing counts a number on and leaves the windows alone. -/
theorem setupOutgoingCommand_channels (s : Sender α) (c c' : ℕ) (packet : α) :
    ((setupOutgoingCommand s c packet).channels c').outgoingReliableSequenceNumber =
        (if c' = c then s.next c else (s.channels c').outgoingReliableSequenceNumber) ∧
      ((setupOutgoingCommand s c packet).channels c').usedReliableWindows =
        (s.channels c').usedReliableWindows ∧
      ((setupOutgoingCommand s c packet).channels c').reliableWindows =
        (s.channels c').reliableWindows := by
  by_cases heq : c' = c
  · subst heq
    simp [setupOutgoingCommand, Sender.next]
  · simp [setupOutgoingCommand, heq]

theorem Sender.Sound.setupOutgoingCommand (h : s.Sound) (hc : c < s.channelCount) (packet : α) :
    (setupOutgoingCommand s c packet).Sound where
  attempted := h.attempted
  sentChannel := h.sentChannel
  channel := by
    intro command hmem
    rcases List.mem_append.mp hmem with hmem | hmem
    · exact h.channel command hmem
    · rw [List.mem_singleton.mp hmem]
      exact hc
  count c' w := by
    rw [setupOutgoingCommand_held, (setupOutgoingCommand_channels s c c' packet).2.2, h.count]
  used c' w hw := by
    obtain ⟨-, hused, hwindows⟩ := setupOutgoingCommand_channels s c c' packet
    rw [hused, hwindows, h.used c' w hw]

/-! ## Going out -/

section

variable {command : OutgoingCommand α} {rest : List (OutgoingCommand α)}

/-- What a command that goes out takes from the fresh ones of a channel. -/
def OutgoingCommand.first (command : OutgoingCommand α) (c : ℕ) : List (ℕ × α) :=
  if command.sendAttempts = 0 ∧ command.channelID = c then [command.key] else []

theorem transmit_fresh (h : s.outgoingSendReliableCommands = command :: rest) (c : ℕ) :
    s.fresh c = command.first c ++ (s.transmit command rest).fresh c := by
  simp only [Sender.fresh, h, Sender.transmit, OutgoingCommand.first, List.filter_cons]
  by_cases hzero : command.sendAttempts = 0 <;> simp [hzero, keysOn_cons]

theorem transmit_held (h : s.outgoingSendReliableCommands = command :: rest) (c : ℕ) :
    (s.transmit command rest).held c = (command.first c : Multiset (ℕ × α)) + s.held c := by
  simp only [Sender.held, h, Sender.transmit, OutgoingCommand.first, List.filter_cons,
    keysOn_append, keysOn_cons, keysOn_nil, OutgoingCommand.key, List.append_nil]
  by_cases hzero : command.sendAttempts = 0
  · by_cases hchannel : command.channelID = c
    · simp only [hzero, hchannel, if_true, ← Multiset.coe_add, not_true_eq_false, decide_false,
        and_self, ne_eq, Bool.false_eq_true, if_false]
      abel
    · simp [hzero, hchannel]
  · by_cases hchannel : command.channelID = c <;>
      simp [hzero, hchannel, ← Multiset.coe_add, add_assoc, keysOn_cons, OutgoingCommand.key]

theorem transmit_channels (s : Sender α) (command : OutgoingCommand α)
    (rest : List (OutgoingCommand α)) (c : ℕ) :
    (s.transmit command rest).channels c =
      if command.sendAttempts = 0 ∧ command.channelID = c then
        (s.channels c).claim (window command.key)
      else s.channels c := by
  by_cases hchannel : command.channelID = c
  · subst hchannel
    by_cases hzero : command.sendAttempts = 0 <;>
      simp [Sender.transmit, hzero, window, OutgoingCommand.key]
  · simp [Sender.transmit, hchannel, Function.update_of_ne (Ne.symm hchannel)]

theorem Sender.Sound.transmit (h : s.Sound)
    (hout : s.outgoingSendReliableCommands = command :: rest) :
    (s.transmit command rest).Sound where
  attempted := by
    intro x hmem
    rcases List.mem_append.mp hmem with hmem | hmem
    · exact h.attempted x hmem
    · rw [List.mem_singleton.mp hmem]
      exact Nat.succ_ne_zero _
  sentChannel := by
    intro x hmem
    rcases List.mem_append.mp hmem with hmem | hmem
    · exact h.sentChannel x hmem
    · rw [List.mem_singleton.mp hmem]
      exact h.channel command (hout ▸ List.mem_cons_self)
  channel x hmem := h.channel x (hout ▸ List.mem_cons_of_mem _ hmem)
  count c w := by
    rw [transmit_held hout, transmit_channels, OutgoingCommand.first, Multiset.countP_add,
      ← h.count c w]
    split
    · rw [Multiset.coe_countP, List.countP_singleton]
      by_cases hw : window command.key = w
      · subst hw
        simp [OutgoingChannel.claim, Nat.add_comm]
      · simp [OutgoingChannel.claim, hw, Function.update_of_ne (Ne.symm hw)]
    · simp
  used c w hw := by
    rw [transmit_channels]
    split
    · simp only [OutgoingChannel.claim, BitVec.getLsbD_or, getLsbD_bit hw, h.used c w hw]
      by_cases heq : w = window command.key
      · subst heq
        simp
      · simp [heq]
    · exact h.used c w hw

end

/-- The rule of a pass: what one command going out keeps, a pass keeps. -/
theorem checkOutgoingCommands_rule (P : Sender α → List (ReliableCommand α) → Prop)
    (hstep : ∀ s out command rest, P s out → s.outgoingSendReliableCommands = command :: rest →
      ¬(command.sendAttempts < 1 ∧ command.reliableSequenceNumber % peerReliableWindowSize = 0 ∧
        windowWrap (s.channels command.channelID) (window command.key)) →
      P (s.transmit command rest) (out ++ [command.wire]))
    (room : ℕ) (out : List (ReliableCommand α)) (h : P s out) :
    P (checkOutgoingCommands room s).1 (out ++ (checkOutgoingCommands room s).2) := by
  induction room generalizing s out with
  | zero => simpa [checkOutgoingCommands] using h
  | succ room ih =>
    unfold checkOutgoingCommands
    split
    · simpa using h
    · rename_i command rest hout
      split
      · simpa using h
      · rename_i hwait
        have hnext := ih _ (hstep s out command rest h hout hwait)
        rwa [List.append_assoc, List.singleton_append] at hnext

/-! ## Timeouts -/

theorem checkTimeouts_fresh (h : s.Sound) (expired : OutgoingCommand α → Bool) (c : ℕ) :
    (checkTimeouts s expired).fresh c = s.fresh c := by
  have hnone : (s.sentReliableCommands.filter expired).filter
      (fun command => command.sendAttempts = 0) = [] := by
    rw [List.filter_eq_nil_iff]
    intro command hmem
    simpa using h.attempted command (List.mem_of_mem_filter hmem)
  simp only [Sender.fresh, checkTimeouts, List.filter_append, hnone, List.nil_append]

theorem checkTimeouts_held (h : s.Sound) (expired : OutgoingCommand α → Bool) (c : ℕ) :
    (checkTimeouts s expired).held c = s.held c := by
  have hall : (s.sentReliableCommands.filter expired).filter
      (fun command => command.sendAttempts ≠ 0) = s.sentReliableCommands.filter expired := by
    rw [List.filter_eq_self]
    intro command hmem
    simpa using h.attempted command (List.mem_of_mem_filter hmem)
  have hsplit : (keysOn c s.sentReliableCommands : Multiset (ℕ × α)) =
      (keysOn c (s.sentReliableCommands.filter expired) : Multiset (ℕ × α)) +
        (keysOn c (s.sentReliableCommands.filter fun command => !expired command) :
          Multiset (ℕ × α)) := by
    rw [Multiset.coe_add, ← keysOn_append, Multiset.coe_eq_coe]
    exact ((List.filter_append_perm expired s.sentReliableCommands).symm.filter _).map _
  simp only [Sender.held, checkTimeouts, List.filter_append, hall, keysOn_append,
    ← Multiset.coe_add, hsplit]
  abel

theorem Sender.Sound.checkTimeouts (h : s.Sound) (expired : OutgoingCommand α → Bool) :
    (checkTimeouts s expired).Sound where
  attempted command hmem := h.attempted command (List.mem_of_mem_filter hmem)
  sentChannel command hmem := h.sentChannel command (List.mem_of_mem_filter hmem)
  channel command hmem := by
    rcases List.mem_append.mp hmem with hmem | hmem
    · exact h.sentChannel command (List.mem_of_mem_filter hmem)
    · exact h.channel command hmem
  count c w := by
    rw [checkTimeouts_held h]
    exact h.count c w
  used := h.used

/-! ## Acknowledgements -/

section

variable {ack : Acknowledgement}

theorem removeSent_split {commands rest : List (OutgoingCommand α)}
    (h : removeSent ack commands = some rest) :
    ∃ before command after, commands = before ++ command :: after ∧ rest = before ++ after ∧
      command.answers ack := by
  induction commands generalizing rest with
  | nil => cases h
  | cons command commands ih =>
    unfold removeSent at h
    split at h
    · cases h
      exact ⟨[], command, commands, rfl, rfl, ‹_›⟩
    · obtain ⟨rest', hrest, rfl⟩ := Option.map_eq_some_iff.mp h
      obtain ⟨before, x, after, rfl, rfl, hx⟩ := ih hrest
      exact ⟨command :: before, x, after, rfl, rfl, hx⟩

theorem removeRetry_split {commands rest : List (OutgoingCommand α)}
    (h : removeRetry ack commands = some rest) :
    ∃ before command after, commands = before ++ command :: after ∧ rest = before ++ after ∧
      command.answers ack ∧ command.sendAttempts ≠ 0 := by
  induction commands generalizing rest with
  | nil => cases h
  | cons command commands ih =>
    unfold removeRetry at h
    split at h
    · cases h
    split at h
    · cases h
      exact ⟨[], command, commands, rfl, rfl, ‹_›, by omega⟩
    · obtain ⟨rest', hrest, rfl⟩ := Option.map_eq_some_iff.mp h
      obtain ⟨before, x, after, rfl, rfl, hx⟩ := ih hrest
      exact ⟨command :: before, x, after, rfl, rfl, hx⟩

/-- The one key an acknowledgement takes from a channel. -/
def Acknowledgement.taken (ack : Acknowledgement) (k : ℕ × α) (c : ℕ) : Multiset (ℕ × α) :=
  if ack.channelID = c then {k} else 0

theorem keysOn_remove {command : OutgoingCommand α} (h : command.answers ack)
    (before after : List (OutgoingCommand α)) :
    (keysOn c (before ++ command :: after) : Multiset (ℕ × α)) =
      ack.taken command.key c + (keysOn c (before ++ after) : Multiset (ℕ × α)) := by
  simp only [keysOn_append, keysOn_cons, ← Multiset.coe_add, Acknowledgement.taken, h.2]
  split
  · rw [Multiset.coe_singleton]
    abel
  · simp

@[simp] theorem release_held (s : Sender α) (ack : Acknowledgement) (c : ℕ) :
    (s.release ack).held c = s.held c := by
  unfold Sender.release
  split <;> rfl

@[simp] theorem release_fresh (s : Sender α) (ack : Acknowledgement) (c : ℕ) :
    (s.release ack).fresh c = s.fresh c := by
  unfold Sender.release
  split <;> rfl

/-- The release puts the counters right again. -/
theorem Sender.Sound.release {k : ℕ × α} (hk : k.1 = ack.receivedReliableSequenceNumber)
    (hchannel : ack.channelID < s.channelCount)
    (hattempted : ∀ command ∈ s.sentReliableCommands, command.sendAttempts ≠ 0)
    (hsent : ∀ command ∈ s.sentReliableCommands, command.channelID < s.channelCount)
    (hout : ∀ command ∈ s.outgoingSendReliableCommands, command.channelID < s.channelCount)
    (hcount : ∀ c w, (s.channels c).reliableWindows w =
      (ack.taken k c + s.held c).countP fun k => window k = w)
    (hused : ∀ c w, w < 16 → (s.channels c).usedReliableWindows.getLsbD w =
      decide (0 < (s.channels c).reliableWindows w)) : (s.release ack).Sound := by
  have hrelease : s.release ack = { s with
      channels := Function.update s.channels ack.channelID
        ((s.channels ack.channelID).release (window k)) } := by
    rw [Sender.release, if_pos hchannel, window, hk]
  have hpos : 0 < (s.channels ack.channelID).reliableWindows (window k) := by
    rw [hcount, Acknowledgement.taken, if_pos rfl]
    exact Multiset.countP_pos_of_mem (Multiset.mem_add.mpr (.inl (Multiset.mem_singleton_self k)))
      rfl
  refine ⟨?_, ?_, ?_, ?_, ?_⟩ <;> rw [hrelease]
  · exact hattempted
  · exact hsent
  · exact hout
  · intro c w
    have hcount := hcount c w
    obtain rfl | hne := eq_or_ne ack.channelID c
    · rw [Acknowledgement.taken, if_pos rfl, ← Multiset.coe_singleton, Multiset.countP_add,
        Multiset.coe_countP, List.countP_singleton] at hcount
      simp only [Function.update_self, OutgoingChannel.release, if_pos hpos]
      change _ = (s.held ack.channelID).countP _
      by_cases hw : window k = w
      · subst hw
        rw [if_pos (by simp)] at hcount
        rw [Function.update_self]
        omega
      · rw [if_neg (by simpa using hw)] at hcount
        rw [Function.update_of_ne (Ne.symm hw)]
        omega
    · rw [Acknowledgement.taken, if_neg hne, zero_add] at hcount
      simp only [Function.update_of_ne hne.symm]
      exact hcount
  · intro c w hw
    have hused := hused c w hw
    obtain rfl | hne := eq_or_ne ack.channelID c
    · simp only [Function.update_self, OutgoingChannel.release, if_pos hpos]
      by_cases heq : w = window k
      · subst heq
        rw [Function.update_self]
        split
        · rename_i hzero
          rw [BitVec.getLsbD_and, BitVec.getLsbD_not, getLsbD_bit hw, hzero]
          simp
        · rename_i hzero
          rw [hused, decide_eq_decide]
          omega
      · rw [Function.update_of_ne heq]
        split
        · rw [BitVec.getLsbD_and, BitVec.getLsbD_not, getLsbD_bit hw, hused]
          simp [heq, hw]
        · exact hused
    · simpa only [Function.update_of_ne hne.symm] using hused

/-- What an acknowledgement leaves alone: all but one command held with that number. -/
structure Removes (ack : Acknowledgement) (k : ℕ × α) (s s' : Sender α) : Prop where
  number : k.1 = ack.receivedReliableSequenceNumber
  held : ∀ c, s.held c = ack.taken k c + s'.held c
  fresh : ∀ c, s'.fresh c = s.fresh c
  sound : s'.Sound

theorem removeSentReliableCommand_spec (h : s.Sound) (ack : Acknowledgement) :
    removeSentReliableCommand s ack = s ∨
      ∃ k, Removes ack k s (removeSentReliableCommand s ack) := by
  unfold removeSentReliableCommand
  split
  · rename_i rest hremove
    obtain ⟨before, command, after, hsent, rfl, hanswers⟩ := removeSent_split hremove
    have hheld : ∀ c, s.held c = ack.taken command.key c +
        { s with sentReliableCommands := before ++ after }.held c := by
      intro c
      rw [Sender.held, hsent, keysOn_remove hanswers, add_assoc]
      rfl
    have hmem : ∀ x ∈ before ++ after, x ∈ s.sentReliableCommands := by
      intro x hx
      rw [hsent]
      rcases List.mem_append.mp hx with hx | hx
      · exact List.mem_append_left _ hx
      · exact List.mem_append_right _ (List.mem_cons_of_mem _ hx)
    refine .inr ⟨command.key, hanswers.1, fun c => (release_held _ ack c).symm ▸ hheld c,
      fun c => release_fresh _ ack c, Sender.Sound.release hanswers.1 ?_
        (fun x hx => h.attempted x (hmem x hx)) (fun x hx => h.sentChannel x (hmem x hx))
        h.channel (fun c w => (h.count c w).trans (by rw [hheld c])) h.used⟩
    have hchannel := h.sentChannel command (hsent ▸ List.mem_append_right _ List.mem_cons_self)
    rwa [hanswers.2] at hchannel
  split
  · rename_i rest hremove
    obtain ⟨before, command, after, hout, rfl, hanswers, hattempted⟩ := removeRetry_split hremove
    have hheld : ∀ c, s.held c = ack.taken command.key c +
        { s with outgoingSendReliableCommands := before ++ after }.held c := by
      intro c
      simp only [Sender.held, hout, List.filter_append]
      rw [List.filter_cons_of_pos (by simpa using hattempted), keysOn_remove hanswers]
      abel
    have hmem : ∀ x ∈ before ++ after, x ∈ s.outgoingSendReliableCommands := by
      intro x hx
      rw [hout]
      rcases List.mem_append.mp hx with hx | hx
      · exact List.mem_append_left _ hx
      · exact List.mem_append_right _ (List.mem_cons_of_mem _ hx)
    refine .inr ⟨command.key, hanswers.1, fun c => (release_held _ ack c).symm ▸ hheld c,
      fun c => ?_, Sender.Sound.release hanswers.1 ?_ h.attempted h.sentChannel
        (fun x hx => h.channel x (hmem x hx)) (fun c w => (h.count c w).trans (by rw [hheld c]))
        h.used⟩
    · rw [release_fresh, Sender.fresh, Sender.fresh, hout]
      simp only [List.filter_append]
      rw [List.filter_cons_of_neg (by simpa using hattempted)]
    · have hchannel := h.channel command (hout ▸ List.mem_append_right _ List.mem_cons_self)
      rwa [hanswers.2] at hchannel
  · exact .inl rfl

/-- The numbers go on undisturbed. -/
theorem removeSentReliableCommand_number (s : Sender α) (ack : Acknowledgement) (c : ℕ) :
    (removeSentReliableCommand s ack).channelCount = s.channelCount ∧
      (removeSentReliableCommand s ack).outgoingUnsequencedGroup = s.outgoingUnsequencedGroup ∧
      ((removeSentReliableCommand s ack).channels c).outgoingReliableSequenceNumber =
        (s.channels c).outgoingReliableSequenceNumber := by
  have hrelease : ∀ s : Sender α, (s.release ack).channelCount = s.channelCount ∧
      (s.release ack).outgoingUnsequencedGroup = s.outgoingUnsequencedGroup ∧
      ((s.release ack).channels c).outgoingReliableSequenceNumber =
        (s.channels c).outgoingReliableSequenceNumber := by
    intro s
    unfold Sender.release
    split
    · obtain rfl | hne := eq_or_ne c ack.channelID
      · simp only [Function.update_self, OutgoingChannel.release]
        split <;> simp
      · simp [Function.update_of_ne hne]
    · simp
  unfold removeSentReliableCommand
  split
  · exact hrelease _
  split
  · exact hrelease _
  · simp

end

end Fnvmp.Enet
