import Fnvmp.Transport
import Mathlib.Algebra.BigOperators.Group.Finset.Basic
import Mathlib.Algebra.Order.BigOperators.Group.Finset
import Mathlib.Logic.Relation

/-!
# A link can always catch up

No order of events wedges the windows: from every state a run can be in there are further
passes, arrivals and acknowledgements after which everything sent reliably has been handed
over. What is behind is sent again and gets through; once nothing is behind, everything
held can be acknowledged; and with nothing held the next window opens.
-/

namespace Fnvmp.Enet

open Protocol SequenceWindow

variable {α : Type} {l l' : Link α} {s : Sender α} {channelCount c : ℕ}

/-- A step in which the game sends nothing. -/
def Goes (l l' : Link α) : Prop :=
  ∃ e, Fresh l e ∧ (∀ post, e ≠ .send post) ∧ l' = l.step e

theorem Goes.reaches (h : Reaches channelCount l) (hgo : Relation.ReflTransGen Goes l l') :
    Reaches channelCount l' := by
  induction hgo with
  | refl => exact h
  | tail _ hgo ih =>
    obtain ⟨e, hfresh, -, rfl⟩ := hgo
    exact ih.step e hfresh

theorem Goes.sent (hgo : Relation.ReflTransGen Goes l l') : l'.sent = l.sent := by
  induction hgo with
  | refl => rfl
  | @tail l' l'' _ hgo ih =>
    obtain ⟨e, -, hsend, rfl⟩ := hgo
    rw [← ih]
    cases e with
    | send post => exact absurd rfl (hsend post)
    | flush room => rfl
    | timeouts expired => rfl
    | command i full =>
      simp only [Link.step, Link.command]
      split <;> rfl
    | acknowledgement i =>
      simp only [Link.step, Link.acknowledgement]
      split <;> rfl
    | unsequenced i full =>
      simp only [Link.step, Link.arrive]
      split <;> rfl
    | receive =>
      simp only [Link.step, Link.receive]
      split <;> rfl

/-- What is in order stays in order. -/
theorem Goes.count_le (hgo : Relation.ReflTransGen Goes l l') (c : ℕ) : l.count c ≤ l'.count c := by
  induction hgo with
  | refl => exact le_rfl
  | @tail l' l'' _ hgo ih =>
    refine ih.trans ?_
    obtain ⟨e, -, hsend, rfl⟩ := hgo
    cases e with
    | send post => exact absurd rfl (hsend post)
    | flush room => exact le_rfl
    | timeouts expired => exact le_rfl
    | command i full =>
      simp only [Link.step, Link.command]
      split
      · exact le_rfl
      · rename_i copy _
        obtain ⟨more, hmore, -⟩ := (handleSendReliable_frame l'.receiver copy.content full).dispatched
        simp only [Link.count, Link.dispatched, hmore, reliableOn_append, List.length_append]
        omega
    | acknowledgement i =>
      simp only [Link.step, Link.acknowledgement]
      split <;> exact le_rfl
    | unsequenced i full =>
      simp only [Link.step, Link.arrive]
      split
      · exact le_rfl
      · rename_i copy _
        have hsame := (handleSendUnsequenced_frame l'.receiver copy.content full).2.2 c
        simp only [Link.count, Link.dispatched, hsame, reliableOn_append, le_refl]
    | receive =>
      simp only [Link.step, Link.receive, peerReceive]
      cases hposts : l'.receiver.dispatchedCommands with
      | nil => exact le_rfl
      | cons post rest => simp [Link.count, Link.dispatched, hposts]

/-! ## Commands that went out before stand in front -/

def Front (s : Sender α) : Prop :=
  s.outgoingSendReliableCommands.Pairwise fun x y => x.sendAttempts = 0 → y.sendAttempts = 0

theorem Front.peerSend {s' : Sender α} {post : Post α} {command : Option (UnsequencedCommand α)}
    (h : Front s) (hsend : peerSend s post = some (s', command)) : Front s' := by
  unfold Enet.peerSend at hsend
  split at hsend
  · cases hsend
  cases hflag : post.flag with
  | unsequenced =>
    rw [hflag] at hsend
    cases hsend
    exact h
  | reliable =>
    rw [hflag] at hsend
    cases hsend
    refine List.pairwise_append.mpr ⟨h, List.pairwise_singleton _ _, fun x _ y hy _ => ?_⟩
    rw [List.mem_singleton.mp hy]

theorem Front.flush (h : Front s) (room : ℕ) : Front (checkOutgoingCommands room s).1 :=
  checkOutgoingCommands_rule (fun s _ => Front s) (fun s _ _ _ hs hout _ => by
    unfold Front at hs
    rw [hout, List.pairwise_cons] at hs
    exact hs.2) room [] h

theorem Front.checkTimeouts (h : Front s) (hs : s.Sound) (expired : OutgoingCommand α → Bool) :
    Front (checkTimeouts s expired) := by
  have hattempted : ∀ x ∈ s.sentReliableCommands.filter expired, x.sendAttempts ≠ 0 :=
    fun x hx => hs.attempted x (List.mem_of_mem_filter hx)
  refine List.pairwise_append.mpr ⟨?_, h, fun x hx y _ hzero => absurd hzero (hattempted x hx)⟩
  exact List.pairwise_of_forall_mem_list fun x hx y _ hzero => absurd hzero (hattempted x hx)

theorem Front.removeSentReliableCommand (h : Front s) (ack : Acknowledgement) :
    Front (removeSentReliableCommand s ack) := by
  have hrelease : ∀ s : Sender α, Front s → Front (s.release ack) := by
    intro s hs
    unfold Sender.release
    split <;> exact hs
  unfold Enet.removeSentReliableCommand
  split
  · exact hrelease _ h
  split
  · rename_i rest hremove
    obtain ⟨before, command, after, hout, rfl, -⟩ := removeRetry_split hremove
    refine hrelease _ (List.Pairwise.sublist ?_ h)
    rw [hout]
    exact List.Sublist.append_left (List.sublist_cons_self _ _) before
  · exact h

theorem Reaches.front (h : Reaches channelCount l) : Front l.sender := by
  induction h with
  | start => exact .nil
  | @step l e hreach hfresh ih =>
    cases e with
    | send post =>
      simp only [Link.step, Link.send]
      split
      · exact ih
      · exact ih.peerSend ‹_›
    | flush room => exact ih.flush room
    | timeouts expired => exact ih.checkTimeouts hreach.inv.sound expired
    | command i full =>
      simp only [Link.step, Link.command]
      split <;> exact ih
    | acknowledgement i =>
      simp only [Link.step, Link.acknowledgement]
      split
      · exact ih
      · exact ih.removeSentReliableCommand _
    | unsequenced i full =>
      simp only [Link.step, Link.arrive]
      split <;> exact ih
    | receive =>
      simp only [Link.step, Link.receive]
      split <;> exact ih

theorem Front.split (h : Front s) : ∃ retries fresh,
    s.outgoingSendReliableCommands = retries ++ fresh ∧ (∀ x ∈ retries, x.sendAttempts ≠ 0) ∧
      ∀ x ∈ fresh, x.sendAttempts = 0 := by
  unfold Front at h
  generalize s.outgoingSendReliableCommands = commands at h
  induction commands with
  | nil => exact ⟨[], [], rfl, by simp, by simp⟩
  | cons x rest ih =>
    rw [List.pairwise_cons] at h
    by_cases hzero : x.sendAttempts = 0
    · refine ⟨[], x :: rest, rfl, by simp, fun y hy => ?_⟩
      rcases List.mem_cons.mp hy with rfl | hy
      · exact hzero
      · exact h.1 y hy hzero
    · obtain ⟨retries, fresh, rfl, hretries, hfresh⟩ := ih h.2
      refine ⟨x :: retries, fresh, rfl, fun y hy => ?_, hfresh⟩
      rcases List.mem_cons.mp hy with rfl | hy
      · exact hzero
      · exact hretries y hy

/-! ## Sending everything again -/

def OutgoingCommand.again (command : OutgoingCommand α) : OutgoingCommand α :=
  { command with sendAttempts := command.sendAttempts + 1 }

theorem checkOutgoingCommands_retries {retries fresh : List (OutgoingCommand α)}
    (hretries : ∀ x ∈ retries, x.sendAttempts ≠ 0)
    (hout : s.outgoingSendReliableCommands = retries ++ fresh) :
    checkOutgoingCommands retries.length s =
      ({ s with
          outgoingSendReliableCommands := fresh
          sentReliableCommands := s.sentReliableCommands ++ retries.map OutgoingCommand.again },
        retries.map OutgoingCommand.wire) := by
  induction retries generalizing s with
  | nil =>
    rw [List.nil_append] at hout
    simp [checkOutgoingCommands, ← hout]
  | cons x retries ih =>
    have hattempted : ¬x.sendAttempts < 1 := by
      have := hretries x List.mem_cons_self
      omega
    have htransmit : s.transmit x (retries ++ fresh) = { s with
        outgoingSendReliableCommands := retries ++ fresh
        sentReliableCommands := s.sentReliableCommands ++ [x.again] } := by
      simp only [Sender.transmit, if_neg hattempted, Function.update_eq_self]
      rfl
    rw [List.cons_append] at hout
    simp only [List.length_cons, checkOutgoingCommands, hout, hattempted, false_and, if_false]
    rw [htransmit, ih (fun y hy => hretries y (List.mem_cons_of_mem _ hy)) rfl]
    simp [List.append_assoc]

/-- How many commands are held. -/
def Sender.heldCount (s : Sender α) : ℕ :=
  s.sentReliableCommands.length +
    (s.outgoingSendReliableCommands.filter fun command => command.sendAttempts ≠ 0).length

theorem keysOn_again (commands : List (OutgoingCommand α)) :
    keysOn c (commands.map OutgoingCommand.again) = keysOn c commands := by
  simp only [keysOn, List.filter_map, List.map_map]
  rfl

/-- Everything held is on the wire anew. -/
theorem resend (h : Reaches channelCount l) :
    ∃ l', Relation.ReflTransGen Goes l l' ∧ l'.receiver = l.receiver ∧ l'.handed = l.handed ∧
      l'.sender.heldCount = l.sender.heldCount ∧
      (∀ c, l'.sender.held c = l.sender.held c) ∧
      (∀ c, l'.sender.fresh c = l.sender.fresh c) ∧
      (∀ x ∈ l'.sender.outgoingSendReliableCommands, x.sendAttempts = 0) ∧
      ∀ c, ∀ k ∈ l.sender.held c, (⟨⟨c, k.1, k.2⟩, l.count c⟩ : Copy _) ∈ l'.commands := by
  obtain ⟨retries, fresh, hout, hretries, hfresh⟩ := h.front.split
  have hkeep : retries.filter (fun x => x.sendAttempts ≠ 0) = retries :=
    List.filter_eq_self.mpr (by simpa using hretries)
  have hdrop : fresh.filter (fun x => x.sendAttempts ≠ 0) = [] :=
    List.filter_eq_nil_iff.mpr (by simpa using hfresh)
  have hnone : retries.filter (fun x => x.sendAttempts = 0) = [] :=
    List.filter_eq_nil_iff.mpr (by simpa using hretries)
  let all : OutgoingCommand α → Bool := fun _ => true
  have hall : (checkTimeouts l.sender all).outgoingSendReliableCommands =
      (l.sender.sentReliableCommands ++ retries) ++ fresh := by
    simp [checkTimeouts, all, hout]
  have hheld : ∀ x ∈ l.sender.sentReliableCommands ++ retries, x.sendAttempts ≠ 0 := by
    intro x hx
    rcases List.mem_append.mp hx with hx | hx
    · exact h.inv.sound.attempted x hx
    · exact hretries x hx
  have hpass := checkOutgoingCommands_retries hheld hall
  have hkeys : ∀ c, l.sender.held c =
      (keysOn c (l.sender.sentReliableCommands ++ retries) : Multiset (ℕ × α)) := by
    intro c
    rw [Sender.held, hout, List.filter_append, hkeep, hdrop, List.append_nil, keysOn_append,
      Multiset.coe_add]
  let l₁ : Link α := l.step (.timeouts all)
  let l₂ : Link α := l₁.step (.flush (l.sender.sentReliableCommands ++ retries).length)
  have hl₂ : l₂ = { l with
      sender := { l.sender with
        outgoingSendReliableCommands := fresh
        sentReliableCommands :=
          (l.sender.sentReliableCommands ++ retries).map OutgoingCommand.again }
      commands := l.commands ++ ((l.sender.sentReliableCommands ++ retries).map
        OutgoingCommand.wire).map fun x => ⟨x, l.count x.channelID⟩ } := by
    change Link.flush { l with sender := checkTimeouts l.sender all } _ = _
    unfold Link.flush
    rw [hpass]
    simp only [checkTimeouts, all, Bool.not_true, List.filter_false, List.nil_append]
    rfl
  refine ⟨l₂, .tail (.single ⟨.timeouts all, trivial, (fun _ h => by cases h), rfl⟩)
    ⟨.flush _, trivial, (fun _ h => by cases h), rfl⟩, ?_, ?_, ?_, fun c => ?_, fun c => ?_, ?_,
    fun c k hk => ?_⟩ <;> rw [hl₂]
  · simp only [Sender.heldCount, hout, List.length_map, List.length_append, List.filter_append,
      hkeep, hdrop, List.length_nil, Nat.add_zero]
  · rw [hkeys c, Sender.held]
    simp only [keysOn_again, hdrop, keysOn_nil, Multiset.coe_nil, add_zero]
  · simp only [Sender.fresh, hout, List.filter_append, hnone, List.nil_append]
  · exact hfresh
  · rw [hkeys c, Multiset.mem_coe, mem_keysOn] at hk
    obtain ⟨x, hx, rfl, rfl⟩ := hk
    refine List.mem_append_right _ (List.mem_map.mpr ⟨x.wire, List.mem_map_of_mem hx, rfl⟩)

/-! ## Getting through -/

theorem Link.count_le (h : LinkInv l) (c : ℕ) : l.count c ≤ (reliableOn c l.sent).length := by
  obtain ⟨t, d, q, hc⟩ := h.channels c
  rw [hc.count]
  exact hc.receives.le.trans hc.sends.le

theorem numbered_length (n : ℕ) (packets : List α) : (numbered n packets).length = packets.length := by
  induction packets generalizing n with
  | nil => rfl
  | cons packet rest ih => simp [numbered, ih]

/-- The packets that went out are those that are not fresh. -/
theorem ChannelInv.fresh_length {t d : ℕ} {q : List ℕ} (h : ChannelInv l c t d q) :
    t + (l.sender.fresh c).length = (reliableOn c l.sent).length := by
  rw [h.sends.fresh, numbered_length, List.length_drop, Nat.add_sub_cancel' h.sends.le]

/-- What is held stands in one of the queues. -/
theorem mem_held {k : ℕ × α} (hk : k ∈ s.held c) :
    (∃ x ∈ s.sentReliableCommands, x.channelID = c ∧ x.key = k) ∨
      ∃ x ∈ s.outgoingSendReliableCommands, x.sendAttempts ≠ 0 ∧ x.channelID = c ∧ x.key = k := by
  rcases Multiset.mem_add.mp hk with hk | hk
  · exact .inl (mem_keysOn.mp (Multiset.mem_coe.mp hk))
  · obtain ⟨x, hx, hchannel, hkey⟩ := mem_keysOn.mp (Multiset.mem_coe.mp hk)
    obtain ⟨hx, hattempted⟩ := List.mem_filter.mp hx
    exact .inr ⟨x, hx, by simpa using hattempted, hchannel, hkey⟩

theorem LinkInv.held_channel (h : LinkInv l) {k : ℕ × α} (hk : k ∈ l.sender.held c) :
    c < l.receiver.channelCount := by
  rw [← h.channelCount]
  obtain ⟨x, hx, rfl, -⟩ | ⟨x, hx, -, rfl, -⟩ := mem_held hk
  · exact h.sound.sentChannel x hx
  · exact h.sound.channel x hx

/-- Where a packet that went out has not got through, the next one can. -/
theorem deliver_next (h : Reaches channelCount l)
    (hbehind : l.count c + (l.sender.fresh c).length < (reliableOn c l.sent).length) :
    ∃ l', Relation.ReflTransGen Goes l l' ∧ l.count c < l'.count c := by
  obtain ⟨t, d, q, hc⟩ := h.inv.channels c
  have hlength := hc.fresh_length
  have hcount := hc.count
  rcases hc.got (d + 1) (Nat.succ_pos d) (by omega) with (hle | hmem) | ⟨k, hk, hnumbered, -⟩
  · omega
  · have := (hc.receives.ahead _ hmem).1
    omega
  obtain ⟨l₁, hgo, hreceiver, hhanded, -, hheld, -, -, hcopies⟩ := resend h
  obtain ⟨i, hi⟩ := List.getElem?_of_mem (hcopies c k hk)
  have hsame : l₁.count c = l.count c := by
    rw [Link.count, Link.dispatched, hreceiver, hhanded]
    rfl
  have hfresh : Fresh l₁ (.command i false) := by
    intro copy hcopy
    rw [hi] at hcopy
    cases hcopy
    exact hsame.le.trans (Nat.le_add_right _ _)
  refine ⟨l₁.step (.command i false), hgo.tail ⟨_, hfresh, (fun _ h => by cases h), rfl⟩, ?_⟩
  have hwindow : (d + 1) / peerReliableWindowSize ≤ d / peerReliableWindowSize + 6 ∧
      d / peerReliableWindowSize ≤ (d + 1) / peerReliableWindowSize + 9 := by
    unfold peerReliableWindowSize
    omega
  obtain ⟨d', q', hadvances, hgot⟩ := handleSendReliable_accepts hc.receives
    (rfl : (⟨c, k.1, k.2⟩ : ReliableCommand α).channelID = c) hnumbered (by omega)
    hwindow.1 hwindow.2 (h.inv.held_channel hk)
  have hnext : d + 1 ≤ d' := by
    rcases hgot with hle | hmem
    · exact hle
    · have := (hadvances.receives.ahead _ hmem).1
      have := hadvances.le
      omega
  have hmoved : l₁.step (.command i false) = { l₁ with
      receiver := (handleSendReliable l₁.receiver ⟨c, k.1, k.2⟩ false).1
      acknowledgements := (l₁.step (.command i false)).acknowledgements } := by
    simp only [Link.step, Link.command, hi]
  have hinv := hc.advance hadvances
  rw [hcount, hmoved]
  calc d < d' := hnext
    _ = Link.count { l with
        receiver := (handleSendReliable l.receiver ⟨c, k.1, k.2⟩ false).1 } c := hinv.count.symm
    _ = _ := by rw [Link.count, Link.count, Link.dispatched, Link.dispatched, hreceiver, hhanded]

/-! ## Letting go -/

theorem removeSent_of_mem {ack : Acknowledgement} {commands : List (OutgoingCommand α)}
    {x : OutgoingCommand α} (hx : x ∈ commands) (hanswers : x.answers ack) :
    ∃ rest, removeSent ack commands = some rest ∧ rest.length + 1 = commands.length := by
  induction commands with
  | nil => cases hx
  | cons y commands ih =>
    unfold removeSent
    by_cases hy : y.answers ack
    · exact ⟨commands, if_pos hy, rfl⟩
    · rcases List.mem_cons.mp hx with rfl | hx
      · exact absurd hanswers hy
      · obtain ⟨rest, hrest, hlength⟩ := ih hx
        refine ⟨y :: rest, ?_, by rw [List.length_cons, List.length_cons, hlength]⟩
        rw [if_neg hy, hrest]
        rfl

@[simp] theorem release_heldCount (s : Sender α) (ack : Acknowledgement) :
    (s.release ack).heldCount = s.heldCount := by
  unfold Sender.release
  split <;> rfl

/-- Every packet that went out has got through, on every channel. -/
def Settled (l : Link α) : Prop :=
  ∀ c, l.count c + (l.sender.fresh c).length = (reliableOn c l.sent).length

/-- Then whatever is held can be acknowledged, one command after the other. -/
theorem let_go_one (h : Reaches channelCount l) (hsettled : Settled l) {k : ℕ × α}
    (hk : k ∈ l.sender.held c) :
    ∃ l', Relation.ReflTransGen Goes l l' ∧ l'.sender.heldCount + 1 = l.sender.heldCount ∧
      (∀ c, l'.sender.fresh c = l.sender.fresh c) ∧ ∀ c, l'.count c = l.count c := by
  obtain ⟨t, d, q, hc⟩ := h.inv.channels c
  have hlength := hc.fresh_length
  have hcount := hc.count
  have hall := hsettled c
  obtain ⟨n, hn, hnumbered, hnear⟩ := hc.sends.held k hk
  have htd : t = d := by omega
  subst htd
  obtain ⟨l₁, hgo, hreceiver, hhanded, htotal, hheld, hfresh, hnone, hcopies⟩ := resend h
  have hcount₁ : ∀ c, l₁.count c = l.count c := by
    intro c
    rw [Link.count, Link.dispatched, hreceiver, hhanded]
    rfl
  obtain ⟨i, hi⟩ := List.getElem?_of_mem (hcopies c k hk)
  -- the copy is answered, the receiver as it was
  have hagain := handleSendReliable_again hc.receives
    (rfl : (⟨c, k.1, k.2⟩ : ReliableCommand α).channelID = c) hnumbered.1 hn
    (hnear.trans (Nat.add_le_add_left (by decide) _)) (h.inv.held_channel hk) false
  let ack : Acknowledgement := ⟨c, n % uint16Size⟩
  let l₂ : Link α := { l₁ with acknowledgements := l₁.acknowledgements ++ [⟨ack, l₁.count c⟩] }
  have hl₂ : l₁.step (.command i false) = l₂ := by
    simp only [Link.step, Link.command, hi, hreceiver, hagain]
    simp only [Option.map_some, Option.toList_some, l₂, ack, ← hreceiver]
  have hfresh₁ : Fresh l₁ (.command i false) := by
    intro copy hcopy
    rw [hi] at hcopy
    cases hcopy
    exact (hcount₁ c).le.trans (Nat.le_add_right _ _)
  -- the answer takes the command out of the queue
  obtain ⟨x, hx, hchannel, hkey⟩ : ∃ x ∈ l₁.sender.sentReliableCommands,
      x.channelID = c ∧ x.key = k := by
    rcases mem_held ((hheld c).symm ▸ hk) with hsent | ⟨x, hx, hattempted, -⟩
    · exact hsent
    · exact absurd (hnone x hx) hattempted
  have hanswers : x.answers ack := ⟨(congrArg Prod.fst hkey).trans hnumbered.1, hchannel⟩
  obtain ⟨rest, hremove, hrest⟩ := removeSent_of_mem hx hanswers
  have hget : l₂.acknowledgements[l₁.acknowledgements.length]? = some ⟨ack, l₁.count c⟩ :=
    List.getElem?_concat_length
  have hsender : (l₂.step (.acknowledgement l₁.acknowledgements.length)).sender =
      { l₁.sender with sentReliableCommands := rest }.release ack := by
    simp only [Link.step, Link.acknowledgement, hget, removeSentReliableCommand]
    rw [show l₂.sender = l₁.sender from rfl, hremove]
  have hothers : (l₂.step (.acknowledgement l₁.acknowledgements.length)).dispatched =
      l₁.dispatched := by
    simp only [Link.step, Link.acknowledgement, hget]
    rfl
  have hfresh₂ : Fresh l₂ (.acknowledgement l₁.acknowledgements.length) := by
    intro copy hcopy
    rw [hget] at hcopy
    cases hcopy
    exact Nat.le_add_right _ _
  refine ⟨l₂.step (.acknowledgement l₁.acknowledgements.length),
    (hgo.tail ⟨_, hfresh₁, (fun _ h => by cases h), hl₂.symm⟩).tail
      ⟨_, hfresh₂, (fun _ h => by cases h), rfl⟩,
    ?_, fun c => ?_, fun c => ?_⟩
  · rw [hsender, release_heldCount, ← htotal, Sender.heldCount, Sender.heldCount]
    simp only
    omega
  · rw [hsender, release_fresh, ← hfresh c]
    rfl
  · rw [← hcount₁ c, Link.count, hothers]
    rfl

theorem exists_held (h : s.heldCount ≠ 0) : ∃ c k, k ∈ s.held c := by
  unfold Sender.heldCount at h
  by_cases hsent : s.sentReliableCommands = []
  · rw [hsent, List.length_nil, Nat.zero_add, ne_eq, List.length_eq_zero_iff] at h
    obtain ⟨x, hx⟩ := List.exists_mem_of_ne_nil _ h
    exact ⟨x.channelID, x.key, Multiset.mem_add.mpr (.inr (Multiset.mem_coe.mpr
      (mem_keysOn.mpr ⟨x, hx, rfl, rfl⟩)))⟩
  · obtain ⟨x, hx⟩ := List.exists_mem_of_ne_nil _ hsent
    exact ⟨x.channelID, x.key, Multiset.mem_add.mpr (.inl (Multiset.mem_coe.mpr
      (mem_keysOn.mpr ⟨x, hx, rfl, rfl⟩)))⟩

theorem let_go (h : Reaches channelCount l) (hsettled : Settled l) :
    ∃ l', Relation.ReflTransGen Goes l l' ∧ l'.sender.heldCount = 0 ∧
      (∀ c, l'.sender.fresh c = l.sender.fresh c) ∧ ∀ c, l'.count c = l.count c := by
  generalize hm : l.sender.heldCount = m
  induction m generalizing l with
  | zero => exact ⟨l, .refl, hm, fun _ => rfl, fun _ => rfl⟩
  | succ m ih =>
    obtain ⟨c, k, hk⟩ := exists_held (by omega : l.sender.heldCount ≠ 0)
    obtain ⟨l₁, hgo, hless, hfresh, hcount⟩ := let_go_one h hsettled hk
    have hsettled₁ : Settled l₁ := by
      intro c
      rw [hcount, hfresh, Goes.sent hgo]
      exact hsettled c
    obtain ⟨l₂, hgo', hzero, hfresh', hcount'⟩ := ih (Goes.reaches h hgo) hsettled₁ (by omega)
    exact ⟨l₂, hgo.trans hgo', hzero, fun c => (hfresh' c).trans (hfresh c),
      fun c => (hcount' c).trans (hcount c)⟩

/-! ## Opening a window -/

theorem Sender.Sound.windowWrap_of_held (h : s.Sound) (hheld : s.held c = 0) (w : ℕ) :
    windowWrap (s.channels c) w = false := by
  have hcount : ∀ w, (s.channels c).reliableWindows w = 0 := by
    intro w
    rw [h.count, hheld, Multiset.countP_zero]
  have hused : (s.channels c).usedReliableWindows = 0#16 := by
    apply BitVec.eq_of_getLsbD_eq
    intro i hi
    rw [h.used c i hi, hcount i]
    simp
  simp [windowWrap, hcount, hused, peerReliableWindowSize]

/-- With nothing held, the first of the queue goes out, whatever its number. -/
theorem open_window (h : Reaches channelCount l) (hzero : l.sender.heldCount = 0)
    (hsettled : Settled l) (hfresh : l.sender.fresh c ≠ []) :
    ∃ l' c', Relation.ReflTransGen Goes l l' ∧ (∀ c, l'.count c = l.count c) ∧
      l'.count c' + (l'.sender.fresh c').length < (reliableOn c' l'.sent).length := by
  obtain ⟨hsent, hretries⟩ := Nat.add_eq_zero_iff.mp hzero
  rw [List.length_eq_zero_iff] at hsent hretries
  have hheld : ∀ c, l.sender.held c = 0 := by
    intro c
    simp only [Sender.held, hsent, hretries, keysOn_nil, Multiset.coe_nil, add_zero]
  cases hout : l.sender.outgoingSendReliableCommands with
  | nil =>
    rw [Sender.fresh, hout] at hfresh
    exact absurd rfl hfresh
  | cons x rest =>
    have hnew : x.sendAttempts = 0 := by
      have hx := List.filter_eq_nil_iff.mp hretries x (hout ▸ List.mem_cons_self)
      simpa using hx
    have hpass : checkOutgoingCommands 1 l.sender = (l.sender.transmit x rest, [x.wire]) := by
      simp [checkOutgoingCommands, hout, h.inv.sound.windowWrap_of_held (hheld x.channelID)]
    have hstep : l.step (.flush 1) = l.transmit x rest := by
      simp only [Link.step, Link.flush, hpass, Link.transmit, List.map_singleton]
      rfl
    have htake := transmit_fresh hout x.channelID
    rw [OutgoingCommand.first, if_pos ⟨hnew, rfl⟩] at htake
    refine ⟨l.transmit x rest, x.channelID,
      .single ⟨.flush 1, trivial, (fun _ h => by cases h), hstep.symm⟩, fun _ => rfl, ?_⟩
    have hall := hsettled x.channelID
    rw [htake, List.length_append, List.length_singleton] at hall
    change l.count x.channelID + ((l.sender.transmit x rest).fresh x.channelID).length < _
    change _ < (reliableOn x.channelID l.sent).length
    omega

/-! ## Catching up -/

/-- How many packets are not in order yet, of those sent. -/
def Link.behind (l : Link α) : ℕ :=
  ∑ c ∈ (l.sent.map Post.channelID).toFinset, ((reliableOn c l.sent).length - l.count c)

theorem Link.behind_lt (hgo : Relation.ReflTransGen Goes l l')
    (hlt : l.count c < l'.count c) (hle : l'.count c ≤ (reliableOn c l.sent).length) :
    l'.behind < l.behind := by
  have hsent := Goes.sent hgo
  unfold Link.behind
  rw [hsent]
  refine Finset.sum_lt_sum (fun c _ => Nat.sub_le_sub_left (Goes.count_le hgo c) _)
    ⟨c, ?_, by omega⟩
  have hne : reliableOn c l.sent ≠ [] := by
    intro hnil
    rw [hnil, List.length_nil] at hle
    omega
  obtain ⟨packet, hmem⟩ := List.exists_mem_of_ne_nil _ hne
  obtain ⟨post, hpost, -⟩ := List.mem_map.mp hmem
  obtain ⟨hpost, hon⟩ := List.mem_filter.mp hpost
  rw [List.mem_toFinset, List.mem_map]
  exact ⟨post, hpost, (of_decide_eq_true hon).2⟩

theorem put_in_order (h : Reaches channelCount l) :
    ∃ l', Relation.ReflTransGen Goes l l' ∧
      ∀ c, l'.count c = (reliableOn c l'.sent).length := by
  generalize hm : l.behind = m
  induction m using Nat.strong_induction_on generalizing l with
  | _ m ih =>
    -- one more packet in order, then the rest
    have hnext : ∀ {l₁ : Link α} {c : ℕ}, Relation.ReflTransGen Goes l l₁ →
        (∀ c, l.count c ≤ l₁.count c) →
        l₁.count c + (l₁.sender.fresh c).length < (reliableOn c l₁.sent).length →
        ∃ l', Relation.ReflTransGen Goes l l' ∧ ∀ c, l'.count c = (reliableOn c l'.sent).length := by
      intro l₁ c hgo hcount hlag
      obtain ⟨l₂, hgo', hlt⟩ := deliver_next (Goes.reaches h hgo) hlag
      have hgo₂ := hgo.trans hgo'
      have hle := Link.count_le (Goes.reaches h hgo₂).inv c
      rw [Goes.sent hgo₂] at hle
      have hless := Link.behind_lt hgo₂ ((hcount c).trans_lt hlt) hle
      obtain ⟨l₃, hgo₃, hdone⟩ := ih l₂.behind (hm ▸ hless) (Goes.reaches h hgo₂) rfl
      exact ⟨l₃, hgo₂.trans hgo₃, hdone⟩
    by_cases hsettled : Settled l
    · by_cases hdone : ∀ c, l.sender.fresh c = []
      · refine ⟨l, .refl, fun c => ?_⟩
        have hall := hsettled c
        rwa [hdone c, List.length_nil, Nat.add_zero] at hall
      · obtain ⟨c, hc⟩ := not_forall.mp hdone
        obtain ⟨l₁, hgo, hzero, hfresh, hcount⟩ := let_go h hsettled
        have hsettled₁ : Settled l₁ := by
          intro c
          rw [hcount, hfresh, Goes.sent hgo]
          exact hsettled c
        obtain ⟨l₂, c', hgo', hcount', hlag⟩ :=
          open_window (Goes.reaches h hgo) hzero hsettled₁ (c := c) (by rwa [hfresh c])
        exact hnext (hgo.trans hgo') (fun c => Goes.count_le (hgo.trans hgo') c) hlag
    · obtain ⟨c, hc⟩ := not_forall.mp hsettled
      obtain ⟨t, d, q, hinv⟩ := h.inv.channels c
      have hlength := hinv.fresh_length
      have hle := hinv.receives.le
      have hcount := hinv.count
      exact hnext .refl (fun _ => le_rfl) (c := c) (by omega)

/-- The game takes all that is in order. -/
theorem take_all (l : Link α) : ∃ l', Relation.ReflTransGen Goes l l' ∧ l'.handed = l.dispatched := by
  generalize hm : l.receiver.dispatchedCommands = posts
  induction posts generalizing l with
  | nil => exact ⟨l, .refl, by rw [Link.dispatched, hm, List.append_nil]⟩
  | cons post rest ih =>
    have hstep : l.step .receive = { l with
        receiver := { l.receiver with dispatchedCommands := rest }
        handed := l.handed ++ [post] } := by
      simp only [Link.step, Link.receive, peerReceive, hm]
    obtain ⟨l', hgo, hhanded⟩ := ih (l.step .receive) (by rw [hstep])
    refine ⟨l', .head ⟨.receive, trivial, (fun _ h => by cases h), rfl⟩ hgo, ?_⟩
    rw [hhanded, hstep, Link.dispatched, Link.dispatched, hm, List.append_assoc,
      List.singleton_append]

/-- From every state of every run the connection can still hand over everything that was sent
reliably, in order. -/
theorem catches_up (h : Reaches channelCount l) :
    ∃ l', Relation.ReflTransGen Goes l l' ∧ l'.sent = l.sent ∧
      ∀ c, reliableOn c l'.handed = reliableOn c l.sent := by
  obtain ⟨l₁, hgo, hdone⟩ := put_in_order h
  obtain ⟨l₂, hgo', hhanded⟩ := take_all l₁
  refine ⟨l₂, hgo.trans hgo', Goes.sent (hgo.trans hgo'), fun c => ?_⟩
  obtain ⟨t, d, q, hc⟩ := (Goes.reaches h hgo).inv.channels c
  rw [hhanded, hc.dispatched, ← Goes.sent hgo]
  exact List.take_of_length_le (by rw [← hdone c, hc.count])

set_option maxRecDepth 4000 in
theorem catches_up_overtaking :
    ∃ l', Relation.ReflTransGen Goes ((Link.start 3).run (overtaking.take 6)) l' ∧
      reliableOn 1 l'.handed = [10, 20] := by
  obtain ⟨l', hgo, -, hhanded⟩ := catches_up
    (Reaches.start.run (by decide : Timely (Link.start 3) (overtaking.take 6)))
  exact ⟨l', hgo, (hhanded 1).trans (by decide)⟩

end Fnvmp.Enet
