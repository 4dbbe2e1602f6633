import Fnvmp.EnetLink

/-!
# What every event of a link keeps

One lemma for each event on one reliable channel, the counters of the sender with it.
-/

namespace Fnvmp.Enet

open Protocol SequenceWindow

variable {α : Type} {l l' : Link α} {c t d : ℕ} {q : List ℕ}

/-! ## Sending -/

/-- Packets added at the end disturb nothing that is under way. -/
theorem ChannelInv.extend (h : ChannelInv l c t d q) (more : List α)
    (hsent : reliableOn c l'.sent = reliableOn c l.sent ++ more)
    (hsends : Sends (reliableOn c l.sent ++ more) l'.sender c t)
    (hheld : l'.sender.held c = l.sender.held c) (hreceiver : l'.receiver = l.receiver)
    (hhanded : l'.handed = l.handed) (hcommands : l'.commands = l.commands)
    (hacks : l'.acknowledgements = l.acknowledgements) : ChannelInv l' c t d q where
  sends := hsent ▸ hsends
  receives := by
    rw [hsent, hreceiver]
    exact ⟨h.receives.low, h.receives.tracks.append_packets more, h.receives.sorted,
      h.receives.ahead, h.receives.le⟩
  dispatched := by
    rw [hsent, List.take_append_of_le_length (h.receives.le.trans h.sends.le), ← h.dispatched,
      Link.dispatched, Link.dispatched, hreceiver, hhanded]
  got n hpos hn := by
    rw [hsent, hheld]
    rcases h.got n hpos hn with hgot | ⟨k, hk, hnumbered, hnear⟩
    · exact .inl hgot
    · exact .inr ⟨k, hk, hnumbered.append more, hnear⟩
  commands copy hcopy hchannel := by
    rw [hsent]
    obtain ⟨n, hn, hnumbered, hstamp⟩ := h.commands copy (hcommands ▸ hcopy) hchannel
    exact ⟨n, hn, hnumbered.append more, hstamp⟩
  acknowledgements copy hcopy := h.acknowledgements copy (hacks ▸ hcopy)

theorem Sends.append {packets : List α} {s : Sender α} (h : Sends packets s c t) (packet : α) :
    Sends (packets ++ [packet]) (setupOutgoingCommand s c packet) c t where
  number := by
    rw [(setupOutgoingCommand_channels s c c packet).1, if_pos rfl, Sender.next, h.number,
      Nat.mod_add_mod, List.length_append, List.length_singleton]
  fresh := by
    rw [setupOutgoingCommand_fresh, if_pos rfl, h.fresh, List.drop_append_of_le_length h.le,
      numbered_append, List.length_drop, Nat.add_sub_cancel' h.le, Sender.next, h.number,
      Nat.mod_add_mod]
    rfl
  le := h.le.trans (by simp)
  held k hk := by
    rw [setupOutgoingCommand_held] at hk
    obtain ⟨n, hn, hnumbered, hnear⟩ := h.held k hk
    exact ⟨n, hn, hnumbered.append _, hnear⟩

theorem Sends.setup_ne {packets : List α} {s : Sender α} (h : Sends packets s c t) {c' : ℕ}
    (hne : c ≠ c') (packet : α) : Sends packets (setupOutgoingCommand s c' packet) c t where
  number := by
    rw [(setupOutgoingCommand_channels s c' c packet).1, if_neg hne]
    exact h.number
  fresh := by
    rw [setupOutgoingCommand_fresh, if_neg hne.symm, List.append_nil]
    exact h.fresh
  le := h.le
  held k hk := h.held k (by rwa [setupOutgoingCommand_held] at hk)

theorem ChannelInv.send (h : ChannelInv l c t d q) (post : Post α) :
    ChannelInv (l.send post) c t d q := by
  unfold Link.send peerSend
  by_cases hcount : l.sender.channelCount ≤ post.channelID
  · rw [if_pos hcount]
    exact h
  rw [if_neg hcount]
  cases hflag : post.flag with
  | unsequenced =>
    have hnone : reliableOn c [post] = [] := by simp [reliableOn_singleton, hflag]
    refine h.extend [] ?_ ?_ rfl rfl rfl rfl rfl
    · rw [reliableOn_append, hnone]
    · rw [List.append_nil]
      exact ⟨h.sends.number, h.sends.fresh, h.sends.le, h.sends.held⟩
  | reliable =>
    by_cases hchannel : post.channelID = c
    · subst hchannel
      refine h.extend [post.packet] ?_ (h.sends.append post.packet)
        (setupOutgoingCommand_held ..) rfl rfl rfl rfl
      simp [reliableOn_singleton, hflag]
    · refine h.extend [] ?_ ?_ (setupOutgoingCommand_held ..) rfl rfl rfl rfl
      · simp [reliableOn_singleton, hchannel]
      · rw [List.append_nil]
        exact h.sends.setup_ne (Ne.symm hchannel) post.packet

/-! ## Going out -/

section

variable {command : OutgoingCommand α} {rest : List (OutgoingCommand α)}

/-- The window rule keeps what is held near, past the end of a window too. -/
theorem Near.succ {s : Sender α} {k : ℕ × α} {n : ℕ} (hnear : Near t n) (hs : s.Sound)
    (hk : k ∈ s.held c) (hnumber : k.1 = n % uint16Size)
    (hcommand : command.reliableSequenceNumber = (t + 1) % uint16Size)
    (hfirst : command.sendAttempts = 0) (hchannel : command.channelID = c)
    (hwait : ¬(command.sendAttempts < 1 ∧
      command.reliableSequenceNumber % peerReliableWindowSize = 0 ∧
      windowWrap (s.channels command.channelID) (window command.key))) : Near (t + 1) n := by
  by_contra hfar
  unfold Near peerReliableWindowSize at hnear hfar
  have hwrap : windowWrap (s.channels c) (window command.key) = false := by
    by_contra hwrap
    refine hwait ⟨by omega, ?_, hchannel ▸ Bool.of_not_eq_false hwrap⟩
    rw [hcommand]
    unfold uint16Size peerReliableWindowSize
    omega
  have hlt : window command.key < 16 := by
    rw [window, OutgoingCommand.key, hcommand]
    unfold uint16Size peerReliableWindowSize
    omega
  apply hs.unused_of_windowWrap hlt (show 9 < 10 by decide) hwrap hk
  rw [window, window, OutgoingCommand.key, hcommand, hnumber]
  unfold uint16Size peerReliableWindowSize
  omega

theorem first_eq_nil (h : ¬(command.sendAttempts = 0 ∧ command.channelID = c)) :
    command.first c = [] := if_neg h

/-- The link after one command has gone out. -/
def Link.transmit (l : Link α) (command : OutgoingCommand α) (rest : List (OutgoingCommand α)) :
    Link α :=
  { l with
    sender := l.sender.transmit command rest
    commands := l.commands ++ [⟨command.wire, l.count command.channelID⟩] }

/-- A command of another channel, or one that goes out again. -/
theorem ChannelInv.transmit_again (h : ChannelInv l c t d q)
    (hout : l.sender.outgoingSendReliableCommands = command :: rest)
    (hfirst : ¬(command.sendAttempts = 0 ∧ command.channelID = c)) :
    ChannelInv (l.transmit command rest) c t d q := by
  have hheld : (l.sender.transmit command rest).held c = l.sender.held c := by
    rw [transmit_held hout, first_eq_nil hfirst, Multiset.coe_nil, zero_add]
  refine ⟨⟨?_, ?_, h.sends.le, ?_⟩, h.receives, h.dispatched, ?_, ?_, h.acknowledgements⟩
  · change ((l.sender.transmit command rest).channels c).outgoingReliableSequenceNumber = _
    rw [transmit_channels, if_neg hfirst]
    exact h.sends.number
  · have hfresh := transmit_fresh hout c
    rw [first_eq_nil hfirst, List.nil_append] at hfresh
    exact hfresh.symm.trans h.sends.fresh
  · exact hheld ▸ h.sends.held
  · exact hheld ▸ h.got
  · intro copy hcopy hchannel
    rcases List.mem_append.mp hcopy with hcopy | hcopy
    · exact h.commands copy hcopy hchannel
    · rw [List.mem_singleton.mp hcopy] at hchannel ⊢
      have hattempted : command.sendAttempts ≠ 0 := fun hzero => hfirst ⟨hzero, hchannel⟩
      have hkey : command.key ∈ l.sender.held c := by
        refine Multiset.mem_add.mpr (.inr (Multiset.mem_coe.mpr (mem_keysOn.mpr
          ⟨command, List.mem_filter.mpr ⟨?_, by simpa using hattempted⟩, hchannel, rfl⟩)))
        exact hout ▸ List.mem_cons_self
      obtain ⟨n, hn, hnumbered, hnear⟩ := h.sends.held _ hkey
      have hcount : l.count command.channelID = d := by
        rw [show command.channelID = c from hchannel]
        exact h.count
      refine ⟨n, hn, hnumbered, hcount.le, ?_⟩
      rw [hcount]
      exact (Nat.div_le_div_right h.receives.le).trans hnear

/-- The next fresh command of the channel. -/
theorem ChannelInv.transmit_first (h : ChannelInv l c t d q) (hs : l.sender.Sound)
    (hout : l.sender.outgoingSendReliableCommands = command :: rest)
    (hwait : ¬(command.sendAttempts < 1 ∧
      command.reliableSequenceNumber % peerReliableWindowSize = 0 ∧
      windowWrap (l.sender.channels command.channelID) (window command.key)))
    (hfirst : command.sendAttempts = 0 ∧ command.channelID = c) :
    ChannelInv (l.transmit command rest) c (t + 1) d q := by
  have hfresh := transmit_fresh hout c
  rw [OutgoingCommand.first, if_pos hfirst, List.singleton_append, h.sends.fresh] at hfresh
  obtain ⟨hlt, hkey, hrest⟩ : t < (reliableOn c l.sent).length ∧
      Numbered (reliableOn c l.sent) command.key.1 command.key.2 (t + 1) ∧
      (l.sender.transmit command rest).fresh c =
        numbered (t + 1) ((reliableOn c l.sent).drop (t + 1)) := by
    rcases Nat.lt_or_ge t (reliableOn c l.sent).length with hlt | hge
    · rw [List.drop_eq_getElem_cons hlt, numbered, List.cons.injEq] at hfresh
      rw [← hfresh.1]
      exact ⟨hlt, ⟨rfl, Nat.succ_pos t, by simp [hlt]⟩, hfresh.2.symm⟩
    · rw [List.drop_eq_nil_of_le hge] at hfresh
      cases hfresh
  have hheld : (l.sender.transmit command rest).held c = command.key ::ₘ l.sender.held c := by
    rw [transmit_held hout, OutgoingCommand.first, if_pos hfirst, Multiset.coe_singleton,
      Multiset.singleton_add]
  have hsucc : ∀ k ∈ l.sender.held c, ∀ n, Numbered (reliableOn c l.sent) k.1 k.2 n → Near t n →
      Near (t + 1) n := fun k hk n hnumbered hnear =>
    hnear.succ hs hk hnumbered.1 hkey.1 hfirst.1 hfirst.2 hwait
  have hself : Near (t + 1) (t + 1) := Nat.le_add_right _ 6
  refine ⟨⟨?_, hrest, hlt, ?_⟩, ?_, h.dispatched, ?_, ?_, ?_⟩
  · change ((l.sender.transmit command rest).channels c).outgoingReliableSequenceNumber = _
    rw [transmit_channels, if_pos hfirst]
    exact h.sends.number
  · intro k hk
    rcases Multiset.mem_cons.mp (hheld ▸ hk) with rfl | hk
    · exact ⟨t + 1, le_rfl, hkey, hself⟩
    · obtain ⟨n, hn, hnumbered, hnear⟩ := h.sends.held k hk
      exact ⟨n, by omega, hnumbered, hsucc k hk n hnumbered hnear⟩
  · refine ⟨h.receives.low, h.receives.tracks, h.receives.sorted, fun n hn => ?_,
      h.receives.le.trans (Nat.le_succ t)⟩
    obtain ⟨hdn, hnt, hwindow⟩ := h.receives.ahead n hn
    exact ⟨hdn, by omega, hwindow⟩
  · intro n hpos hn
    change _ ∨ ∃ k ∈ (l.sender.transmit command rest).held c, _
    rw [hheld]
    rcases Nat.lt_or_eq_of_le hn with hn | rfl
    · rcases h.got n hpos (Nat.le_of_lt_succ hn) with hgot | ⟨k, hk, hnumbered, hnear⟩
      · exact .inl hgot
      · exact .inr ⟨k, Multiset.mem_cons_of_mem hk, hnumbered, hsucc k hk n hnumbered hnear⟩
    · exact .inr ⟨command.key, Multiset.mem_cons_self _ _, hkey, hself⟩
  · intro copy hcopy hchannel
    rcases List.mem_append.mp hcopy with hcopy | hcopy
    · obtain ⟨n, hn, hrest⟩ := h.commands copy hcopy hchannel
      exact ⟨n, by omega, hrest⟩
    · rw [List.mem_singleton.mp hcopy]
      have hcount : l.count command.channelID = d := hfirst.2 ▸ h.count
      refine ⟨t + 1, le_rfl, hkey, hcount.le, ?_⟩
      rw [hcount]
      have hle : d ≤ t + 1 := h.receives.le.trans (Nat.le_succ t)
      exact (Nat.div_le_div_right hle).trans (Nat.le_add_right _ 6)
  · intro copy hcopy hchannel
    obtain ⟨n, hn, hrest⟩ := h.acknowledgements copy hcopy hchannel
    exact ⟨n, by omega, hrest⟩

/-- A whole pass. -/
theorem flush_inv (hs : l.sender.Sound) (h : ∀ c, ∃ t d q, ChannelInv l c t d q) (room : ℕ) :
    (l.flush room).sender.Sound ∧ (∀ c, ∃ t d q, ChannelInv (l.flush room) c t d q) := by
  let P : Sender α → List (ReliableCommand α) → Prop := fun s out => s.Sound ∧ ∀ c, ∃ t d q,
    ChannelInv { l with
      sender := s
      commands := l.commands ++ out.map fun x => ⟨x, l.count x.channelID⟩ } c t d q
  have hstart : P l.sender [] := by
    refine ⟨hs, fun c => ?_⟩
    simpa using h c
  refine checkOutgoingCommands_rule P (fun s out command rest hP hout hwait => ?_) room [] hstart
  obtain ⟨hs, hchannels⟩ := hP
  refine ⟨hs.transmit hout, fun c => ?_⟩
  obtain ⟨t, d, q, hc⟩ := hchannels c
  have hlink : ∀ t, ChannelInv (Link.transmit { l with
      sender := s
      commands := l.commands ++ out.map fun x => ⟨x, l.count x.channelID⟩ } command rest) c t d q →
      ∃ t d q, ChannelInv { l with
        sender := s.transmit command rest
        commands := l.commands ++
          (out ++ [command.wire]).map fun x => ⟨x, l.count x.channelID⟩ } c t d q := by
    intro t h
    rw [List.map_append, ← List.append_assoc]
    exact ⟨t, d, q, h⟩
  by_cases hfirst : command.sendAttempts = 0 ∧ command.channelID = c
  · exact hlink (t + 1) (hc.transmit_first hs hout hwait hfirst)
  · exact hlink t (hc.transmit_again hout hfirst)

end

/-! ## Timeouts -/

theorem ChannelInv.timeouts (h : ChannelInv l c t d q) (hs : l.sender.Sound)
    (expired : OutgoingCommand α → Bool) :
    ChannelInv { l with sender := checkTimeouts l.sender expired } c t d q := by
  have hheld := checkTimeouts_held hs expired c
  refine ⟨⟨h.sends.number, ?_, h.sends.le, hheld ▸ h.sends.held⟩, h.receives, h.dispatched,
    hheld ▸ h.got, h.commands, h.acknowledgements⟩
  rw [checkTimeouts_fresh hs]
  exact h.sends.fresh

/-! ## Arrivals -/

/-- What reached the receiver by its own doing, on a channel it does not concern. -/
theorem ChannelInv.frame (h : ChannelInv l c t d q) {receiver : Receiver α}
    (hchannel : receiver.channels c = l.receiver.channels c)
    (hdispatched : reliableOn c receiver.dispatchedCommands =
      reliableOn c l.receiver.dispatchedCommands) :
    ChannelInv { l with receiver } c t d q := by
  refine ⟨h.sends, ⟨?_, ?_, h.receives.sorted, h.receives.ahead, h.receives.le⟩, ?_, h.got,
    h.commands, h.acknowledgements⟩
  · rw [hchannel]
    exact h.receives.low
  · rw [hchannel]
    exact h.receives.tracks
  · have hbefore := h.dispatched
    simp only [Link.dispatched, reliableOn_append] at hbefore ⊢
    rw [hdispatched, hbefore]

/-- The channel after its receiver has moved on. -/
theorem ChannelInv.advance (h : ChannelInv l c t d q) {receiver : Receiver α} {d' : ℕ} {q' : List ℕ}
    (hadvances : Advances (reliableOn c l.sent) c t l.receiver receiver d d' q q') :
    ChannelInv { l with receiver } c t d' q' := by
  refine ⟨h.sends, hadvances.receives, ?_, fun n hpos hn => (h.got n hpos hn).imp_left
    (hadvances.got n), fun copy hcopy hchannel => ?_, fun copy hcopy hchannel => ?_⟩
  · have hbefore := h.dispatched
    simp only [Link.dispatched, reliableOn_append] at hbefore ⊢
    rw [hadvances.dispatched, reliableOn_append, reliableOn_map, if_pos rfl, ← List.append_assoc,
      hbefore, ← List.take_add, Nat.add_sub_cancel' hadvances.le]
  · obtain ⟨n, hn, hnumbered, hle, hnear⟩ := h.commands copy hcopy hchannel
    exact ⟨n, hn, hnumbered, hle.trans hadvances.le, hnear⟩
  · obtain ⟨n, hn, hnumber, hgot, hle, hnear⟩ := h.acknowledgements copy hcopy hchannel
    exact ⟨n, hn, hnumber, hadvances.got n hgot, hle.trans hadvances.le, hnear⟩

theorem ChannelInv.acknowledge (h : ChannelInv l c t d q) {ack : Copy Acknowledgement}
    (hack : ack.content.channelID = c → ∃ n ≤ t,
      ack.content.receivedReliableSequenceNumber = n % uint16Size ∧ Got d q n ∧ ack.stamp ≤ d ∧
        ack.stamp / peerReliableWindowSize ≤ n / peerReliableWindowSize + 7) :
    ChannelInv { l with acknowledgements := l.acknowledgements ++ [ack] } c t d q := by
  refine ⟨h.sends, h.receives, h.dispatched, h.got, h.commands, fun copy hcopy hchannel => ?_⟩
  rcases List.mem_append.mp hcopy with hcopy | hcopy
  · exact h.acknowledgements copy hcopy hchannel
  · rw [List.mem_singleton.mp hcopy] at hchannel ⊢
    exact hack hchannel

/-- A copy of a command comes out of the network. -/
theorem command_inv (h : ∀ c, ∃ t d q, ChannelInv l c t d q) {i : ℕ} {full : Bool}
    (hfresh : Fresh l (.command i full)) (c : ℕ) : ∃ t d q, ChannelInv (l.command i full) c t d q := by
  unfold Link.command
  cases hcopy : l.commands[i]? with
  | none => exact h c
  | some copy =>
    have hmem := List.mem_of_getElem? hcopy
    have hage := hfresh copy hcopy
    obtain ⟨t, d, q, hc⟩ := h copy.content.channelID
    obtain ⟨n, hn, hnumbered, hstamp, hnear⟩ := hc.commands copy hmem rfl
    rw [hc.count] at hage
    have hfar := hc.near
    obtain ⟨d', q', hadvances, hack⟩ := handleSendReliable_spec hc.receives
      (rfl : copy.content.channelID = copy.content.channelID) hnumbered hn
      ((Nat.div_le_div_right hn).trans hfar)
      (by
        unfold Near packetLifetime peerReliableWindowSize at *
        omega) full
    rcases hresult : handleSendReliable l.receiver copy.content full with ⟨receiver, answer⟩
    rw [hresult] at hadvances hack
    have hchannel : ∃ t d' q', ChannelInv { l with receiver } c t d' q' ∧
        ∀ ack, answer = some ack → ack.channelID = c → ∃ n ≤ t,
          ack.receivedReliableSequenceNumber = n % uint16Size ∧ Got d' q' n ∧
            d' / peerReliableWindowSize ≤ n / peerReliableWindowSize + 7 := by
      by_cases heq : copy.content.channelID = c
      · subst heq
        refine ⟨t, d', q', hc.advance hadvances, fun ack hsome _ => ?_⟩
        obtain ⟨rfl, hgot, hsoon⟩ := hack ack hsome
        exact ⟨n, hn, rfl, hgot, hsoon⟩
      · obtain ⟨t, d, q, hother⟩ := h c
        refine ⟨t, d, q, hother.frame (hadvances.same.channels c (Ne.symm heq)) ?_,
          fun ack hsome hchannel => ?_⟩
        · rw [hadvances.dispatched, reliableOn_append, reliableOn_map, if_neg heq, List.append_nil]
        · obtain ⟨rfl, -, -⟩ := hack ack hsome
          exact absurd hchannel heq
    obtain ⟨t, d', q', hinv, hack⟩ := hchannel
    refine ⟨t, d', q', ?_⟩
    simp only [hresult]
    cases answer with
    | none => simpa using hinv
    | some ack =>
      refine hinv.acknowledge fun hchannel => ?_
      obtain ⟨n, hn, hnumber, hgot, hsoon⟩ := hack ack rfl hchannel
      have hcount : Link.count { l with receiver } ack.channelID = d' := by
        rw [show ack.channelID = c from hchannel]
        exact hinv.count
      exact ⟨n, hn, hnumber, hgot, hcount.le,
        (Nat.div_le_div_right hcount.le).trans hsoon⟩

/-- An acknowledgement comes out of the network: it takes nothing that has not got through. -/
theorem acknowledgement_inv (hs : l.sender.Sound) (h : ∀ c, ∃ t d q, ChannelInv l c t d q) {i : ℕ}
    (hfresh : Fresh l (.acknowledgement i)) :
    (l.acknowledgement i).sender.Sound ∧
      ∀ c, ∃ t d q, ChannelInv (l.acknowledgement i) c t d q := by
  unfold Link.acknowledgement
  cases hcopy : l.acknowledgements[i]? with
  | none => exact ⟨hs, h⟩
  | some copy =>
    have hmem := List.mem_of_getElem? hcopy
    have hage := hfresh copy hcopy
    obtain hsame | ⟨k, hremoves⟩ := removeSentReliableCommand_spec hs copy.content
    · simp only [hsame]
      exact ⟨hs, h⟩
    refine ⟨hremoves.sound, fun c => ?_⟩
    obtain ⟨t, d, q, hc⟩ := h c
    have hsub : ∀ x, x ∈ (removeSentReliableCommand l.sender copy.content).held c →
        x ∈ l.sender.held c := by
      intro x hx
      rw [hremoves.held c]
      exact Multiset.mem_add.mpr (.inr hx)
    refine ⟨t, d, q, ⟨?_, ?_, hc.sends.le, fun x hx => hc.sends.held x (hsub x hx)⟩,
      hc.receives, hc.dispatched, fun n hpos hn => ?_, hc.commands, hc.acknowledgements⟩
    · rw [(removeSentReliableCommand_number l.sender copy.content c).2.2]
      exact hc.sends.number
    · rw [hremoves.fresh]
      exact hc.sends.fresh
    · rcases hc.got n hpos hn with hgot | ⟨x, hx, hnumbered, hnear⟩
      · exact .inl hgot
      rw [hremoves.held c] at hx
      rcases Multiset.mem_add.mp hx with hx | hx
      swap
      · exact .inr ⟨x, hx, hnumbered, hnear⟩
      -- the one that is taken is the one that was acknowledged
      unfold Acknowledgement.taken at hx
      split at hx
      swap
      · exact absurd hx (Multiset.notMem_zero x)
      rename_i hchannel
      obtain rfl := Multiset.mem_singleton.mp hx
      obtain ⟨a, ha, hnumber, hgot, hstamp, hsoon⟩ := hc.acknowledgements copy hmem hchannel
      rw [hchannel, hc.count] at hage
      have hfar := hc.near
      have heq : n = a := by
        refine mod_inj uint16Size ?_ ?_
          (hnumbered.1.symm.trans (hremoves.number.trans hnumber)) <;>
        · unfold Near packetLifetime peerReliableWindowSize at *
          unfold uint16Size
          omega
      exact .inl (heq ▸ hgot)

/-- The game takes a packet. -/
theorem ChannelInv.receive (h : ChannelInv l c t d q) : ChannelInv l.receive c t d q := by
  unfold Link.receive peerReceive
  cases hposts : l.receiver.dispatchedCommands with
  | nil => exact h
  | cons post rest =>
    refine ⟨h.sends, ⟨h.receives.low, h.receives.tracks, h.receives.sorted, h.receives.ahead,
      h.receives.le⟩, ?_, h.got, h.commands, h.acknowledgements⟩
    rw [← h.dispatched, Link.dispatched, Link.dispatched, hposts, List.append_assoc,
      List.singleton_append]

/-- An unsequenced arrival leaves the reliable channels alone. -/
theorem handleSendUnsequenced_frame (r : Receiver α) (command : UnsequencedCommand α) (full : Bool) :
    (handleSendUnsequenced r command full).channelCount = r.channelCount ∧
      (handleSendUnsequenced r command full).channels = r.channels ∧
      ∀ c, reliableOn c (handleSendUnsequenced r command full).dispatchedCommands =
        reliableOn c r.dispatchedCommands := by
  have hpost : ∀ c, reliableOn c [command.post] = [] := by
    intro c
    simp [reliableOn_singleton, UnsequencedCommand.post]
  unfold handleSendUnsequenced
  split
  · exact ⟨rfl, rfl, fun _ => rfl⟩
  dsimp only
  split
  · exact ⟨rfl, rfl, fun _ => rfl⟩
  split
  · exact ⟨rfl, rfl, fun _ => rfl⟩
  split
  · split <;> exact ⟨rfl, rfl, fun _ => rfl⟩
  · split <;> exact ⟨rfl, rfl, fun c => by simp only [reliableOn_append, hpost, List.append_nil]⟩

theorem ChannelInv.arrive (h : ChannelInv l c t d q) (i : ℕ) (full : Bool) :
    ChannelInv (l.arrive i full) c t d q := by
  unfold Link.arrive
  cases hcopy : l.unsequenced[i]? with
  | none => exact h
  | some copy =>
    obtain ⟨-, hchannels, hdispatched⟩ :=
      handleSendUnsequenced_frame l.receiver copy.content full
    have hframe := h.frame (congrFun hchannels c) (hdispatched c)
    exact ⟨hframe.sends, hframe.receives, hframe.dispatched, hframe.got, hframe.commands,
      hframe.acknowledgements⟩

end Fnvmp.Enet
