import Fnvmp.Delivery
import Fnvmp.LinkInvariant
import Fnvmp.UnsequencedWindow

/-!
# What a link delivers

Over every order of sends, passes, timeouts, losses, repetitions and overtakings: each
reliable channel hands over a prefix of what was sent on it, nothing of it is ever lost,
and no unsequenced packet is handed over twice.
-/

namespace Fnvmp.Enet

open Protocol SequenceWindow

variable {α : Type} {l l' : Link α} {channelCount : ℕ}

/-- All that holds of a link. -/
structure LinkInv (l : Link α) : Prop where
  sound : l.sender.Sound
  channelCount : l.sender.channelCount = l.receiver.channelCount
  channels : ∀ c, ∃ t d q, ChannelInv l c t d q
  unsequenced : ∃ accepted base, UnsequencedInv l accepted base

/-! ## The unsequenced packets beside the reliable ones -/

theorem UnsequencedInv.frame {accepted : List ℕ} {base : ℕ} (h : UnsequencedInv l accepted base)
    (hgroup : l'.sender.outgoingUnsequencedGroup = l.sender.outgoingUnsequencedGroup)
    (hcount : l'.receiver.channelCount = l.receiver.channelCount)
    (hbase : l'.receiver.incomingUnsequencedGroup = l.receiver.incomingUnsequencedGroup)
    (hwindow : l'.receiver.unsequencedWindow = l.receiver.unsequencedWindow)
    (hsent : unsequencedOf l'.sent = unsequencedOf l.sent)
    (hdispatched : unsequencedOf l'.dispatched = unsequencedOf l.dispatched)
    (hcopies : l'.unsequenced = l.unsequenced) : UnsequencedInv l' accepted base where
  group := by rw [hgroup, hsent, h.group]
  copies := by
    rw [hcopies, hsent, hcount]
    exact h.copies
  window := by rw [hbase, h.window]
  aligned := h.aligned
  reached := by
    rw [hsent]
    exact h.reached
  nodup := h.nodup
  before := by
    rw [hsent]
    exact h.before
  posts := by rw [hdispatched, hsent, h.posts]
  bits := by
    rw [hwindow]
    exact h.bits

theorem UnsequencedInv.send {accepted : List ℕ} {base : ℕ} (h : UnsequencedInv l accepted base)
    (hcount : l.sender.channelCount = l.receiver.channelCount) (post : Post α) :
    UnsequencedInv (l.send post) accepted base := by
  unfold Link.send peerSend
  by_cases hchannel : l.sender.channelCount ≤ post.channelID
  · rw [if_pos hchannel]
    exact h
  rw [if_neg hchannel]
  cases hflag : post.flag with
  | reliable =>
    refine h.frame rfl rfl rfl rfl ?_ rfl (List.append_nil _)
    simp [unsequencedOf, hflag]
  | unsequenced =>
    have hself : unsequencedOf [post] = [post] := by simp [unsequencedOf, hflag]
    have hlookup : ∀ (n : ℕ) (x : Post α), (unsequencedOf l.sent)[n]? = some x →
        (unsequencedOf (l.sent ++ [post]))[n]? = some x := by
      intro n x hx
      rw [unsequencedOf_append, List.getElem?_append_left (List.getElem?_eq_some_iff.mp hx).1]
      exact hx
    have hlength : (unsequencedOf l.sent).length ≤ (unsequencedOf (l.sent ++ [post])).length := by
      simp
    refine ⟨?_, fun copy hcopy => ?_, h.window, h.aligned, h.reached.trans hlength, h.nodup,
      fun a ha => ?_, ?_, h.bits⟩
    · simp only [setupUnsequencedCommand, h.group, unsequencedOf_append, hself, Nat.mod_add_mod,
        List.length_append, List.length_singleton]
    · rcases List.mem_append.mp hcopy with hcopy | hcopy
      · obtain ⟨hpos, hcopyChannel, hgroup, hpost⟩ := h.copies copy hcopy
        exact ⟨hpos, hcopyChannel, hgroup, hlookup _ _ hpost⟩
      · rw [List.mem_singleton.mp hcopy]
        refine ⟨Nat.succ_pos _, hcount ▸ Nat.lt_of_not_le hchannel, ?_, ?_⟩
        · simp only [setupUnsequencedCommand, h.group, Nat.mod_add_mod]
        · simp only [unsequencedOf_append, hself, Nat.add_sub_cancel, List.getElem?_concat_length,
            setupUnsequencedCommand, UnsequencedCommand.post, ← hflag]
    · obtain ⟨hpos, hle, hbefore⟩ := h.before a ha
      exact ⟨hpos, hle.trans hlength, hbefore⟩
    · refine h.posts.trans (List.map_congr_left fun a ha => ?_)
      have hlt : a - 1 < (unsequencedOf l.sent).length := by
        obtain ⟨hpos, hle, -⟩ := h.before a ha
        omega
      rw [List.getElem?_eq_getElem hlt, hlookup _ _ (List.getElem?_eq_getElem hlt)]

/-- What a reliable arrival leaves alone: it only adds reliable packets. -/
structure AddsReliable (r r' : Receiver α) : Prop where
  channelCount : r'.channelCount = r.channelCount
  group : r'.incomingUnsequencedGroup = r.incomingUnsequencedGroup
  window : r'.unsequencedWindow = r.unsequencedWindow
  dispatched : ∃ more, r'.dispatchedCommands = r.dispatchedCommands ++ more ∧
    unsequencedOf more = []

theorem AddsReliable.rfl {r : Receiver α} : AddsReliable r r :=
  ⟨.refl _, .refl _, .refl _, [], (List.append_nil _).symm, .refl _⟩

theorem dispatchIncomingReliableCommands_frame (r : Receiver α) (c : ℕ) :
    AddsReliable r (dispatchIncomingReliableCommands r c) := by
  refine ⟨rfl, rfl, rfl, _, rfl, ?_⟩
  simp [unsequencedOf, List.filter_map, Function.comp_def, ReliableCommand.post]

theorem handleSendReliable_frame (r : Receiver α) (command : ReliableCommand α) (full : Bool) :
    AddsReliable r (handleSendReliable r command full).1 := by
  have hqueue : ∀ r', queueIncomingCommand r command full = some r' → AddsReliable r r' := by
    intro r' hr'
    unfold queueIncomingCommand at hr'
    dsimp only at hr'
    split at hr'
    · cases hr'
      exact .rfl
    split at hr'
    · cases hr'
      exact .rfl
    split at hr'
    · cases hr'
      exact .rfl
    split at hr'
    · cases hr'
    · cases hr'
      obtain ⟨hcount, hgroup, hwindow, hdispatched⟩ :=
        dispatchIncomingReliableCommands_frame { r with
          channels := Function.update r.channels command.channelID
            { r.channels command.channelID with incomingReliableCommands := _ } } command.channelID
      exact ⟨hcount, hgroup, hwindow, hdispatched⟩
  unfold handleSendReliable
  split
  · exact .rfl
  split
  · exact .rfl
  · split <;> exact hqueue _ ‹_›

/-! ## Every run -/

theorem start_inv (channelCount : ℕ) : LinkInv (Link.start channelCount : Link α) where
  sound :=
    { attempted := by simp [Link.start]
      sentChannel := by simp [Link.start]
      channel := by simp [Link.start]
      count := by simp [Link.start, Sender.held]
      used := by simp [Link.start] }
  channelCount := rfl
  channels c := ⟨0, 0, [],
    { sends := ⟨rfl, rfl, Nat.zero_le _, by simp [Link.start, Sender.held]⟩
      receives := ⟨rfl, .nil, .nil, by simp, le_rfl⟩
      dispatched := rfl
      got := fun n hpos hn => absurd hn hpos.not_ge
      commands := by simp [Link.start]
      acknowledgements := by simp [Link.start] }⟩
  unsequenced := ⟨[], 0,
    { group := rfl
      copies := by simp [Link.start]
      window := rfl
      aligned := rfl
      reached := le_rfl
      nodup := .nil
      before := by simp
      posts := rfl
      bits := by simp [Link.start] }⟩

theorem peerSend_channelCount {s s' : Sender α} {post : Post α}
    {command : Option (UnsequencedCommand α)} (h : peerSend s post = some (s', command)) :
    s'.channelCount = s.channelCount ∧ (s.Sound → s'.Sound) := by
  unfold peerSend at h
  split at h
  · cases h
  rename_i hchannel
  cases hflag : post.flag with
  | reliable =>
    rw [hflag] at h
    cases h
    exact ⟨rfl, fun hs => hs.setupOutgoingCommand (Nat.lt_of_not_le hchannel) post.packet⟩
  | unsequenced =>
    rw [hflag] at h
    cases h
    exact ⟨rfl, fun hs => ⟨hs.attempted, hs.sentChannel, hs.channel, hs.count, hs.used⟩⟩

theorem flush_frame (s : Sender α) (room : ℕ) :
    (checkOutgoingCommands room s).1.channelCount = s.channelCount ∧
      (checkOutgoingCommands room s).1.outgoingUnsequencedGroup = s.outgoingUnsequencedGroup :=
  checkOutgoingCommands_rule
    (fun s' _ => s'.channelCount = s.channelCount ∧
      s'.outgoingUnsequencedGroup = s.outgoingUnsequencedGroup)
    (fun _ _ _ _ h _ _ => h) room [] ⟨rfl, rfl⟩

theorem LinkInv.step (h : LinkInv l) (e : LinkEvent α) (hfresh : Fresh l e) :
    LinkInv (l.step e) := by
  obtain ⟨accepted, base, hun⟩ := h.unsequenced
  cases e with
  | send post =>
    have hframe : (l.send post).sender.Sound ∧
        (l.send post).sender.channelCount = l.sender.channelCount ∧
        (l.send post).receiver = l.receiver := by
      unfold Link.send
      split
      · exact ⟨h.sound, rfl, rfl⟩
      · rename_i hsend
        exact ⟨(peerSend_channelCount hsend).2 h.sound, (peerSend_channelCount hsend).1, rfl⟩
    refine ⟨hframe.1, ?_, fun c => ?_, accepted, base, hun.send h.channelCount post⟩
    · exact (hframe.2.1.trans h.channelCount).trans (congrArg _ hframe.2.2.symm)
    · obtain ⟨t, d, q, hc⟩ := h.channels c
      exact ⟨t, d, q, hc.send post⟩
  | flush room =>
    obtain ⟨hsound, hchannels⟩ := flush_inv h.sound h.channels room
    obtain ⟨hcount, hgroup⟩ := flush_frame l.sender room
    exact ⟨hsound, hcount.trans h.channelCount, hchannels, accepted, base,
      hun.frame hgroup rfl rfl rfl rfl rfl rfl⟩
  | timeouts expired =>
    refine ⟨h.sound.checkTimeouts expired, h.channelCount, fun c => ?_, accepted, base,
      hun.frame rfl rfl rfl rfl rfl rfl rfl⟩
    obtain ⟨t, d, q, hc⟩ := h.channels c
    exact ⟨t, d, q, hc.timeouts h.sound expired⟩
  | command i full =>
    have hsender : (l.command i full).sender = l.sender := by
      unfold Link.command
      split <;> rfl
    refine ⟨by rw [Link.step, hsender]; exact h.sound, ?_, command_inv h.channels hfresh, accepted,
      base, ?_⟩
    · rw [Link.step, hsender, h.channelCount]
      unfold Link.command
      split
      · rfl
      · exact (handleSendReliable_frame l.receiver _ full).channelCount.symm
    · rw [Link.step]
      unfold Link.command
      split
      · exact hun
      · rename_i copy _
        obtain ⟨hcount, hbase, hwindow, more, hmore, hnone⟩ :=
          handleSendReliable_frame l.receiver copy.content full
        refine hun.frame rfl hcount hbase hwindow rfl ?_ rfl
        simp only [Link.dispatched, unsequencedOf_append, hmore, hnone, List.append_nil]
  | acknowledgement i =>
    obtain ⟨hsound, hchannels⟩ := acknowledgement_inv h.sound h.channels hfresh
    refine ⟨hsound, ?_, hchannels, accepted, base, ?_⟩
    · rw [Link.step]
      unfold Link.acknowledgement
      split
      · exact h.channelCount
      · exact (removeSentReliableCommand_number l.sender _ 0).1.trans h.channelCount
    · rw [Link.step]
      unfold Link.acknowledgement
      split
      · exact hun
      · exact hun.frame (removeSentReliableCommand_number l.sender _ 0).2.1
          rfl rfl rfl rfl rfl rfl
  | unsequenced i full =>
    obtain ⟨accepted', base', hun'⟩ := hun.arrive hfresh
    have hsender : (l.arrive i full).sender = l.sender ∧
        (l.arrive i full).receiver.channelCount = l.receiver.channelCount := by
      unfold Link.arrive
      split
      · exact ⟨rfl, rfl⟩
      · exact ⟨rfl, (handleSendUnsequenced_frame l.receiver _ full).1⟩
    refine ⟨by rw [Link.step, hsender.1]; exact h.sound, ?_, fun c => ?_, accepted', base', hun'⟩
    · rw [Link.step, hsender.1, hsender.2]
      exact h.channelCount
    · obtain ⟨t, d, q, hc⟩ := h.channels c
      exact ⟨t, d, q, hc.arrive i full⟩
  | receive =>
    have hframe : l.receive.sender = l.sender ∧ l.receive.dispatched = l.dispatched ∧
        l.receive.receiver.channelCount = l.receiver.channelCount ∧
        l.receive.receiver.incomingUnsequencedGroup = l.receiver.incomingUnsequencedGroup ∧
        l.receive.receiver.unsequencedWindow = l.receiver.unsequencedWindow ∧
        l.receive.sent = l.sent ∧ l.receive.unsequenced = l.unsequenced := by
      unfold Link.receive peerReceive
      cases hposts : l.receiver.dispatchedCommands with
      | nil => exact ⟨rfl, rfl, rfl, rfl, rfl, rfl, rfl⟩
      | cons post rest =>
        refine ⟨rfl, ?_, rfl, rfl, rfl, rfl, rfl⟩
        simp [Link.dispatched, hposts]
    obtain ⟨hsender, hdispatched, hcount, hbase, hwindow, hsent, hcopies⟩ := hframe
    refine ⟨by rw [Link.step, hsender]; exact h.sound, ?_, fun c => ?_, accepted,
      base, hun.frame (by rw [Link.step, hsender]) hcount hbase hwindow (congrArg _ hsent)
        (congrArg _ hdispatched) hcopies⟩
    · rw [Link.step, hsender, hcount]
      exact h.channelCount
    · obtain ⟨t, d, q, hc⟩ := h.channels c
      exact ⟨t, d, q, hc.receive⟩

theorem Reaches.inv (h : Reaches channelCount l) : LinkInv l := by
  induction h with
  | start => exact start_inv channelCount
  | step e _ hfresh ih => exact ih.step e hfresh

/-! ## Reliable channels -/

theorem numbered_eq (n : ℕ) (packets : List α) {i : ℕ} (hi : i < packets.length) :
    (((n + i + 1) % uint16Size, packets[i]) : ℕ × α) ∈ numbered n packets := by
  induction packets generalizing n i with
  | nil => exact absurd hi (Nat.not_lt_zero i)
  | cons packet rest ih =>
    cases i with
    | zero => exact List.mem_cons_self
    | succ i =>
      have h := ih (n + 1) (Nat.lt_of_succ_lt_succ hi)
      rw [show n + 1 + i + 1 = n + (i + 1) + 1 by omega] at h
      exact List.mem_cons_of_mem _ h

/-- Where the packets of a reliable channel are: handed over in order, waiting in order at the
receiver, or with the sender still. -/
def Kept (l : Link α) (c : ℕ) (i : ℕ) (packet : α) : Prop :=
  i < (reliableOn c l.dispatched).length ∨
    (∃ command ∈ (l.receiver.channels c).incomingReliableCommands,
      command.reliableSequenceNumber = (i + 1) % uint16Size ∧ command.data = packet) ∨
    ((i + 1) % uint16Size, packet) ∈ l.sender.held c ∨
    ((i + 1) % uint16Size, packet) ∈ l.sender.fresh c

theorem Tracks.mem {packets : List α} {c n : ℕ} {queue : List (ReliableCommand α)} {q : List ℕ}
    (h : Tracks packets c queue q) (hn : n ∈ q) :
    ∃ command ∈ queue, Numbered packets command.reliableSequenceNumber command.data n := by
  induction h with
  | nil => cases hn
  | cons hhead _ ih =>
    rcases List.mem_cons.mp hn with rfl | hn
    · exact ⟨_, List.mem_cons_self, hhead.2⟩
    · obtain ⟨command, hmem, hnumbered⟩ := ih hn
      exact ⟨command, List.mem_cons_of_mem _ hmem, hnumbered⟩

theorem ChannelInv.kept {c t d : ℕ} {q : List ℕ} (h : ChannelInv l c t d q) {i : ℕ}
    (hi : i < (reliableOn c l.sent).length) : Kept l c i (reliableOn c l.sent)[i] := by
  rcases Nat.lt_or_ge i t with hlt | hge
  · rcases h.got (i + 1) (Nat.succ_pos i) hlt with (hle | hmem) | ⟨k, hk, ⟨hnumber, -, hpacket⟩, -⟩
    · refine .inl ?_
      have hcount : (reliableOn c l.dispatched).length = d := h.count
      omega
    · obtain ⟨command, hcommand, hnumber, -, hpacket⟩ := h.receives.tracks.mem hmem
      refine .inr (.inl ⟨command, hcommand, hnumber, ?_⟩)
      rw [Nat.add_sub_cancel, List.getElem?_eq_getElem hi] at hpacket
      exact (Option.some.inj hpacket).symm
    · rw [Nat.add_sub_cancel, List.getElem?_eq_getElem hi] at hpacket
      refine .inr (.inr (.inl ?_))
      rw [← hnumber, Option.some.inj hpacket]
      exact hk
  · refine .inr (.inr (.inr ?_))
    have hmem := numbered_eq t ((reliableOn c l.sent).drop t) (i := i - t)
      (by rw [List.length_drop]; omega)
    rw [h.sends.fresh]
    simpa only [Nat.add_sub_cancel' hge, List.getElem_drop] using hmem

/-- What is put in order on a reliable channel is a prefix of what was sent on it. -/
theorem Reaches.dispatched_prefix (h : Reaches channelCount l) (c : ℕ) :
    reliableOn c l.dispatched <+: reliableOn c l.sent := by
  obtain ⟨t, d, q, hc⟩ := h.inv.channels c
  rw [hc.dispatched]
  exact List.take_prefix d _

/-- Every reliable channel hands over a prefix of what was sent on it, whatever the network does,
and no packet is ever dropped. -/
theorem reliable_channel (h : Reaches channelCount l) (c : ℕ) :
    reliableOn c l.handed <+: reliableOn c l.sent ∧
      ∀ i (hi : i < (reliableOn c l.sent).length), Kept l c i (reliableOn c l.sent)[i] := by
  obtain ⟨t, d, q, hc⟩ := h.inv.channels c
  refine ⟨?_, fun i hi => hc.kept hi⟩
  have hdispatched := h.dispatched_prefix c
  rw [Link.dispatched, reliableOn_append] at hdispatched
  exact (List.prefix_append _ _).trans hdispatched

/-- The second of two packets comes first and twice, the first only after a timeout, and an
unsequenced one comes twice. -/
def overtaking : List (LinkEvent ℕ) :=
  [.send ⟨.reliable, 1, 10⟩, .send ⟨.reliable, 1, 20⟩, .send ⟨.unsequenced, 0, 30⟩, .flush 5,
    .command 1 false, .command 1 false, .timeouts fun _ => true, .flush 5, .command 2 false,
    .acknowledgement 0, .unsequenced 0 false, .unsequenced 0 false, .receive, .receive, .receive,
    .receive]

set_option maxRecDepth 4000 in
theorem reliable_channel_overtaking :
    let l := (Link.start 3).run overtaking
    l.handed = [⟨.reliable, 1, 10⟩, ⟨.reliable, 1, 20⟩, ⟨.unsequenced, 0, 30⟩] ∧
      reliableOn 1 l.handed <+: reliableOn 1 l.sent ∧
      ∀ i (hi : i < (reliableOn 1 l.sent).length), Kept l 1 i (reliableOn 1 l.sent)[i] :=
  ⟨by decide, reliable_channel (Reaches.start.run (by decide)) 1⟩

/-! ## Unsequenced packets -/

/-- Entries picked by different positions. -/
theorem subperm_of_picks {β : Type} {got sent : List β} (picks : List ℕ) (hnodup : picks.Nodup)
    (h : got.map some = picks.map fun i => sent[i]?) : got.Subperm sent := by
  have hlt : picks ⊆ List.range sent.length := by
    intro i hi
    have hmem : sent[i]? ∈ got.map some := by
      rw [h]
      exact List.mem_map_of_mem (f := fun i => sent[i]?) hi
    obtain ⟨x, -, hx⟩ := List.mem_map.mp hmem
    exact List.mem_range.mpr (List.getElem?_eq_some_iff.mp hx.symm).1
  have hrange : (List.range sent.length).map (fun i => sent[i]?) = sent.map some := by
    apply List.ext_getElem (by simp)
    intro i hi hi'
    have hi : i < sent.length := by simpa using hi
    simp [hi]
  obtain ⟨picks', hperm, hsub⟩ := hnodup.subperm hlt
  have hmap : (got.map some).Subperm (sent.map some) := by
    rw [h, ← hrange]
    exact ⟨picks'.map fun i => sent[i]?, hperm.map _, hsub.map _⟩
  exact (List.map_subperm_map_iff (Option.some_injective β)).mp hmap

theorem Reaches.dispatched_subperm (h : Reaches channelCount l) :
    (unsequencedOf l.dispatched).Subperm (unsequencedOf l.sent) := by
  obtain ⟨accepted, base, hun⟩ := h.inv.unsequenced
  refine subperm_of_picks (accepted.map (· - 1)) ?_ ?_
  · refine (List.nodup_map_iff_inj_on hun.nodup).mpr fun a ha b hb heq => ?_
    have := (hun.before a ha).1
    have := (hun.before b hb).1
    omega
  · rw [List.map_map]
    exact hun.posts

/-- No unsequenced packet is handed over twice, and none that was not sent. -/
theorem unsequenced_once (h : Reaches channelCount l) :
    (unsequencedOf l.handed).Subperm (unsequencedOf l.sent) := by
  have hdispatched := h.dispatched_subperm
  rw [Link.dispatched, unsequencedOf_append] at hdispatched
  exact (List.sublist_append_left _ _).subperm.trans hdispatched

set_option maxRecDepth 4000 in
theorem unsequenced_once_overtaking :
    (unsequencedOf ((Link.start 3).run overtaking).handed).Subperm
      (unsequencedOf ((Link.start 3).run overtaking).sent) :=
  unsequenced_once (Reaches.start.run (by decide))

end Fnvmp.Enet
