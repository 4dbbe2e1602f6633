import Fnvmp.Routes

/-!
# A connection of the game over the transport

The packets of one direction as posts of a link. What the link hands over is what the
transport was taken to promise: prefixes of the reliable channels, and the unreliable
packets at most once each.
-/

namespace Fnvmp.Online

open PackedCodec Protocol Server Net Delivery Enet

/-- The call of `enet_peer_send` for a packet. -/
def post (p : Sent) : Post (List UInt8) := ⟨p.flag, p.channel.code, p.data⟩

/-- The same for the packets the server sends to a pointer. -/
def postsTo (p : Peer) (acts : List Action) : List (Post (List UInt8)) :=
  acts.filterMap fun
    | .send q channel data flag => if q = p then some ⟨flag, channel.code, data⟩ else none
    | _ => none

def channelOf (channelID : ℕ) : Channel :=
  if channelID = 0 then .unreliable else if channelID = 1 then .gameEvents else .system

@[simp] theorem channelOf_code (channel : Channel) : channelOf channel.code = channel := by
  cases channel <;> rfl

/-- A post without its flag, which the channel determines. -/
def unpost (post : Post (List UInt8)) : Channel × List UInt8 :=
  (channelOf post.channelID, post.packet)

def Carried (post : Post (List UInt8)) : Prop :=
  ∃ channel : Channel, post.channelID = channel.code ∧ post.flag = channel.flag

variable {posts : List (Post (List UInt8))} {channelCount : ℕ} {l : Link (List UInt8)}

theorem on_unpost (h : ∀ post ∈ posts, Carried post) {channel : Channel}
    (hne : channel ≠ .unreliable) :
    on channel (posts.map unpost) = reliableOn channel.code posts := by
  induction posts with
  | nil => rfl
  | cons post posts ih =>
    have hrest := ih fun p hp => h p (List.mem_cons_of_mem _ hp)
    obtain ⟨carrier, hcode, hflag⟩ := h post List.mem_cons_self
    have hhead : on channel [unpost post] = reliableOn channel.code [post] := by
      rw [reliableOn_singleton, hflag, hcode]
      simp only [on, unpost, hcode, channelOf_code]
      cases carrier <;> cases channel <;> first | rfl | exact absurd rfl hne
    rw [List.map_cons, ← List.singleton_append, on_append, hhead, hrest,
      ← reliableOn_append, List.singleton_append]

theorem on_unpost_unreliable (h : ∀ post ∈ posts, Carried post) :
    on .unreliable (posts.map unpost) = (unsequencedOf posts).map Post.packet := by
  induction posts with
  | nil => rfl
  | cons post posts ih =>
    have hrest := ih fun p hp => h p (List.mem_cons_of_mem _ hp)
    obtain ⟨carrier, hcode, hflag⟩ := h post List.mem_cons_self
    have hhead : on .unreliable [unpost post] = (unsequencedOf [post]).map Post.packet := by
      simp only [on, unpost, hcode, channelOf_code, unsequencedOf, List.filter_cons, hflag]
      cases carrier <;> rfl
    rw [List.map_cons, ← List.singleton_append, on_append, hhead, hrest, ← List.map_append,
      ← unsequencedOf_append, List.singleton_append]

/-- Nothing is put in order that was not sent. -/
theorem dispatched_subset (h : Reaches channelCount l) : l.dispatched ⊆ l.sent := by
  intro post hpost
  cases hflag : post.flag with
  | unsequenced =>
    have hmem : post ∈ unsequencedOf l.dispatched := List.mem_filter.mpr ⟨hpost, by simpa using hflag⟩
    exact (List.mem_filter.mp (h.dispatched_subperm.subset hmem)).1
  | reliable =>
    have hmem : post.packet ∈ reliableOn post.channelID l.dispatched :=
      List.mem_map_of_mem (List.mem_filter.mpr ⟨hpost, by simpa using hflag⟩)
    obtain ⟨other, hother, hpacket⟩ := List.mem_map.mp ((h.dispatched_prefix _).subset hmem)
    obtain ⟨hsent, hroute⟩ := List.mem_filter.mp hother
    obtain ⟨hflag', hchannel⟩ : other.flag = .reliable ∧ other.channelID = post.channelID := by
      simpa using hroute
    have heq : other = post := by
      obtain ⟨flag, channelID, packet⟩ := post
      obtain ⟨flag', channelID', packet'⟩ := other
      cases hflag
      cases hflag'
      cases hchannel
      cases hpacket
      rfl
    exact heq ▸ hsent

/-- A link delivers. -/
theorem delivers (h : Reaches channelCount l) (hcarried : ∀ post ∈ l.sent, Carried post)
    (hposts : posts <+: l.dispatched) : Delivers (l.sent.map unpost) (posts.map unpost) := by
  have hcarried' : ∀ post ∈ posts, Carried post :=
    fun post hpost => hcarried post (dispatched_subset h (hposts.subset hpost))
  obtain ⟨rest, hrest⟩ := hposts
  constructor
  · intro channel hne
    have hprefix := h.dispatched_prefix channel.code
    rw [← hrest, reliableOn_append] at hprefix
    rw [on_unpost hcarried hne, on_unpost hcarried' hne]
    exact (List.prefix_append _ _).trans hprefix
  · have hsubperm := h.dispatched_subperm
    rw [← hrest, unsequencedOf_append] at hsubperm
    rw [on_unpost_unreliable hcarried, on_unpost_unreliable hcarried']
    obtain ⟨picked, hperm, hsub⟩ := (List.sublist_append_left _ _).subperm.trans hsubperm
    exact ⟨picked.map Post.packet, hperm.map _, hsub.map _⟩

/-! ## What the steps of a link add -/

section

variable {α : Type} {channelCount : ℕ} {l : Link α}

theorem send_adds (l : Link α) (p : Post α) (h : p.channelID < l.sender.channelCount) :
    (l.send p).sent = l.sent ++ [p] ∧ (l.send p).handed = l.handed ∧
      (l.send p).receiver = l.receiver := by
  unfold Link.send peerSend
  rw [if_neg (Nat.not_le_of_lt h)]
  cases p.flag <;> exact ⟨rfl, rfl, rfl⟩

theorem step_channelCount (l : Link α) (e : LinkEvent α) :
    (l.step e).sender.channelCount = l.sender.channelCount := by
  cases e with
  | send p =>
    rw [Link.step, Link.send]
    split
    · rfl
    · rename_i hsend
      exact (peerSend_channelCount hsend).1
  | flush room => exact (flush_frame l.sender room).1
  | timeouts expired => rfl
  | command i full =>
    rw [Link.step, Link.command]
    split <;> rfl
  | acknowledgement i =>
    rw [Link.step, Link.acknowledgement]
    split
    · rfl
    · exact (removeSentReliableCommand_number l.sender _ 0).1
  | unsequenced i full =>
    rw [Link.step, Link.arrive]
    split <;> rfl
  | receive =>
    rw [Link.step, Link.receive]
    split <;> rfl

theorem channelCount_of_reaches (h : Reaches channelCount l) :
    l.sender.channelCount = channelCount := by
  induction h with
  | start => rfl
  | step e _ _ ih => rw [step_channelCount, ih]

/-- The packets sent, one after the other. -/
theorem sends_add (h : Reaches channelCount l) {posts : List (Post α)}
    (hposts : ∀ p ∈ posts, p.channelID < channelCount) :
    Reaches channelCount (posts.foldl Link.send l) ∧
      (posts.foldl Link.send l).sent = l.sent ++ posts ∧
      (posts.foldl Link.send l).handed = l.handed ∧
      (posts.foldl Link.send l).receiver = l.receiver := by
  induction posts generalizing l with
  | nil => exact ⟨h, (List.append_nil _).symm, rfl, rfl⟩
  | cons p posts ih =>
    obtain ⟨hsent, hhanded, hreceiver⟩ := send_adds l p
      (by rw [channelCount_of_reaches h]; exact hposts p List.mem_cons_self)
    obtain ⟨hreaches, hsent', hhanded', hreceiver'⟩ := ih (h.step (.send p) trivial)
      fun p' hp' => hposts p' (List.mem_cons_of_mem _ hp')
    refine ⟨hreaches, ?_, hhanded'.trans hhanded, hreceiver'.trans hreceiver⟩
    rw [List.foldl_cons, List.append_cons, ← hsent]
    exact hsent'

/-- What the network and the clocks do: no packet is sent and none handed over. -/
def OfNetwork : LinkEvent α → Prop
  | .send _ | .receive => False
  | .flush _ | .timeouts _ | .command _ _ | .acknowledgement _ | .unsequenced _ _ => True

theorem network_adds (l : Link α) {e : LinkEvent α} (he : OfNetwork e) :
    (l.step e).sent = l.sent ∧ (l.step e).handed = l.handed := by
  cases e with
  | send p => exact he.elim
  | receive => exact he.elim
  | flush room => exact ⟨rfl, rfl⟩
  | timeouts expired => exact ⟨rfl, rfl⟩
  | command i full =>
    rw [Link.step, Link.command]
    split <;> exact ⟨rfl, rfl⟩
  | acknowledgement i =>
    rw [Link.step, Link.acknowledgement]
    split <;> exact ⟨rfl, rfl⟩
  | unsequenced i full =>
    rw [Link.step, Link.arrive]
    split <;> exact ⟨rfl, rfl⟩

theorem receive_adds {p : Post α} {rest : List (Post α)}
    (h : l.receiver.dispatchedCommands = p :: rest) :
    (l.step .receive).sent = l.sent ∧ (l.step .receive).handed = l.handed ++ [p] ∧
      (l.step .receive).receiver.dispatchedCommands = rest := by
  simp [Link.step, Link.receive, peerReceive, h]

/-- Packets taken as long as there are any. -/
theorem receives_add (h : Reaches channelCount l) (n : ℕ) :
    Reaches channelCount (l.run (List.replicate n .receive)) ∧
      (l.run (List.replicate n .receive)).sent = l.sent ∧
      (l.run (List.replicate n .receive)).handed =
        l.handed ++ l.receiver.dispatchedCommands.take n := by
  induction n generalizing l with
  | zero => exact ⟨h, rfl, (List.append_nil _).symm⟩
  | succ n ih =>
    obtain ⟨hreaches, hsent, hhanded⟩ := ih (h.step .receive trivial)
    refine ⟨hreaches, ?_⟩
    rw [List.replicate_succ]
    change (Link.run (l.step .receive) _).sent = _ ∧ (Link.run (l.step .receive) _).handed = _
    rw [hsent, hhanded]
    cases hposts : l.receiver.dispatchedCommands with
    | nil => simp [Link.step, Link.receive, peerReceive, hposts]
    | cons p rest =>
      obtain ⟨hsent', hhanded', hrest⟩ := receive_adds hposts
      rw [hsent', hhanded', hrest, List.append_assoc, List.singleton_append, List.take_succ_cons]
      exact ⟨rfl, rfl⟩

end

/-! ## The server's packets -/

theorem carried_of_routed {t : MessageType} {data : List UInt8} {channel : Channel}
    {flag : PacketFlag} (h : Routed t data channel flag) : Carried ⟨flag, channel.code, data⟩ :=
  ⟨channel, rfl, by rw [h.flag, h.channel]⟩

theorem unpost_postsTo (p : Peer) (acts : List Action) :
    (postsTo p acts).map unpost = packetsTo p acts := by
  unfold postsTo packetsTo
  rw [List.map_filterMap]
  congr 1
  funext act
  cases act with
  | send q channel data flag =>
    dsimp only
    split
    · simp [unpost]
    · rfl
  | registered | removed | peerDisconnect => rfl

theorem mem_postsTo {p : Peer} {acts : List Action} {post : Post (List UInt8)}
    (h : post ∈ postsTo p acts) : ∃ channel data flag,
      .send p channel data flag ∈ acts ∧ post = ⟨flag, channel.code, data⟩ := by
  obtain ⟨act, hact, heq⟩ := List.mem_filterMap.mp h
  cases act with
  | send q channel data flag =>
    simp only at heq
    split at heq
    · rename_i hq
      cases heq
      exact ⟨channel, data, flag, hq ▸ hact, rfl⟩
    · cases heq
  | registered | removed | peerDisconnect => cases heq

/-- What a run of the server sends to a pointer is delivered, message by message, by every link
that carries it. -/
theorem server_run_delivered {s s' : State} {es : List Event} {acts : List Action}
    (hrun : run s es = some (s', acts)) (p : Peer) (h : Reaches numChannels l)
    (hsent : l.sent = postsTo p acts) :
    Delivers (packetsTo p acts) (l.handed.map unpost) ∧
      ∀ post ∈ l.handed, ∃ m : ServerMessage, ServerMessage.parse post.packet = some m ∧
        m ≠ .disconnect ∧ unpost post = (m.type.channel, m.encode) := by
  have hsays : ∀ post ∈ l.sent, ∃ m : ServerMessage, ServerMessage.parse post.packet = some m ∧
      m ≠ .disconnect ∧ unpost post = (m.type.channel, m.encode) ∧ Carried post := by
    intro post hpost
    obtain ⟨channel, data, flag, hact, rfl⟩ := mem_postsTo (hsent ▸ hpost)
    obtain ⟨s, e, hputs⟩ := run_puts hrun _ hact
    obtain ⟨m, htells, hfits, rfl, hrouted⟩ := hputs p channel data flag rfl
    obtain ⟨hparse, hne⟩ := htells.parse hfits
    exact ⟨m, hparse, hne, by simp [unpost, hrouted.channel], carried_of_routed hrouted⟩
  constructor
  · rw [← unpost_postsTo, ← hsent]
    refine delivers h (fun post hpost => ?_) (List.prefix_append _ _)
    obtain ⟨m, -, -, -, hcarried⟩ := hsays post hpost
    exact hcarried
  · intro post hpost
    obtain ⟨m, hparse, hne, hpost, -⟩ :=
      hsays post (dispatched_subset h (List.mem_append_left _ hpost))
    exact ⟨m, hparse, hne, hpost⟩

/-- The first of two players is told of itself and of the other, in the other order. -/
def greeting : List (LinkEvent (List UInt8)) :=
  [.send ⟨.reliable, 2, msgEntity.encode ⟨MessageType.connectAck.code, 1⟩⟩,
    .send ⟨.reliable, 1, msgEntity.encode ⟨MessageType.playerConnect.code, 2⟩⟩, .flush 5,
    .command 1 false, .command 0 false, .receive, .receive]

set_option maxRecDepth 4000 in
theorem server_run_delivered_greeting : ∃ s acts,
    Server.run (Server.start 0) [.connect 1 0, .connect 2 0] = some (s, acts) ∧
      ((Link.start numChannels).run greeting).handed.length = 2 ∧
      Delivers (packetsTo 1 acts) (((Link.start numChannels).run greeting).handed.map unpost) := by
  obtain ⟨⟨s, acts⟩, hrun, hposts⟩ := (Option.any_eq_true _ _).mp
    (show (Server.run (Server.start 0) [.connect 1 0, .connect 2 0]).any (fun r =>
      decide (((Link.start numChannels).run greeting).sent = postsTo 1 r.2)) from by
        decide +kernel)
  exact ⟨s, acts, hrun, by decide +kernel, (server_run_delivered hrun 1
    (Reaches.start.run (by decide +kernel)) (of_decide_eq_true hposts)).1⟩

end Fnvmp.Online
