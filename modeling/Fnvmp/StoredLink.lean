import Fnvmp.StoredSender
import Fnvmp.StoredReceiver
import Fnvmp.Transport

/-!
# A connection with both ends in memory

Each end keeps its queues as rings of nodes in a memory of its own. Event by event the connection
does what the one on lists does, so what holds of that one holds here.
-/

namespace Fnvmp.Enet

open Protocol SequenceWindow IntrusiveList

variable {ν α : Type} [DecidableEq ν]

/-- The two ends in memory, the wire between them, and what the game gave to one end and got from
the other. -/
structure StoredLink (ν α : Type) where
  sender : StoredSender ν α
  outgoingUnsequencedGroup : ℕ
  receiver : StoredReceiver ν α
  sent : List (Post α)
  handed : List (Post α)
  commands : List (ReliableCommand α)
  acknowledgements : List Acknowledgement
  unsequenced : List (UnsequencedCommand α)

variable (sent out : ν) (sentinel : Queue → ν)

namespace StoredLink

def start (h h' : Heap ν) (command : ν → OutgoingCommand α) (command' : ν → IncomingCommand α)
    (channelCount : ℕ) : StoredLink ν α where
  sender := .start sent out h command channelCount
  outgoingUnsequencedGroup := 0
  receiver := .start sentinel h' command' channelCount
  sent := []
  handed := []
  commands := []
  acknowledgements := []
  unsequenced := []

/-- `enet_peer_send`, with the node that the allocator gives for the command. -/
def send (l : StoredLink ν α) (x : ν) (post : Post α) : StoredLink ν α :=
  if l.sender.channelCount ≤ post.channelID then l
  else
    match post.flag with
    | .unsequenced =>
      let group := (l.outgoingUnsequencedGroup + 1) % uint16Size
      { l with
        outgoingUnsequencedGroup := group
        sent := l.sent ++ [post]
        unsequenced := l.unsequenced ++
          [{ channelID := post.channelID, unsequencedGroup := group, data := post.packet }] }
    | .reliable =>
      { l with
        sender := l.sender.setupOutgoingCommand out x post.channelID post.packet
        sent := l.sent ++ [post] }

def flush (l : StoredLink ν α) (room : ℕ) : StoredLink ν α :=
  let (sender, commands) := l.sender.checkOutgoingCommands sent out room (l.sender.heap.next out)
  { l with sender, commands := l.commands ++ commands }

def command (l : StoredLink ν α) (fuel : ℕ) (x : ν) (i : ℕ) (full : Bool) :
    Option (StoredLink ν α) :=
  match l.commands[i]? with
  | none => some l
  | some command =>
    (l.receiver.handleSendReliable sentinel fuel x command full).map fun (receiver, ack) =>
      { l with receiver, acknowledgements := l.acknowledgements ++ ack.toList }

def acknowledgement (l : StoredLink ν α) (fuel i : ℕ) : Option (StoredLink ν α) :=
  match l.acknowledgements[i]? with
  | none => some l
  | some ack =>
    (l.sender.removeSentReliableCommand sent out fuel ack).map fun sender => { l with sender }

def arrive (l : StoredLink ν α) (fuel : ℕ) (x : ν) (i : ℕ) (full : Bool) :
    Option (StoredLink ν α) :=
  match l.unsequenced[i]? with
  | none => some l
  | some command =>
    (l.receiver.handleSendUnsequenced sentinel fuel x command full).map fun receiver =>
      { l with receiver }

def receive (l : StoredLink ν α) : StoredLink ν α :=
  match l.receiver.peerReceive sentinel with
  | none => l
  | some (post, receiver) => { l with receiver, handed := l.handed ++ [post] }

/-- An event of the connection, with the node that is given out if one is asked for. -/
def step (fuel : ℕ) (l : StoredLink ν α) (x : ν) : LinkEvent α → Option (StoredLink ν α)
  | .send post => some (l.send out x post)
  | .flush room => some (l.flush sent out room)
  | .timeouts expired =>
    (l.sender.checkTimeouts sent out fuel expired).map fun sender => { l with sender }
  | .command i full => l.command sentinel fuel x i full
  | .acknowledgement i => l.acknowledgement sent out fuel i
  | .unsequenced i full => l.arrive sentinel fuel x i full
  | .receive => some (l.receive sentinel)

def run (fuel : ℕ) (l : StoredLink ν α) : List (ν × LinkEvent α) → Option (StoredLink ν α)
  | [] => some l
  | (x, e) :: events => (l.step sent out sentinel fuel x e).bind fun l => l.run fuel events

/-- A node that is given out is not in use. -/
def Allocates (l : StoredLink ν α) (x : ν) : LinkEvent α → Prop
  | .send _ => Unused sent out l.sender x
  | .command _ _ | .unsequenced _ _ => l.receiver.Unused sentinel x
  | _ => True

def Allocated (fuel : ℕ) (l : StoredLink ν α) : List (ν × LinkEvent α) → Prop
  | [] => True
  | (x, e) :: events =>
    l.Allocates sent out sentinel x e ∧
      ∀ l' ∈ l.step sent out sentinel fuel x e, l'.Allocated fuel events

instance (l : StoredLink ν α) (x : ν) : ∀ e, Decidable (l.Allocates sent out sentinel x e)
  | .send _ => inferInstanceAs (Decidable (_ ∧ _ ∧ _))
  | .command _ _ | .unsequenced _ _ => inferInstanceAs (Decidable (l.receiver.Unused sentinel x))
  | .flush _ | .timeouts _ | .acknowledgement _ | .receive => isTrue trivial

instance Allocated.decidable (fuel : ℕ) : ∀ (l : StoredLink ν α) (events : List (ν × LinkEvent α)),
    Decidable (l.Allocated sent out sentinel fuel events)
  | _, [] => isTrue trivial
  | l, (x, e) :: events =>
    have (l' : StoredLink ν α) := Allocated.decidable fuel l' events
    inferInstanceAs (Decidable (_ ∧
      ∀ l' ∈ l.step sent out sentinel fuel x e, l'.Allocated sent out sentinel fuel events))

end StoredLink

/-- The memories of the two ends hold the queues of the connection on lists. The stamps on its
wire are not there. -/
structure Refines (m : StoredLink ν α) (l : Link α) (xs ys : List ν)
    (contents : Queue → List ν) : Prop where
  sender : Stores sent out m.sender xs ys l.sender
  group : m.outgoingUnsequencedGroup = l.sender.outgoingUnsequencedGroup
  receiver : Represents sentinel m.receiver contents l.receiver
  sent : m.sent = l.sent
  handed : m.handed = l.handed
  commands : m.commands = l.commands.map Copy.content
  acknowledgements : m.acknowledgements = l.acknowledgements.map Copy.content
  unsequenced : m.unsequenced = l.unsequenced.map Copy.content

/-- The same, with no more than `n` nodes given out at either end. -/
def Refined (n : ℕ) (m : StoredLink ν α) (l : Link α) : Prop :=
  ∃ xs ys contents, Refines sent out sentinel m l xs ys contents ∧ xs.length + ys.length ≤ n ∧
    m.receiver.live.length ≤ n

variable {sent out sentinel} {m : StoredLink ν α} {l : Link α} {n fuel : ℕ} {x : ν}

theorem Refined.send (h : Refined sent out sentinel n m l) (hx : Unused sent out m.sender x)
    (post : Post α) : Refined sent out sentinel (n + 1) (m.send out x post) (l.send post) := by
  obtain ⟨xs, ys, contents, h, hsender, hreceiver⟩ := h
  unfold StoredLink.send Link.send peerSend
  rw [h.sender.channelCount]
  split
  · exact ⟨xs, ys, contents, h, Nat.le_succ_of_le hsender, Nat.le_succ_of_le hreceiver⟩
  · cases hflag : post.flag with
    | unsequenced =>
      refine ⟨xs, ys, contents, ⟨?_, ?_, h.receiver, ?_, h.handed, h.commands,
        h.acknowledgements, ?_⟩, Nat.le_succ_of_le hsender, Nat.le_succ_of_le hreceiver⟩
      · obtain ⟨hsent, hout, hapart, hcommands, hcommands', hlive, hcount, hchannels⟩ := h.sender
        exact ⟨hsent, hout, hapart, hcommands, hcommands', hlive, hcount, hchannels⟩
      · rw [h.group]
        rfl
      · rw [h.sent]
      · rw [h.group, h.unsequenced]
        simp [setupUnsequencedCommand]
    | reliable =>
      refine ⟨xs, ys ++ [x], contents, ⟨h.sender.setupOutgoingCommand hx _ _, h.group, h.receiver,
        ?_, h.handed, h.commands, h.acknowledgements, ?_⟩, ?_, Nat.le_succ_of_le hreceiver⟩
      · rw [h.sent]
      · simpa using h.unsequenced
      · rw [List.length_append, List.length_singleton]
        omega

theorem Refined.flush (h : Refined sent out sentinel n m l) (room : ℕ) :
    Refined sent out sentinel (n + 1) (m.flush sent out room) (l.flush room) := by
  obtain ⟨xs, ys, contents, h, hsender, hreceiver⟩ := h
  obtain ⟨xs', ys', hstores, hsame, hlength⟩ := h.sender.checkOutgoingCommands room
  rw [← h.sender.outRing.next_sentinel] at hstores hsame
  refine ⟨xs', ys', contents, ⟨hstores, ?_, h.receiver, h.sent, h.handed, ?_,
    h.acknowledgements, h.unsequenced⟩, by omega, Nat.le_succ_of_le hreceiver⟩
  · exact h.group.trans (flush_frame l.sender room).2.symm
  · unfold StoredLink.flush Link.flush
    dsimp only
    rw [hsame, h.commands, List.map_append, List.map_map]
    simp [Function.comp_def]

theorem Refined.timeouts (h : Refined sent out sentinel n m l) (hfuel : n < fuel)
    (expired : OutgoingCommand α → Bool) :
    ∃ sender, m.sender.checkTimeouts sent out fuel expired = some sender ∧
      Refined sent out sentinel (n + 1) { m with sender }
        { l with sender := checkTimeouts l.sender expired } := by
  obtain ⟨xs, ys, contents, h, hsender, hreceiver⟩ := h
  have hxs : xs.length < fuel := by omega
  obtain ⟨p, xs', ys', hloop, hstores, hlength⟩ := h.sender.checkTimeouts hxs expired
  exact ⟨p, hloop, xs', ys', contents, ⟨hstores, h.group, h.receiver, h.sent, h.handed, h.commands,
    h.acknowledgements, h.unsequenced⟩, by omega, Nat.le_succ_of_le hreceiver⟩

theorem Refined.acknowledgement (h : Refined sent out sentinel n m l) (hfuel : n < fuel) (i : ℕ) :
    ∃ m', m.acknowledgement sent out fuel i = some m' ∧
      Refined sent out sentinel (n + 1) m' (l.acknowledgement i) := by
  obtain ⟨xs, ys, contents, h, hsender, hreceiver⟩ := h
  unfold StoredLink.acknowledgement Link.acknowledgement
  have hget : m.acknowledgements[i]? = (l.acknowledgements[i]?).map Copy.content := by
    rw [h.acknowledgements, List.getElem?_map]
  rw [hget]
  cases l.acknowledgements[i]? with
  | none =>
    exact ⟨m, rfl, xs, ys, contents, h, Nat.le_succ_of_le hsender, Nat.le_succ_of_le hreceiver⟩
  | some copy =>
    have hqueues : xs.length + ys.length < fuel := by omega
    obtain ⟨p, xs', ys', hremove, hstores, hlength⟩ :=
      h.sender.removeSentReliableCommand hqueues copy.content
    refine ⟨{ m with sender := p }, ?_, xs', ys', contents, ⟨hstores, ?_, h.receiver, h.sent,
      h.handed, h.commands, ?_, h.unsequenced⟩, by omega, Nat.le_succ_of_le hreceiver⟩
    · rw [Option.map_some]
      dsimp only
      rw [hremove]
      rfl
    · rw [h.group, (removeSentReliableCommand_number l.sender copy.content 0).2.1]
    · exact h.acknowledgements

theorem Refined.command (h : Refined sent out sentinel n m l)
    (hx : m.receiver.Unused sentinel x) (hfuel : n + 1 < fuel) (i : ℕ) (full : Bool) :
    ∃ m', m.command sentinel fuel x i full = some m' ∧
      Refined sent out sentinel (n + 1) m' (l.command i full) := by
  obtain ⟨xs, ys, contents, h, hsender, hreceiver⟩ := h
  unfold StoredLink.command Link.command
  have hget : m.commands[i]? = (l.commands[i]?).map Copy.content := by
    rw [h.commands, List.getElem?_map]
  rw [hget]
  cases l.commands[i]? with
  | none =>
    exact ⟨m, rfl, xs, ys, contents, h, Nat.le_succ_of_le hsender, Nat.le_succ_of_le hreceiver⟩
  | some copy =>
    have hlive : m.receiver.live.length + 1 < fuel := by omega
    obtain ⟨p, contents', hmemory, hrepresents, hlength⟩ :=
      h.receiver.handleSendReliable hx copy.content full hlive
    let m' : StoredLink ν α :=
      { m with
        receiver := p
        acknowledgements := m.acknowledgements ++
          (handleSendReliable l.receiver copy.content full).2.toList }
    refine ⟨m', ?_, xs, ys, contents', ⟨h.sender, h.group, hrepresents, h.sent, h.handed, ?_, ?_,
      h.unsequenced⟩, Nat.le_succ_of_le hsender, ?_⟩
    · rw [Option.map_some]
      dsimp only
      rw [hmemory]
      rfl
    · exact h.commands
    · dsimp only [m']
      rw [h.acknowledgements, List.map_append]
      congr 1
      cases (handleSendReliable l.receiver copy.content full).2 <;> rfl
    · exact hlength.trans (Nat.succ_le_succ hreceiver)

theorem Refined.arrive (h : Refined sent out sentinel n m l)
    (hx : m.receiver.Unused sentinel x) (i : ℕ) (full : Bool) (hfuel : n + 1 < fuel) :
    ∃ m', m.arrive sentinel fuel x i full = some m' ∧
      Refined sent out sentinel (n + 1) m' (l.arrive i full) := by
  obtain ⟨xs, ys, contents, h, hsender, hreceiver⟩ := h
  unfold StoredLink.arrive Link.arrive
  have hget : m.unsequenced[i]? = (l.unsequenced[i]?).map Copy.content := by
    rw [h.unsequenced, List.getElem?_map]
  rw [hget]
  cases l.unsequenced[i]? with
  | none =>
    exact ⟨m, rfl, xs, ys, contents, h, Nat.le_succ_of_le hsender, Nat.le_succ_of_le hreceiver⟩
  | some copy =>
    have hfuel' : 1 < fuel := by omega
    obtain ⟨receiver, contents', hmemory, hrepresents, hlength⟩ :=
      h.receiver.handleSendUnsequenced hx copy.content full hfuel'
    refine ⟨{ m with receiver }, ?_, xs, ys, contents', ⟨h.sender, h.group, hrepresents, h.sent,
      h.handed, h.commands, h.acknowledgements, h.unsequenced⟩, Nat.le_succ_of_le hsender,
      hlength.trans (Nat.succ_le_succ hreceiver)⟩
    exact congrArg (Option.map _) hmemory

theorem Refined.receive (h : Refined sent out sentinel n m l) :
    Refined sent out sentinel (n + 1) (m.receive sentinel) l.receive := by
  obtain ⟨xs, ys, contents, h, hsender, hreceiver⟩ := h
  unfold StoredLink.receive Link.receive
  obtain ⟨hlists, hmemory⟩ | ⟨post, r, p, contents', hlists, hmemory, hrepresents, hlength⟩ :=
    h.receiver.peerReceive
  · rw [hlists, hmemory]
    exact ⟨xs, ys, contents, h, Nat.le_succ_of_le hsender, Nat.le_succ_of_le hreceiver⟩
  · rw [hlists, hmemory]
    refine ⟨xs, ys, contents', ⟨h.sender, h.group, hrepresents, h.sent, ?_, h.commands,
      h.acknowledgements, h.unsequenced⟩, Nat.le_succ_of_le hsender,
      Nat.le_succ_of_le (hlength.trans hreceiver)⟩
    rw [h.handed]

/-- The step in memory succeeds and does what the step on lists does. -/
theorem Refined.step (h : Refined sent out sentinel n m l) {e : LinkEvent α}
    (hx : m.Allocates sent out sentinel x e) (hfuel : n + 1 < fuel) :
    ∃ m', m.step sent out sentinel fuel x e = some m' ∧
      Refined sent out sentinel (n + 1) m' (l.step e) := by
  have hfuel' : n < fuel := Nat.lt_of_succ_lt hfuel
  cases e with
  | send post => exact ⟨_, rfl, h.send hx post⟩
  | flush room => exact ⟨_, rfl, h.flush room⟩
  | timeouts expired =>
    obtain ⟨sender, hloop, h'⟩ := h.timeouts hfuel' expired
    refine ⟨_, ?_, h'⟩
    rw [StoredLink.step, hloop]
    rfl
  | command i full => exact h.command hx hfuel i full
  | acknowledgement i => exact h.acknowledgement hfuel' i
  | unsequenced i full => exact h.arrive hx i full hfuel
  | receive => exact ⟨_, rfl, h.receive⟩

theorem Refined.run (h : Refined sent out sentinel n m l) {events : List (ν × LinkEvent α)}
    (hfuel : n + events.length < fuel)
    (hallocated : m.Allocated sent out sentinel fuel events) :
    ∃ m', m.run sent out sentinel fuel events = some m' ∧
      Refined sent out sentinel (n + events.length) m' (l.run (events.map Prod.snd)) := by
  induction events generalizing n m l with
  | nil => exact ⟨m, rfl, h⟩
  | cons event events ih =>
    obtain ⟨x, e⟩ := event
    obtain ⟨hfirst, hrest⟩ := hallocated
    rw [List.length_cons] at hfuel ⊢
    have hfuel' : n + 1 < fuel := by omega
    obtain ⟨m', hstep, h'⟩ := h.step hfirst hfuel'
    obtain ⟨m'', hrun, h''⟩ := ih h' (by omega) (hrest m' hstep)
    refine ⟨m'', ?_, ?_⟩
    · rw [StoredLink.run, hstep]
      exact hrun
    · have hsum : n + 1 + events.length = n + (events.length + 1) := by omega
      rw [← hsum]
      exact h''

theorem Refined.start {channelCount : ℕ} (hne : sent ≠ out)
    (hinj : ∀ i j, Queue.Exists channelCount i → Queue.Exists channelCount j →
      sentinel i = sentinel j → i = j) (h h' : Heap ν) (command : ν → OutgoingCommand α)
    (command' : ν → IncomingCommand α) :
    Refined sent out sentinel 0 (.start sent out sentinel h h' command command' channelCount)
      (Link.start channelCount) :=
  ⟨[], [], fun _ => [], ⟨Stores.start hne h command channelCount, rfl,
    Represents.start hinj h' command', rfl, rfl, rfl, rfl, rfl⟩, le_rfl, le_rfl⟩

/-- Over any run of a connection from cleared lists, whatever the two memories hold at first and
whichever free nodes the allocators give out, every loop over a list comes to its end, each
reliable channel hands over a prefix of what was sent on it, and no unsequenced packet is handed
over twice, or without being sent. The wire is that of the connection on lists. -/
theorem delivery_in_memory {channelCount : ℕ} (hne : sent ≠ out)
    (hinj : ∀ i j, Queue.Exists channelCount i → Queue.Exists channelCount j →
      sentinel i = sentinel j → i = j) (h h' : Heap ν) (command : ν → OutgoingCommand α)
    (command' : ν → IncomingCommand α) {events : List (ν × LinkEvent α)}
    (hfuel : events.length < fuel)
    (htimely : Timely (Link.start channelCount : Link α) (events.map Prod.snd))
    (hallocated : (StoredLink.start sent out sentinel h h' command command'
      channelCount).Allocated sent out sentinel fuel events) :
    ∃ m, (StoredLink.start sent out sentinel h h' command command' channelCount).run sent out
        sentinel fuel events = some m ∧
      (∀ c, reliableOn c m.handed <+: reliableOn c m.sent) ∧
      (unsequencedOf m.handed).Subperm (unsequencedOf m.sent) := by
  have hstart := Refined.start hne hinj h h' command command'
  have hreaches := Reaches.start.run htimely
  obtain ⟨m, hrun, xs, ys, contents, hrefines, -⟩ := hstart.run (by omega) hallocated
  refine ⟨m, hrun, fun c => ?_, ?_⟩
  · have hdispatched := hreaches.dispatched_prefix c
    rw [Link.dispatched, reliableOn_append] at hdispatched
    rw [hrefines.handed, hrefines.sent]
    exact (List.prefix_append _ _).trans hdispatched
  · have hdispatched := hreaches.dispatched_subperm
    rw [Link.dispatched, unsequencedOf_append] at hdispatched
    rw [hrefines.handed, hrefines.sent]
    exact (List.sublist_append_left _ _).subperm.trans hdispatched

/-- The nodes from 10 on, one for each event. -/
def overtakingNodes : List (ℕ × LinkEvent ℕ) := (List.range' 10 16).zip overtaking

theorem delivery_in_memory_overtaking :
    ∃ m, (StoredLink.start 0 1 evenlySpaced ⟨fun _ => 9, fun _ => 9⟩ ⟨fun _ => 9, fun _ => 9⟩
        (fun _ => ⟨5, 5, 5, 5⟩) (fun _ => ⟨.reliable, 5, 5, 5⟩) 3).run 0 1 evenlySpaced 17
        overtakingNodes = some m ∧
      m.handed = [⟨.reliable, 1, 10⟩, ⟨.reliable, 1, 20⟩, ⟨.unsequenced, 0, 30⟩] ∧
      ∀ c, reliableOn c m.handed <+: reliableOn c m.sent := by
  have hne : 0 ≠ 1 := by decide
  have hinj : ∀ i j, Queue.Exists 3 i → Queue.Exists 3 j → evenlySpaced i = evenlySpaced j →
      i = j := fun _ _ _ _ heq => evenlySpaced_injective heq
  have hfuel : overtakingNodes.length < 17 := by decide
  have htimely : Timely (Link.start 3) (overtakingNodes.map Prod.snd) := by decide +kernel
  have hallocated : (StoredLink.start 0 1 evenlySpaced ⟨fun _ => 9, fun _ => 9⟩
      ⟨fun _ => 9, fun _ => 9⟩ (fun _ => ⟨5, 5, 5, 5⟩) (fun _ => ⟨.reliable, 5, 5, 5⟩)
      3).Allocated 0 1 evenlySpaced 17 overtakingNodes := by decide +kernel
  have hhanded : ((StoredLink.start 0 1 evenlySpaced ⟨fun _ => 9, fun _ => 9⟩
      ⟨fun _ => 9, fun _ => 9⟩ (fun _ => ⟨5, 5, 5, 5⟩) (fun _ => ⟨.reliable, 5, 5, 5⟩) 3).run
      0 1 evenlySpaced 17 overtakingNodes).map StoredLink.handed =
      some [⟨.reliable, 1, 10⟩, ⟨.reliable, 1, 20⟩, ⟨.unsequenced, 0, 30⟩] := by decide +kernel
  obtain ⟨m, hrun, hreliable, -⟩ := delivery_in_memory hne hinj ⟨fun _ => 9, fun _ => 9⟩
    ⟨fun _ => 9, fun _ => 9⟩ (fun _ => ⟨5, 5, 5, 5⟩) (fun _ => ⟨.reliable, 5, 5, 5⟩) hfuel
    htimely hallocated
  rw [hrun] at hhanded
  exact ⟨m, hrun, Option.some.inj hhanded, hreliable⟩

end Fnvmp.Enet
