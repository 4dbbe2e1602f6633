import Fnvmp.ReliableQueue
import Fnvmp.ReliableWindow

/-!
# One direction of a connection over a lossy network

The network keeps every datagram that was ever put on it, and any of them may come out at
any time, any number of times or never, as long as it is not too old. The invariant ties
the sixteen-bit numbers of both ends to the packets of the channel.
-/

namespace Fnvmp.Enet

open Protocol SequenceWindow

variable {α : Type}

/-- Something on the wire. The stamp is not part of it: it says how far the connection was. -/
structure Copy (β : Type) where
  content : β
  stamp : ℕ
  deriving DecidableEq, Repr

/-- The two ends, the wire between them, and what the game gave to one end and got from the
other. -/
structure Link (α : Type) where
  sender : Sender α
  receiver : Receiver α
  sent : List (Post α)
  handed : List (Post α)
  commands : List (Copy (ReliableCommand α))
  acknowledgements : List (Copy Acknowledgement)
  unsequenced : List (Copy (UnsequencedCommand α))

inductive LinkEvent (α : Type) where
  | send (post : Post α)
  | flush (room : ℕ)
  | timeouts (expired : OutgoingCommand α → Bool)
  | command (i : ℕ) (full : Bool)
  | acknowledgement (i : ℕ)
  | unsequenced (i : ℕ) (full : Bool)
  | receive

/-- The packets sent reliably on a channel. -/
def reliableOn (c : ℕ) (posts : List (Post α)) : List α :=
  (posts.filter fun post => post.flag = .reliable ∧ post.channelID = c).map Post.packet

def unsequencedOf (posts : List (Post α)) : List (Post α) :=
  posts.filter fun post => post.flag = .unsequenced

/-- What the receiver has put in order, handed over or about to be. -/
def Link.dispatched (l : Link α) : List (Post α) := l.handed ++ l.receiver.dispatchedCommands

/-- How many reliable packets of a channel the receiver has put in order. -/
def Link.count (l : Link α) (c : ℕ) : ℕ := (reliableOn c l.dispatched).length

def Link.start (channelCount : ℕ) : Link α where
  sender :=
    { channelCount
      channels := fun _ =>
        { outgoingReliableSequenceNumber := 0
          usedReliableWindows := 0
          reliableWindows := fun _ => 0 }
      outgoingSendReliableCommands := []
      sentReliableCommands := []
      outgoingUnsequencedGroup := 0 }
  receiver :=
    { channelCount
      channels := fun _ => { incomingReliableSequenceNumber := 0, incomingReliableCommands := [] }
      dispatchedCommands := []
      incomingUnsequencedGroup := 0
      unsequencedWindow := fun _ => false }
  sent := []
  handed := []
  commands := []
  acknowledgements := []
  unsequenced := []

namespace Link

def send (l : Link α) (post : Post α) : Link α :=
  match peerSend l.sender post with
  | none => l
  | some (sender, command) =>
    { l with
      sender
      sent := l.sent ++ [post]
      unsequenced := l.unsequenced ++
        (command.map fun x => ⟨x, (unsequencedOf l.sent).length + 1⟩).toList }

def flush (l : Link α) (room : ℕ) : Link α :=
  let (sender, commands) := checkOutgoingCommands room l.sender
  { l with
    sender
    commands := l.commands ++ commands.map fun x => ⟨x, l.count x.channelID⟩ }

def command (l : Link α) (i : ℕ) (full : Bool) : Link α :=
  match l.commands[i]? with
  | none => l
  | some copy =>
    let (receiver, ack) := handleSendReliable l.receiver copy.content full
    let l' := { l with receiver }
    { l' with
      acknowledgements := l.acknowledgements ++
        (ack.map fun x => ⟨x, l'.count x.channelID⟩).toList }

def acknowledgement (l : Link α) (i : ℕ) : Link α :=
  match l.acknowledgements[i]? with
  | none => l
  | some copy => { l with sender := removeSentReliableCommand l.sender copy.content }

def arrive (l : Link α) (i : ℕ) (full : Bool) : Link α :=
  match l.unsequenced[i]? with
  | none => l
  | some copy => { l with receiver := handleSendUnsequenced l.receiver copy.content full }

def receive (l : Link α) : Link α :=
  match peerReceive l.receiver with
  | none => l
  | some (post, receiver) => { l with receiver, handed := l.handed ++ [post] }

def step (l : Link α) : LinkEvent α → Link α
  | .send post => l.send post
  | .flush room => l.flush room
  | .timeouts expired => { l with sender := checkTimeouts l.sender expired }
  | .command i full => l.command i full
  | .acknowledgement i => l.acknowledgement i
  | .unsequenced i full => l.arrive i full
  | .receive => l.receive

end Link

/-- A reliable command or its acknowledgement is lost before the channel has moved on by a
window, an unsequenced one before as many windows have passed as a receiver looks ahead. -/
def packetLifetime : ℕ := peerReliableWindowSize
def unsequencedLifetime : ℕ := peerFreeUnsequencedWindows * peerUnsequencedWindowSize

/-- The network lets nothing out that is too old. -/
def Fresh (l : Link α) : LinkEvent α → Prop
  | .command i _ => ∀ copy ∈ l.commands[i]?,
    l.count copy.content.channelID ≤ copy.stamp + packetLifetime
  | .acknowledgement i => ∀ copy ∈ l.acknowledgements[i]?,
    l.count copy.content.channelID ≤ copy.stamp + packetLifetime
  | .unsequenced i _ => ∀ copy ∈ l.unsequenced[i]?,
    (unsequencedOf l.sent).length ≤ copy.stamp + unsequencedLifetime
  | _ => True

/-- The states of a connection, over every order of events. -/
inductive Reaches (channelCount : ℕ) : Link α → Prop where
  | start : Reaches channelCount (.start channelCount)
  | step {l : Link α} (e : LinkEvent α) :
      Reaches channelCount l → Fresh l e → Reaches channelCount (l.step e)

instance : ∀ (l : Link α) (e : LinkEvent α), Decidable (Fresh l e)
  | l, .command i _ => inferInstanceAs (Decidable (∀ copy ∈ l.commands[i]?, _))
  | l, .acknowledgement i => inferInstanceAs (Decidable (∀ copy ∈ l.acknowledgements[i]?, _))
  | l, .unsequenced i _ => inferInstanceAs (Decidable (∀ copy ∈ l.unsequenced[i]?, _))
  | _, .send _ | _, .flush _ | _, .timeouts _ | _, .receive => isTrue trivial

def Link.run (l : Link α) (events : List (LinkEvent α)) : Link α := events.foldl Link.step l

/-- Every arrival of a run is fresh. -/
def Timely (l : Link α) : List (LinkEvent α) → Prop
  | [] => True
  | e :: events => Fresh l e ∧ Timely (l.step e) events

instance Timely.decidable : ∀ (l : Link α) (events : List (LinkEvent α)),
    Decidable (Timely l events)
  | _, [] => isTrue trivial
  | l, e :: events => @instDecidableAnd _ _ _ (Timely.decidable (l.step e) events)

theorem Reaches.run {channelCount : ℕ} {l : Link α} (h : Reaches channelCount l)
    {events : List (LinkEvent α)} (htimely : Timely l events) :
    Reaches channelCount (l.run events) := by
  induction events generalizing l with
  | nil => exact h
  | cons e events ih => exact ih (h.step e htimely.1) htimely.2

/-! ## Streams -/

section

variable {c : ℕ}

@[simp] theorem reliableOn_append (posts more : List (Post α)) :
    reliableOn c (posts ++ more) = reliableOn c posts ++ reliableOn c more := by
  simp [reliableOn]

@[simp] theorem unsequencedOf_append (posts more : List (Post α)) :
    unsequencedOf (posts ++ more) = unsequencedOf posts ++ unsequencedOf more :=
  List.filter_append ..

theorem reliableOn_singleton (post : Post α) :
    reliableOn c [post] = if post.flag = .reliable ∧ post.channelID = c then [post.packet] else [] := by
  unfold reliableOn
  split <;> simp_all

@[simp] theorem reliableOn_map (c' : ℕ) (packets : List α) :
    reliableOn c (packets.map (Post.mk .reliable c')) = if c' = c then packets else [] := by
  unfold reliableOn
  split <;> simp_all [List.filter_map, Function.comp_def]

@[simp] theorem unsequencedOf_map (c' : ℕ) (packets : List α) :
    unsequencedOf (packets.map (Post.mk .reliable c')) = [] := by
  simp [unsequencedOf, List.filter_map]

end

/-! ## The invariant of a reliable channel -/

/-- The numbers from `n + 1` on, beside the packets. -/
def numbered (n : ℕ) : List α → List (ℕ × α)
  | [] => []
  | packet :: rest => ((n + 1) % uint16Size, packet) :: numbered (n + 1) rest

theorem numbered_append (n : ℕ) (packets more : List α) :
    numbered n (packets ++ more) = numbered n packets ++ numbered (n + packets.length) more := by
  induction packets generalizing n with
  | nil => rfl
  | cons packet packets ih =>
    simp only [List.cons_append, numbered, ih, List.length_cons]
    rw [show n + 1 + packets.length = n + (packets.length + 1) by omega]

/-- Held within seven windows of the last that went out. -/
def Near (t n : ℕ) : Prop :=
  t / peerReliableWindowSize ≤ n / peerReliableWindowSize + 6

/-- The first `t` packets of the channel have gone out; the fresh ones are the rest. -/
structure Sends (packets : List α) (s : Sender α) (c t : ℕ) : Prop where
  number : (s.channels c).outgoingReliableSequenceNumber = packets.length % uint16Size
  fresh : s.fresh c = numbered t (packets.drop t)
  le : t ≤ packets.length
  held : ∀ k ∈ s.held c, ∃ n ≤ t, Numbered packets k.1 k.2 n ∧ Near t n

/-- The first `d` packets of the channel are dispatched, those in `q` wait, and each of the
first `t` got through or is held. -/
structure ChannelInv (l : Link α) (c t d : ℕ) (q : List ℕ) : Prop where
  sends : Sends (reliableOn c l.sent) l.sender c t
  receives : Receives (reliableOn c l.sent) l.receiver c t d q
  dispatched : reliableOn c l.dispatched = (reliableOn c l.sent).take d
  got : ∀ n, 0 < n → n ≤ t →
    Got d q n ∨ ∃ k ∈ l.sender.held c, Numbered (reliableOn c l.sent) k.1 k.2 n ∧ Near t n
  commands : ∀ copy ∈ l.commands, copy.content.channelID = c → ∃ n ≤ t,
    Numbered (reliableOn c l.sent) copy.content.reliableSequenceNumber copy.content.data n ∧
      copy.stamp ≤ d ∧ Near copy.stamp n
  acknowledgements : ∀ copy ∈ l.acknowledgements, copy.content.channelID = c → ∃ n ≤ t,
    copy.content.receivedReliableSequenceNumber = n % uint16Size ∧ Got d q n ∧
      copy.stamp ≤ d ∧
      copy.stamp / peerReliableWindowSize ≤ n / peerReliableWindowSize + 7

section

variable {l : Link α} {c t d : ℕ} {q : List ℕ}

theorem ChannelInv.count (h : ChannelInv l c t d q) : l.count c = d := by
  have hle := h.receives.le.trans h.sends.le
  rw [Link.count, h.dispatched, List.length_take, Nat.min_eq_left hle]

/-- The receiver is never far behind: what it waits for is held. -/
theorem ChannelInv.near (h : ChannelInv l c t d q) :
    t / peerReliableWindowSize ≤ d / peerReliableWindowSize + 7 := by
  rcases Nat.lt_or_ge d t with hlt | hle
  · rcases h.got (d + 1) (Nat.succ_pos d) hlt with (hle | hmem) | ⟨k, -, -, hnear⟩
    · omega
    · have := (h.receives.ahead _ hmem).1
      omega
    · unfold Near peerReliableWindowSize at hnear
      unfold peerReliableWindowSize
      omega
  · exact (Nat.div_le_div_right hle).trans (Nat.le_add_right _ 7)

end

end Fnvmp.Enet
