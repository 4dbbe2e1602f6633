import Fnvmp.EnetLink
import Fnvmp.EnetLists
import Fnvmp.EventRun

/-!
# The receiving half in memory

A command is put in its place of a channel's ring, from the back, and the consecutive ones at the
head move in one piece to the ring of those that wait to be handed over. Whatever the memory holds
at first, the loops do what the receiver on lists does.
-/

namespace Fnvmp.Enet

open Protocol SequenceWindow IntrusiveList

variable {ν : Type} [DecidableEq ν]

/-- The lists of a peer that hold incoming commands. -/
inductive Queue where
  | dispatched
  | reliable (channelID : ℕ)
  | unreliable (channelID : ℕ)
  deriving DecidableEq

def Queue.Exists (channelCount : ℕ) : Queue → Prop
  | .dispatched => True
  | .reliable channelID | .unreliable channelID => channelID < channelCount

/-- An `ENetIncomingCommand`, reliable or unsequenced. -/
structure IncomingCommand (α : Type) where
  flag : PacketFlag
  channelID : ℕ
  reliableSequenceNumber : ℕ
  packet : α

def IncomingCommand.post {α : Type} (command : IncomingCommand α) : Post α where
  flag := command.flag
  channelID := command.channelID
  packet := command.packet

def ReliableCommand.incoming {α : Type} (command : ReliableCommand α) : IncomingCommand α where
  flag := .reliable
  channelID := command.channelID
  reliableSequenceNumber := command.reliableSequenceNumber
  packet := command.data

def UnsequencedCommand.incoming {α : Type} (command : UnsequencedCommand α) :
    IncomingCommand α where
  flag := .unsequenced
  channelID := command.channelID
  reliableSequenceNumber := 0
  packet := command.data

/-- The receiver with its queues in memory. `live` are the nodes that the allocator has given
out. -/
structure StoredReceiver (ν α : Type) where
  heap : Heap ν
  command : ν → IncomingCommand α
  live : List ν
  channelCount : ℕ
  incomingReliableSequenceNumber : ℕ → ℕ
  incomingUnsequencedGroup : ℕ
  unsequencedWindow : ℕ → Bool

section

variable {α : Type} (sentinel : Queue → ν)

namespace StoredReceiver

/-- The search from the back of the queue for the node behind which a command belongs,
`some none` where it is there already; `none` if it is not through after `fuel` turns. -/
def findPlace (p : StoredReceiver ν α) (low number : ℕ) (list : ν) : ℕ → ν → Option (Option ν)
  | 0, _ => none
  | fuel + 1, current =>
    if current = list then some (some current)
    else
      let incoming := (p.command current).reliableSequenceNumber
      if low ≤ number ∧ incoming < low then
        p.findPlace low number list fuel (p.heap.previous current)
      else if number < low ∧ low ≤ incoming then some (some current)
      else if incoming < number then some (some current)
      else if incoming = number then some none
      else p.findPlace low number list fuel (p.heap.previous current)

/-- The loop over the consecutive commands at the head of the queue, with the node at which it
ends. -/
def dispatchLoop (p : StoredReceiver ν α) (list : ν) : ℕ → ℕ → ν → Option (ℕ × ν)
  | 0, _, _ => none
  | fuel + 1, low, current =>
    if current = list then some (low, current)
    else
      let number := (p.command current).reliableSequenceNumber
      if number ≠ (low + 1) % uint16Size then some (low, current)
      else p.dispatchLoop list fuel number (p.heap.next current)

/-- The commands in front of `current` move to the end of the dispatched ones, if there are
any. -/
def handOn (p : StoredReceiver ν α) (channelID low : ℕ) (current : ν) : StoredReceiver ν α :=
  let first := p.heap.next (sentinel (.reliable channelID))
  { p with
    heap :=
      if current = first then p.heap
      else listMove p.heap (sentinel .dispatched) first (p.heap.previous current)
    incomingReliableSequenceNumber :=
      Function.update p.incomingReliableSequenceNumber channelID low }

/-- The command is taken out of its list and freed. -/
def discard (p : StoredReceiver ν α) (x : ν) : StoredReceiver ν α :=
  { p with heap := listRemove p.heap x, live := p.live.erase x }

/-- `enet_peer_remove_incoming_commands`. -/
def removeIncomingCommands (endCommand excludeCommand : ν) :
    ℕ → ν → StoredReceiver ν α → Option (StoredReceiver ν α)
  | 0, _, _ => none
  | fuel + 1, current, p =>
    if current = endCommand then some p
    else
      let following := p.heap.next current
      if current = excludeCommand then
        removeIncomingCommands endCommand excludeCommand fuel following p
      else removeIncomingCommands endCommand excludeCommand fuel following (p.discard current)

/-- The loop over a queue of unsequenced commands, with the node at which it ends. It passes
every one of them; `none` is also a command of another kind, which is never in the queue. -/
def passLoop (p : StoredReceiver ν α) (list : ν) : ℕ → ν → Option ν
  | 0, _ => none
  | fuel + 1, current =>
    if current = list then some current
    else if (p.command current).flag = .unsequenced then
      p.passLoop list fuel (p.heap.next current)
    else none

/-- The commands that the loop has passed move to the end of the dispatched ones, if there are
any. -/
def passOn (p : StoredReceiver ν α) (channelID : ℕ) (current : ν) : StoredReceiver ν α :=
  let startCommand := p.heap.next (sentinel (.unreliable channelID))
  { p with
    heap :=
      if startCommand = current then p.heap
      else listMove p.heap (sentinel .dispatched) startCommand (p.heap.previous current) }

/-- `enet_peer_dispatch_incoming_unreliable_commands`. -/
def dispatchIncomingUnreliableCommands (p : StoredReceiver ν α) (fuel channelID : ℕ)
    (queuedCommand : ν) : Option (StoredReceiver ν α) :=
  let list := sentinel (.unreliable channelID)
  (p.passLoop list fuel (p.heap.next list)).bind fun droppedCommand =>
    let p := p.passOn sentinel channelID droppedCommand
    removeIncomingCommands droppedCommand queuedCommand fuel (p.heap.next list) p

/-- `enet_peer_dispatch_incoming_reliable_commands`. -/
def dispatchIncomingReliableCommands (p : StoredReceiver ν α) (fuel channelID : ℕ)
    (queuedCommand : ν) : Option (StoredReceiver ν α) :=
  let list := sentinel (.reliable channelID)
  let unreliable := sentinel (.unreliable channelID)
  (p.dispatchLoop list fuel (p.incomingReliableSequenceNumber channelID) (p.heap.next list)).bind
    fun (low, current) =>
      let p' := p.handOn sentinel channelID low current
      if current = p.heap.next list ∨ p'.heap.next unreliable = unreliable then some p'
      else p'.dispatchIncomingUnreliableCommands sentinel fuel channelID queuedCommand

/-- The node `x` with the command in it, in front of `position`. -/
def insert (p : StoredReceiver ν α) (position x : ν) (command : IncomingCommand α) :
    StoredReceiver ν α :=
  { p with
    heap := listInsert p.heap position x
    command := Function.update p.command x command
    live := x :: p.live }

/-- `enet_peer_queue_incoming_command` for a `SEND_RELIABLE` command with the node that it is
given, `some none` where it returns NULL. -/
def queueIncomingCommand (p : StoredReceiver ν α) (fuel : ℕ) (x : ν) (command : ReliableCommand α)
    (full : Bool) : Option (Option (StoredReceiver ν α)) :=
  let low := p.incomingReliableSequenceNumber command.channelID
  let reliableWindow :=
    windowFrom peerReliableWindows peerReliableWindowSize low command.reliableSequenceNumber
  let currentWindow := low / peerReliableWindowSize
  let list := sentinel (.reliable command.channelID)
  if reliableWindow < currentWindow ∨
      currentWindow + peerFreeReliableWindows - 1 ≤ reliableWindow then some (some p)
  else if command.reliableSequenceNumber = low then some (some p)
  else
    match p.findPlace low command.reliableSequenceNumber list fuel (p.heap.previous list) with
    | none => none
    | some none => some (some p)
    | some (some current) =>
      if full then some none
      else
        ((p.insert (p.heap.next current) x command.incoming).dispatchIncomingReliableCommands
          sentinel fuel command.channelID x).map some

/-- `enet_peer_receive`. -/
def peerReceive (p : StoredReceiver ν α) : Option (Post α × StoredReceiver ν α) :=
  let x := p.heap.next (sentinel .dispatched)
  if x = sentinel .dispatched then none
  else some ((p.command x).post, p.discard x)

/-- `enet_peer_queue_acknowledgement`: whether the command is acknowledged. -/
def queueAcknowledgement (p : StoredReceiver ν α) (command : ReliableCommand α) : Bool :=
  let low := p.incomingReliableSequenceNumber command.channelID
  let reliableWindow :=
    windowFrom peerReliableWindows peerReliableWindowSize low command.reliableSequenceNumber
  let currentWindow := low / peerReliableWindowSize
  !(decide (currentWindow + peerFreeReliableWindows - 1 ≤ reliableWindow) &&
    decide (reliableWindow ≤ currentWindow + peerFreeReliableWindows))

/-- `enet_protocol_handle_send_reliable` and the acknowledgement that is queued after it. -/
def handleSendReliable (p : StoredReceiver ν α) (fuel : ℕ) (x : ν) (command : ReliableCommand α)
    (full : Bool) : Option (StoredReceiver ν α × Option Acknowledgement) :=
  if p.channelCount ≤ command.channelID then some (p, none)
  else
    match p.queueIncomingCommand sentinel fuel x command full with
    | none => none
    | some none => some (p, none)
    | some (some p') =>
      if p'.queueAcknowledgement command then
        some (p', some { channelID := command.channelID
                         receivedReliableSequenceNumber := command.reliableSequenceNumber })
      else some (p', none)

/-- `enet_protocol_handle_send_unsequenced`. -/
def handleSendUnsequenced (p : StoredReceiver ν α) (fuel : ℕ) (x : ν)
    (command : UnsequencedCommand α) (full : Bool) : Option (StoredReceiver ν α) :=
  if p.channelCount ≤ command.channelID then some p
  else
    let index := command.unsequencedGroup % peerUnsequencedWindowSize
    let base := p.incomingUnsequencedGroup
    if base + peerFreeUnsequencedWindows * peerUnsequencedWindowSize ≤
        lift uint16Size base command.unsequencedGroup then some p
    else
      let turned := command.unsequencedGroup - index ≠ base
      if ¬turned ∧ p.unsequencedWindow index then some p
      else
        let p' := if turned then
          { p with
            incomingUnsequencedGroup := command.unsequencedGroup - index
            unsequencedWindow := fun _ => false }
          else p
        if full then some p'
        else
          let position := p'.heap.next (sentinel (.unreliable command.channelID))
          ((p'.insert position x command.incoming).dispatchIncomingUnreliableCommands sentinel
            fuel command.channelID x).map fun p'' =>
              { p'' with unsequencedWindow := Function.update p'.unsequencedWindow index true }

/-- A node that the allocator may give out. -/
def Unused (p : StoredReceiver ν α) (x : ν) : Prop :=
  x ∉ p.live ∧ x ≠ sentinel .dispatched ∧
    ∀ c < p.channelCount, x ≠ sentinel (.reliable c) ∧ x ≠ sentinel (.unreliable c)

instance (p : StoredReceiver ν α) (x : ν) : Decidable (p.Unused sentinel x) :=
  inferInstanceAs (Decidable (_ ∧ _ ∧ ∀ c < p.channelCount, _ ∧ _))

end StoredReceiver

/-! ## What the memory holds -/

/-- The nodes `contents` of the queues hold the commands of the receiver, and no others are
given out. -/
structure Represents (p : StoredReceiver ν α) (contents : Queue → List ν) (r : Receiver α) :
    Prop where
  rings : Rings p.heap sentinel (Queue.Exists p.channelCount) contents
  live : ∀ x, x ∈ p.live ↔ ∃ i, Queue.Exists p.channelCount i ∧ x ∈ contents i
  once : p.live.Nodup
  dispatched : ((contents .dispatched).map fun x => (p.command x).post) = r.dispatchedCommands
  reliable : ∀ c < p.channelCount, (contents (.reliable c)).map p.command =
    (r.channels c).incomingReliableCommands.map ReliableCommand.incoming
  unreliable : ∀ c < p.channelCount, contents (.unreliable c) = []
  channelCount : p.channelCount = r.channelCount
  numbers : ∀ c, p.incomingReliableSequenceNumber c =
    (r.channels c).incomingReliableSequenceNumber
  group : p.incomingUnsequencedGroup = r.incomingUnsequencedGroup
  window : p.unsequencedWindow = r.unsequencedWindow

variable {sentinel} {p : StoredReceiver ν α} {r : Receiver α} {contents : Queue → List ν}

section

variable {list : ν} {us vs xs : List ν} {queue : List (ReliableCommand α)} {fuel : ℕ}

/-- The search finds the place at which the list puts the command. -/
theorem StoredReceiver.findPlace_spec (hr : Linked p.heap list (us ++ vs))
    (hqueue : us.map p.command = queue.map ReliableCommand.incoming) (hfuel : us.length < fuel)
    (low : ℕ) (command : ReliableCommand α) :
    (placeFromBack low command queue.reverse = none ∧
        p.findPlace low command.reliableSequenceNumber list fuel (us.getLastD list) =
          some none) ∨
      ∃ front back before behind, us = front ++ back ∧
        front.map p.command = before.map ReliableCommand.incoming ∧
        back.map p.command = behind.map ReliableCommand.incoming ∧
        placeFromBack low command queue.reverse = some (before ++ command :: behind).reverse ∧
        p.findPlace low command.reliableSequenceNumber list fuel (us.getLastD list) =
          some (some (front.getLastD list)) := by
  induction us using List.reverseRecOn generalizing queue vs fuel with
  | nil =>
    cases fuel with
    | zero => cases hfuel
    | succ fuel =>
      have hnil : queue = [] := List.map_eq_nil_iff.mp hqueue.symm
      refine .inr ⟨[], [], [], [], rfl, rfl, rfl, ?_, ?_⟩
      · rw [hnil]
        rfl
      · rw [StoredReceiver.findPlace, List.getLastD_nil, if_pos rfl]
  | append_singleton us x ih =>
    cases fuel with
    | zero => cases hfuel
    | succ fuel =>
      obtain rfl | ⟨queue, incoming, rfl⟩ := queue.eq_nil_or_concat'
      · simp at hqueue
      have hboth : us.map p.command = queue.map ReliableCommand.incoming ∧
          p.command x = incoming.incoming := by simpa using hqueue
      obtain ⟨hqueue', hx⟩ := hboth
      have hnumber : (p.command x).reliableSequenceNumber = incoming.reliableSequenceNumber := by
        rw [hx]
        rfl
      have hr' : Linked p.heap list (us ++ x :: vs) := by
        rw [List.append_assoc] at hr
        exact hr
      have hne : x ≠ list := fun heq =>
        (List.nodup_cons.mp hr'.nodup).1 (heq ▸ List.mem_append_right us List.mem_cons_self)
      have hprevious : p.heap.previous x = us.getLastD list :=
        (linked_cons_iff.mp hr').2.2.2.1.2
      have hfuel' : us.length < fuel := by simpa using hfuel
      have hstop : ∃ front back before behind, us ++ [x] = front ++ back ∧
          front.map p.command = before.map ReliableCommand.incoming ∧
          back.map p.command = behind.map ReliableCommand.incoming ∧
          some (command :: incoming :: queue.reverse) =
            some (before ++ command :: behind).reverse ∧
          some (some x) = some (some (front.getLastD list)) :=
        ⟨us ++ [x], [], queue ++ [incoming], [], by simp, hqueue, rfl, by simp, by simp⟩
      have hcontinue : ((placeFromBack low command queue.reverse).map (incoming :: ·) = none ∧
            p.findPlace low command.reliableSequenceNumber list fuel (us.getLastD list) =
              some none) ∨
          ∃ front back before behind, us ++ [x] = front ++ back ∧
            front.map p.command = before.map ReliableCommand.incoming ∧
            back.map p.command = behind.map ReliableCommand.incoming ∧
            (placeFromBack low command queue.reverse).map (incoming :: ·) =
              some (before ++ command :: behind).reverse ∧
            p.findPlace low command.reliableSequenceNumber list fuel (us.getLastD list) =
              some (some (front.getLastD list)) := by
        obtain ⟨hnone, hsearch⟩ | ⟨front, back, before, behind, hsplit, hfront, hback, hplace,
          hsearch⟩ := ih hr' hqueue' hfuel'
        · exact .inl ⟨by rw [hnone]; rfl, hsearch⟩
        · refine .inr ⟨front, back ++ [x], before, behind ++ [incoming], ?_, hfront, ?_, ?_,
            hsearch⟩
          · rw [hsplit, List.append_assoc]
          · simpa using ⟨hback, hx⟩
          · rw [hplace]
            simp
      have hlast : (us ++ [x]).getLastD list = x := by simp
      rw [List.reverse_append, List.reverse_singleton, List.singleton_append, placeFromBack,
        hlast, StoredReceiver.findPlace, if_neg hne, hnumber, hprevious]
      dsimp only
      by_cases hold : low ≤ command.reliableSequenceNumber ∧ incoming.reliableSequenceNumber < low
      · simp only [if_pos hold]
        exact hcontinue
      by_cases hnew : command.reliableSequenceNumber < low ∧ low ≤ incoming.reliableSequenceNumber
      · simp only [if_neg hold, if_pos hnew]
        exact .inr hstop
      by_cases hlt : incoming.reliableSequenceNumber < command.reliableSequenceNumber
      · simp only [if_neg hold, if_neg hnew, if_pos hlt]
        exact .inr hstop
      by_cases heq : incoming.reliableSequenceNumber = command.reliableSequenceNumber
      · refine .inl ⟨?_, ?_⟩
        · rw [if_neg hold, if_neg hnew, if_neg hlt, if_pos heq]
        · rw [if_neg hold, if_neg hnew, if_neg hlt, if_pos heq]
      · simp only [if_neg hold, if_neg hnew, if_neg hlt, if_neg heq]
        exact hcontinue

/-- The loop ends behind the commands that the list hands on. -/
theorem StoredReceiver.dispatchLoop_spec (hr : Linked p.heap list (us ++ xs))
    (hqueue : xs.map p.command = queue.map ReliableCommand.incoming) (hfuel : xs.length < fuel)
    (low : ℕ) : ∃ moved left, xs = moved ++ left ∧
      moved.map p.command = (Enet.dispatchLoop low queue).2.1.map ReliableCommand.incoming ∧
      left.map p.command = (Enet.dispatchLoop low queue).2.2.map ReliableCommand.incoming ∧
      p.dispatchLoop list fuel low (xs.headD list) =
        some ((Enet.dispatchLoop low queue).1, left.headD list) := by
  induction xs generalizing us queue fuel low with
  | nil =>
    cases fuel with
    | zero => cases hfuel
    | succ fuel =>
      have hnil : queue = [] := List.map_eq_nil_iff.mp hqueue.symm
      refine ⟨[], [], rfl, ?_, ?_, ?_⟩
      · rw [hnil]
        rfl
      · rw [hnil]
        rfl
      · rw [StoredReceiver.dispatchLoop, List.headD_nil, if_pos rfl, hnil]
        rfl
  | cons x xs ih =>
    cases fuel with
    | zero => cases hfuel
    | succ fuel =>
      cases queue with
      | nil => cases hqueue
      | cons incoming queue =>
        obtain ⟨hx, hqueue'⟩ := List.cons.inj hqueue
        have hnumber : (p.command x).reliableSequenceNumber = incoming.reliableSequenceNumber := by
          rw [hx]
          rfl
        have hne : x ≠ list := fun heq =>
          (List.nodup_cons.mp hr.nodup).1 (heq ▸ List.mem_append_right us List.mem_cons_self)
        have hnext : p.heap.next x = xs.headD list := (linked_cons_iff.mp hr).2.2.2.2.1
        rw [StoredReceiver.dispatchLoop, List.headD_cons, if_neg hne, hnumber, hnext,
          Enet.dispatchLoop]
        dsimp only
        by_cases hgap : incoming.reliableSequenceNumber ≠ (low + 1) % uint16Size
        · simp only [if_pos hgap]
          exact ⟨[], x :: xs, rfl, rfl, hqueue, rfl⟩
        · simp only [if_neg hgap]
          rw [List.append_cons] at hr
          obtain ⟨moved, left, rfl, hmoved, hleft, hloop⟩ :=
            ih hr hqueue' (Nat.lt_of_succ_lt_succ hfuel) incoming.reliableSequenceNumber
          refine ⟨x :: moved, left, rfl, ?_, hleft, hloop⟩
          rw [List.map_cons, List.map_cons, hx, hmoved]

/-- The loop passes unsequenced commands to the end of their queue. -/
theorem StoredReceiver.passLoop_spec (hr : Linked p.heap list (us ++ xs))
    (hflags : ∀ x ∈ xs, (p.command x).flag = .unsequenced) (hfuel : xs.length < fuel) :
    p.passLoop list fuel (xs.headD list) = some list := by
  induction xs generalizing us fuel with
  | nil =>
    cases fuel with
    | zero => cases hfuel
    | succ fuel => rw [StoredReceiver.passLoop, List.headD_nil, if_pos rfl]
  | cons x xs ih =>
    cases fuel with
    | zero => cases hfuel
    | succ fuel =>
      have hne : x ≠ list := fun heq =>
        (List.nodup_cons.mp hr.nodup).1 (heq ▸ List.mem_append_right us List.mem_cons_self)
      have hnext : p.heap.next x = xs.headD list := (linked_cons_iff.mp hr).2.2.2.2.1
      obtain ⟨hflag, hflags⟩ := List.forall_mem_cons.mp hflags
      rw [List.append_cons] at hr
      rw [StoredReceiver.passLoop, List.headD_cons, if_neg hne, if_pos hflag, hnext]
      exact ih hr hflags (Nat.lt_of_succ_lt_succ hfuel)

end

omit [DecidableEq ν] in
theorem exists_update {valid : Queue → Prop} (contents : Queue → List ν) {i : Queue}
    (hi : valid i) (zs : List ν) (x : ν) :
    (∃ j, valid j ∧ x ∈ Function.update contents i zs j) ↔
      x ∈ zs ∨ ∃ j, valid j ∧ j ≠ i ∧ x ∈ contents j := by
  constructor
  · rintro ⟨j, hj, hx⟩
    obtain rfl | hne := eq_or_ne j i
    · rw [Function.update_self] at hx
      exact .inl hx
    · rw [Function.update_of_ne hne] at hx
      exact .inr ⟨j, hj, hne, hx⟩
  · rintro (hx | ⟨j, hj, hne, hx⟩)
    · refine ⟨i, hi, ?_⟩
      rw [Function.update_self]
      exact hx
    · refine ⟨j, hj, ?_⟩
      rw [Function.update_of_ne hne]
      exact hx

omit [DecidableEq ν] in
theorem exists_split {valid : Queue → Prop} {i : Queue} (hi : valid i) (x : ν) :
    (∃ j, valid j ∧ x ∈ contents j) ↔
      x ∈ contents i ∨ ∃ j, valid j ∧ j ≠ i ∧ x ∈ contents j := by
  have hsame := exists_update contents hi (contents i) x
  rw [Function.update_eq_self] at hsame
  exact hsame

omit [DecidableEq ν] in
theorem Represents.length_le (h : Represents sentinel p contents r) {i : Queue}
    (hi : i.Exists p.channelCount) : (contents i).length ≤ p.live.length := by
  have hnodup : (contents i).Nodup := (List.nodup_cons.mp (h.rings.linked i hi).nodup).2
  have hsub : contents i ⊆ p.live := fun x hx => (h.live x).mpr ⟨i, hi, hx⟩
  exact (List.subperm_of_subset hnodup hsub).length_le

omit [DecidableEq ν] in
/-- Which nodes are given out does not change when a segment moves. -/
theorem Represents.live_moved (h : Represents sentinel p contents r) {i j : Queue}
    (hi : i.Exists p.channelCount) (hj : j.Exists p.channelCount) (hij : i ≠ j)
    {moved left : List ν} (hsplit : contents i = moved ++ left) (x : ν) :
    x ∈ p.live ↔ ∃ k, Queue.Exists p.channelCount k ∧
      x ∈ Function.update (Function.update contents i left) j (contents j ++ moved) k := by
  rw [h.live x, exists_update _ hj, exists_split hi]
  constructor
  · rintro (hx | ⟨k, hk, hne, hx⟩)
    · rw [hsplit] at hx
      obtain hx | hx := List.mem_append.mp hx
      · exact .inl (List.mem_append_right _ hx)
      · refine .inr ⟨i, hi, hij, ?_⟩
        rw [Function.update_self]
        exact hx
    · obtain rfl | hkj := eq_or_ne k j
      · exact .inl (List.mem_append_left _ hx)
      · refine .inr ⟨k, hk, hkj, ?_⟩
        rw [Function.update_of_ne hne]
        exact hx
  · rintro (hx | ⟨k, hk, hne, hx⟩)
    · obtain hx | hx := List.mem_append.mp hx
      · exact .inr ⟨j, hj, hij.symm, hx⟩
      · refine .inl ?_
        rw [hsplit]
        exact List.mem_append_left left hx
    · obtain rfl | hki := eq_or_ne k i
      · rw [Function.update_self] at hx
        refine .inl ?_
        rw [hsplit]
        exact List.mem_append_right moved hx
      · rw [Function.update_of_ne hki] at hx
        exact .inr ⟨k, hk, hki, hx⟩

/-- The rings after the commands in front of `left` have moved. -/
theorem Represents.handOn_rings (h : Represents sentinel p contents r) {c : ℕ} (low : ℕ)
    (hc : c < p.channelCount) {moved left : List ν}
    (hsplit : contents (.reliable c) = moved ++ left) :
    Rings (p.handOn sentinel c low (left.headD (sentinel (.reliable c)))).heap sentinel
      (Queue.Exists p.channelCount)
      (Function.update (Function.update contents (.reliable c) left) .dispatched
        (contents .dispatched ++ moved)) := by
  have hi : Queue.Exists p.channelCount (.reliable c) := hc
  have hj : Queue.Exists p.channelCount .dispatched := trivial
  have hij : Queue.reliable c ≠ .dispatched := by simp
  have hring := h.rings.linked (.reliable c) hi
  have hfirst := hring.next_sentinel
  have hring' : Linked p.heap (sentinel (.reliable c)) (moved ++ left) := hsplit ▸ hring
  cases moved with
  | nil =>
    have hsame : left.headD (sentinel (.reliable c)) = p.heap.next (sentinel (.reliable c)) := by
      rw [hfirst, hsplit, List.nil_append]
    have hcontents : Function.update (Function.update contents (.reliable c) left) .dispatched
        (contents .dispatched ++ []) = contents := by
      have hleft : left = contents (.reliable c) := by rw [hsplit, List.nil_append]
      rw [List.append_nil, hleft, Function.update_eq_self, Function.update_eq_self]
    rw [hcontents]
    unfold StoredReceiver.handOn
    dsimp only
    rw [if_pos hsame]
    exact h.rings
  | cons m moved =>
    have hout : left.headD (sentinel (.reliable c)) ≠ p.heap.next (sentinel (.reliable c)) := by
      rw [hfirst, hsplit, List.cons_append, List.headD_cons]
      intro heq
      exact hring'.first_notin (heq ▸ List.mem_cons_self)
    have hlast : p.heap.previous (left.headD (sentinel (.reliable c))) = moved.getLastD m := by
      rw [hring'.link.2, List.getLastD_cons]
    have hfrom : contents (.reliable c) = [] ++ (m :: moved ++ left) := hsplit
    have hto : contents .dispatched = contents .dispatched ++ [] := (List.append_nil _).symm
    have hmove := h.rings.move hi hj hij hfrom hto
    unfold StoredReceiver.handOn
    dsimp only
    rw [if_neg hout, hlast, hfirst, hsplit, List.cons_append, List.headD_cons]
    simpa using hmove

/-- The consecutive commands move to the end of the dispatched ones, in one piece. -/
theorem Represents.handOn (h : Represents sentinel p contents r) {c low : ℕ}
    (hc : c < p.channelCount) {moved left : List ν}
    (hsplit : contents (.reliable c) = moved ++ left) {before behind : List (ReliableCommand α)}
    (hmoved : moved.map p.command = before.map ReliableCommand.incoming)
    (hleft : left.map p.command = behind.map ReliableCommand.incoming) :
    Represents sentinel (p.handOn sentinel c low (left.headD (sentinel (.reliable c))))
      (Function.update (Function.update contents (.reliable c) left) .dispatched
        (contents .dispatched ++ moved))
      { r with
        channels := Function.update r.channels c
          { incomingReliableSequenceNumber := low, incomingReliableCommands := behind }
        dispatchedCommands := r.dispatchedCommands ++ before.map ReliableCommand.post } := by
  have hi : Queue.Exists p.channelCount (.reliable c) := hc
  have hj : Queue.Exists p.channelCount .dispatched := trivial
  have hij : Queue.reliable c ≠ .dispatched := by simp
  constructor
  case rings => exact h.handOn_rings low hc hsplit
  case live => exact h.live_moved hi hj hij hsplit
  case once => exact h.once
  case dispatched =>
    rw [Function.update_self, List.map_append]
    refine congrArg₂ _ h.dispatched ?_
    have hposts := congrArg (List.map IncomingCommand.post) hmoved
    rw [List.map_map, List.map_map] at hposts
    exact hposts
  case reliable =>
    intro c' hc'
    rw [Function.update_of_ne (by simp)]
    dsimp only
    obtain rfl | hne := eq_or_ne c' c
    · rw [Function.update_self, Function.update_self]
      exact hleft
    · rw [Function.update_of_ne (by simpa using hne), Function.update_of_ne hne]
      exact h.reliable c' hc'
  case unreliable =>
    intro c' hc'
    rw [Function.update_of_ne (by simp), Function.update_of_ne (by simp)]
    exact h.unreliable c' hc'
  case channelCount => exact h.channelCount
  case numbers =>
    intro c'
    unfold StoredReceiver.handOn
    dsimp only
    obtain rfl | hne := eq_or_ne c' c
    · rw [Function.update_self, Function.update_self]
    · rw [Function.update_of_ne hne, Function.update_of_ne hne]
      exact h.numbers c'
  case group => exact h.group
  case window => exact h.window

omit [DecidableEq ν] in
/-- The queue of the unsequenced commands is empty between the calls. -/
theorem Represents.unreliable_empty (h : Represents sentinel p contents r) {c : ℕ}
    (hc : c < p.channelCount) :
    p.heap.next (sentinel (.unreliable c)) = sentinel (.unreliable c) := by
  have hi : Queue.Exists p.channelCount (.unreliable c) := hc
  rw [(h.rings.linked (.unreliable c) hi).next_sentinel, h.unreliable c hc, List.headD_nil]

theorem Represents.dispatchIncomingReliableCommands (h : Represents sentinel p contents r)
    {c fuel : ℕ} (hc : c < p.channelCount) (hfuel : p.live.length < fuel) (x : ν) : ∃ p' contents',
      p.dispatchIncomingReliableCommands sentinel fuel c x = some p' ∧
        Represents sentinel p' contents' (Enet.dispatchIncomingReliableCommands r c) ∧
        p'.live = p.live := by
  have hi : Queue.Exists p.channelCount (.reliable c) := hc
  have hring := h.rings.linked (.reliable c) hi
  have hring' : Linked p.heap (sentinel (.reliable c)) ([] ++ contents (.reliable c)) := hring
  obtain ⟨moved, left, hsplit, hmoved, hleft, hloop⟩ :=
    StoredReceiver.dispatchLoop_spec hring' (h.reliable c hc)
      ((h.length_le hi).trans_lt hfuel) (r.channels c).incomingReliableSequenceNumber
  rw [← hring.next_sentinel, ← h.numbers c] at hloop
  have hmove : Represents sentinel (p.handOn sentinel c _ (left.headD (sentinel (.reliable c)))) _
      (Enet.dispatchIncomingReliableCommands r c) := h.handOn hc hsplit hmoved hleft
  refine ⟨_, _, ?_, hmove, rfl⟩
  unfold StoredReceiver.dispatchIncomingReliableCommands
  dsimp only
  rw [hloop, Option.bind_some, h.numbers c]
  exact if_pos (.inr (hmove.unreliable_empty hc))

section

variable {x : ν}

omit [DecidableEq ν] in
theorem Represents.unused (h : Represents sentinel p contents r) (hx : p.Unused sentinel x)
    (i : Queue) (hi : i.Exists p.channelCount) : x ∉ sentinel i :: contents i := by
  obtain ⟨hlive, hdispatched, hchannels⟩ := hx
  intro hmem
  obtain heq | hmem := List.mem_cons.mp hmem
  · cases i with
    | dispatched => exact hdispatched heq
    | reliable c => exact (hchannels c hi).1 heq
    | unreliable c => exact (hchannels c hi).2 heq
  · exact hlive ((h.live x).mpr ⟨i, hi, hmem⟩)

theorem map_insert {β : Type} {xs : List ν} (hx : x ∉ xs) (f : IncomingCommand α → β)
    (g : ν → IncomingCommand α) (command : IncomingCommand α) :
    xs.map (fun y => f (Function.update g x command y)) = xs.map fun y => f (g y) := by
  refine List.map_congr_left fun y hy => ?_
  rw [Function.update_of_ne]
  rintro rfl
  exact hx hy

/-- A command is put in its place of a channel's queue. -/
theorem Represents.insert (h : Represents sentinel p contents r) (hx : p.Unused sentinel x) {c : ℕ}
    (hc : c < p.channelCount) {front back : List ν}
    (hsplit : contents (.reliable c) = front ++ back) {before behind : List (ReliableCommand α)}
    (hfront : front.map p.command = before.map ReliableCommand.incoming)
    (hback : back.map p.command = behind.map ReliableCommand.incoming)
    (command : ReliableCommand α) :
    Represents sentinel (p.insert (back.headD (sentinel (.reliable c))) x command.incoming)
      (Function.update contents (.reliable c) (front ++ x :: back))
      { r with
        channels := Function.update r.channels c
          { r.channels c with incomingReliableCommands := before ++ command :: behind } } := by
  have hi : Queue.Exists p.channelCount (.reliable c) := hc
  have hout := h.unused hx
  have hqueue : x ∉ front ++ back := fun hmem =>
    hout _ hi (List.mem_cons_of_mem _ (hsplit ▸ hmem))
  constructor
  case rings => exact h.rings.insert hi hsplit hout
  case live =>
    intro y
    have hlive := h.live y
    rw [exists_split hi] at hlive
    have hmem : y ∈ front ++ x :: back ↔ y = x ∨ y ∈ front ++ back :=
      List.perm_middle.mem_iff.trans List.mem_cons
    refine Iff.trans ?_ (exists_update contents hi (front ++ x :: back) y).symm
    refine List.mem_cons.trans ?_
    rw [hlive, hsplit, hmem, or_assoc]
  case once => exact List.nodup_cons.mpr ⟨hx.1, h.once⟩
  case dispatched =>
    rw [Function.update_of_ne (by simp)]
    refine (map_insert ?_ IncomingCommand.post p.command command.incoming).trans h.dispatched
    exact fun hmem => hout .dispatched trivial (List.mem_cons_of_mem _ hmem)
  case reliable =>
    intro c' hc'
    dsimp only
    obtain rfl | hne := eq_or_ne c' c
    · rw [Function.update_self, Function.update_self, List.map_append, List.map_append,
        List.map_cons, List.map_cons, ← hfront, ← hback]
      have hfront' := map_insert (fun hmem => hqueue (List.mem_append_left back hmem)) id
        p.command command.incoming
      have hback' := map_insert (fun hmem => hqueue (List.mem_append_right front hmem)) id
        p.command command.incoming
      refine congrArg₂ _ hfront' (congrArg₂ _ ?_ hback')
      exact Function.update_self ..
    · rw [Function.update_of_ne (by simpa using hne), Function.update_of_ne hne,
        ← h.reliable c' hc']
      refine map_insert ?_ id p.command command.incoming
      exact fun hmem => hout (.reliable c') hc' (List.mem_cons_of_mem _ hmem)
  case unreliable =>
    intro c' hc'
    rw [Function.update_of_ne (by simp)]
    exact h.unreliable c' hc'
  case channelCount => exact h.channelCount
  case numbers =>
    intro c'
    dsimp only
    obtain rfl | hne := eq_or_ne c' c
    · rw [Function.update_self]
      exact h.numbers c'
    · rw [Function.update_of_ne hne]
      exact h.numbers c'
  case group => exact h.group
  case window => exact h.window

/-- The command is queued, dropped or refused as on lists. -/
theorem Represents.queueIncomingCommand (h : Represents sentinel p contents r)
    (hx : p.Unused sentinel x) {command : ReliableCommand α}
    (hc : command.channelID < p.channelCount) (full : Bool) {fuel : ℕ}
    (hfuel : p.live.length + 1 < fuel) :
    (Enet.queueIncomingCommand r command full = none ∧
        p.queueIncomingCommand sentinel fuel x command full = some none) ∨
      ∃ r' p' contents', Enet.queueIncomingCommand r command full = some r' ∧
        p.queueIncomingCommand sentinel fuel x command full = some (some p') ∧
        Represents sentinel p' contents' r' ∧ p'.live.length ≤ p.live.length + 1 := by
  have hi : Queue.Exists p.channelCount (.reliable command.channelID) := hc
  have hring : Linked p.heap (sentinel (.reliable command.channelID))
      (contents (.reliable command.channelID) ++ []) := by
    rw [List.append_nil]
    exact h.rings.linked _ hi
  have hlength : (contents (.reliable command.channelID)).length < fuel :=
    (h.length_le hi).trans_lt (by omega)
  have hlast : p.heap.previous (sentinel (.reliable command.channelID)) =
      (contents (.reliable command.channelID)).getLastD (sentinel (.reliable command.channelID)) :=
    hring.link.2
  unfold StoredReceiver.queueIncomingCommand Enet.queueIncomingCommand
  rw [h.numbers command.channelID]
  dsimp only
  rw [hlast]
  split
  · exact .inr ⟨r, p, contents, rfl, rfl, h, Nat.le_succ _⟩
  split
  · exact .inr ⟨r, p, contents, rfl, rfl, h, Nat.le_succ _⟩
  obtain ⟨hplace, hsearch⟩ | ⟨front, back, before, behind, hsplit, hfront, hback, hplace,
    hsearch⟩ := StoredReceiver.findPlace_spec hring (h.reliable _ hc) hlength
      (r.channels command.channelID).incomingReliableSequenceNumber command
  · rw [hplace, hsearch]
    exact .inr ⟨r, p, contents, rfl, rfl, h, Nat.le_succ _⟩
  · rw [hplace, hsearch]
    dsimp only
    cases full with
    | true => exact .inl ⟨rfl, rfl⟩
    | false =>
      have hnext : p.heap.next (front.getLastD (sentinel (.reliable command.channelID))) =
          back.headD (sentinel (.reliable command.channelID)) := by
        have hring' := h.rings.linked _ hi
        rw [hsplit] at hring'
        exact hring'.link.1
      have hinsert := h.insert hx hc hsplit hfront hback command
      obtain ⟨p', contents', hdispatch, hrepresents, hlive⟩ :=
        hinsert.dispatchIncomingReliableCommands hc hfuel x
      refine .inr ⟨_, p', contents', rfl, ?_, ?_, ?_⟩
      · rw [if_neg Bool.false_ne_true, hnext, hdispatch]
        rfl
      · rw [List.reverse_reverse]
        exact hrepresents
      · rw [hlive]
        exact le_rfl

theorem Represents.handleSendReliable (h : Represents sentinel p contents r)
    (hx : p.Unused sentinel x) (command : ReliableCommand α) (full : Bool) {fuel : ℕ}
    (hfuel : p.live.length + 1 < fuel) :
    ∃ p' contents', p.handleSendReliable sentinel fuel x command full =
        some (p', (Enet.handleSendReliable r command full).2) ∧
      Represents sentinel p' contents' (Enet.handleSendReliable r command full).1 ∧
      p'.live.length ≤ p.live.length + 1 := by
  unfold StoredReceiver.handleSendReliable Enet.handleSendReliable
  rw [← h.channelCount]
  split
  · exact ⟨p, contents, rfl, h, Nat.le_succ _⟩
  · rename_i hc
    obtain ⟨hlist, hmemory⟩ | ⟨r', p', contents', hlist, hmemory, hrepresents, hlive⟩ :=
      h.queueIncomingCommand hx (Nat.lt_of_not_le hc) full hfuel
    · rw [hlist, hmemory]
      exact ⟨p, contents, rfl, h, Nat.le_succ _⟩
    · rw [hlist, hmemory]
      dsimp only
      have hsame : p'.queueAcknowledgement command = Enet.queueAcknowledgement r' command := by
        unfold StoredReceiver.queueAcknowledgement Enet.queueAcknowledgement
        rw [hrepresents.numbers]
      rw [hsame]
      split
      · exact ⟨p', contents', rfl, hrepresents, hlive⟩
      · exact ⟨p', contents', rfl, hrepresents, hlive⟩

/-- The ring of an unsequenced command that has just been queued. -/
theorem Represents.insertUnsequenced_rings (h : Represents sentinel p contents r)
    (hx : p.Unused sentinel x) {c : ℕ} (hc : c < p.channelCount) (command : IncomingCommand α) :
    Rings (p.insert (p.heap.next (sentinel (.unreliable c))) x command).heap sentinel
      (Queue.Exists p.channelCount) (Function.update contents (.unreliable c) [x]) := by
  have hi : Queue.Exists p.channelCount (.unreliable c) := hc
  have hsplit : contents (.unreliable c) = [] ++ [] := h.unreliable c hc
  have hinsert := h.rings.insert hi hsplit (h.unused hx)
  rw [h.unreliable_empty hc]
  exact hinsert

/-- The rings after an unsequenced command has passed through the queue of its channel. -/
theorem Represents.dispatchUnsequenced_rings (h : Represents sentinel p contents r)
    (hx : p.Unused sentinel x) {c : ℕ} (hc : c < p.channelCount) (command : IncomingCommand α) :
    Rings ((p.insert (p.heap.next (sentinel (.unreliable c))) x command).passOn sentinel c
        (sentinel (.unreliable c))).heap sentinel (Queue.Exists p.channelCount)
      (Function.update contents .dispatched (contents .dispatched ++ [x])) := by
  have hi : Queue.Exists p.channelCount (.unreliable c) := hc
  have hj : Queue.Exists p.channelCount .dispatched := trivial
  have hij : Queue.unreliable c ≠ .dispatched := by simp
  have hout := h.unused hx
  have hempty : contents (.unreliable c) = [] := h.unreliable c hc
  have hinsert := h.insertUnsequenced_rings hx hc command
  have hqueue : Linked (p.insert (p.heap.next (sentinel (.unreliable c))) x command).heap
      (sentinel (.unreliable c)) ([x] ++ []) := by
    have hlinked := hinsert.linked (.unreliable c) hi
    rw [Function.update_self] at hlinked
    exact hlinked
  have hfirst := hqueue.next_sentinel
  have hlast := hqueue.link.2
  have hne : x ≠ sentinel (.unreliable c) := fun heq =>
    hout _ hi (heq ▸ List.mem_cons_self)
  have hfrom : Function.update contents (.unreliable c) [x] (.unreliable c) =
      [] ++ ([x] ++ []) := Function.update_self ..
  have hto : Function.update contents (.unreliable c) [x] .dispatched =
      contents .dispatched ++ [] := by
    rw [List.append_nil]
    exact Function.update_of_ne hij.symm ..
  have hmove := hinsert.move hi hj hij hfrom hto
  have hback : Function.update contents (.unreliable c) ([] ++ []) = contents := by
    rw [List.append_nil, ← hempty, Function.update_eq_self]
  rw [Function.update_idem, hback] at hmove
  unfold StoredReceiver.passOn
  dsimp only
  rw [hfirst, List.singleton_append, List.headD_cons, if_neg hne]
  rw [List.headD_nil] at hlast
  rw [hlast]
  exact hmove

/-- An unsequenced command passes through the queue of its channel. -/
theorem Represents.passOn (h : Represents sentinel p contents r)
    (hx : p.Unused sentinel x) {command : UnsequencedCommand α} {c : ℕ} (hc : c < p.channelCount) :
    Represents sentinel ((p.insert (p.heap.next (sentinel (.unreliable c))) x
        command.incoming).passOn sentinel c (sentinel (.unreliable c)))
      (Function.update contents .dispatched (contents .dispatched ++ [x]))
      { r with dispatchedCommands := r.dispatchedCommands ++ [command.post] } := by
  have hj : Queue.Exists p.channelCount .dispatched := trivial
  have hout := h.unused hx
  constructor
  case rings => exact h.dispatchUnsequenced_rings hx hc command.incoming
  case live =>
    intro y
    have hlive := h.live y
    rw [exists_split hj] at hlive
    refine Iff.trans ?_ (exists_update contents hj (contents .dispatched ++ [x]) y).symm
    refine List.mem_cons.trans ?_
    rw [hlive, List.mem_append, List.mem_singleton, or_assoc]
    exact or_left_comm
  case once => exact List.nodup_cons.mpr ⟨hx.1, h.once⟩
  case dispatched =>
    rw [Function.update_self, List.map_append]
    refine congrArg₂ _ ?_ ?_
    · refine (map_insert ?_ IncomingCommand.post p.command command.incoming).trans h.dispatched
      exact fun hmem => hout .dispatched trivial (List.mem_cons_of_mem _ hmem)
    · have hnew : Function.update p.command x command.incoming x = command.incoming :=
        Function.update_self ..
      exact congrArg (fun incoming => [IncomingCommand.post incoming]) hnew
  case reliable =>
    intro c' hc'
    rw [Function.update_of_ne (by simp)]
    refine (map_insert ?_ id p.command command.incoming).trans (h.reliable c' hc')
    exact fun hmem => hout (.reliable c') hc' (List.mem_cons_of_mem _ hmem)
  case unreliable =>
    intro c' hc'
    rw [Function.update_of_ne (by simp)]
    exact h.unreliable c' hc'
  case channelCount => exact h.channelCount
  case numbers => exact h.numbers
  case group => exact h.group
  case window => exact h.window

/-- The loop passes the one command that is queued, and there is none left to remove. -/
theorem Represents.dispatchUnsequenced (h : Represents sentinel p contents r)
    (hx : p.Unused sentinel x) {command : UnsequencedCommand α} {c fuel : ℕ}
    (hc : c < p.channelCount) (hfuel : 1 < fuel) :
    (p.insert (p.heap.next (sentinel (.unreliable c))) x
        command.incoming).dispatchIncomingUnreliableCommands sentinel fuel c x =
      some ((p.insert (p.heap.next (sentinel (.unreliable c))) x
        command.incoming).passOn sentinel c (sentinel (.unreliable c))) := by
  have hi : Queue.Exists p.channelCount (.unreliable c) := hc
  have hqueue : Linked (p.insert (p.heap.next (sentinel (.unreliable c))) x command.incoming).heap
      (sentinel (.unreliable c)) ([] ++ [x]) := by
    have hlinked := (h.insertUnsequenced_rings hx hc command.incoming).linked (.unreliable c) hi
    rw [Function.update_self] at hlinked
    exact hlinked
  have hflags : ∀ y ∈ [x], ((p.insert (p.heap.next (sentinel (.unreliable c))) x
      command.incoming).command y).flag = .unsequenced := by
    intro y hy
    rw [List.mem_singleton.mp hy]
    have hnew : Function.update p.command x command.incoming x = command.incoming :=
      Function.update_self ..
    exact congrArg IncomingCommand.flag hnew
  have hloop := StoredReceiver.passLoop_spec hqueue hflags hfuel
  have hend : ((p.insert (p.heap.next (sentinel (.unreliable c))) x command.incoming).passOn
      sentinel c (sentinel (.unreliable c))).heap.next (sentinel (.unreliable c)) =
        sentinel (.unreliable c) := (h.passOn hx hc).unreliable_empty hc
  unfold StoredReceiver.dispatchIncomingUnreliableCommands
  dsimp only
  rw [hqueue.next_sentinel, List.nil_append, hloop, Option.bind_some, hend]
  cases fuel with
  | zero => cases hfuel
  | succ fuel => rw [StoredReceiver.removeIncomingCommands, if_pos rfl]

omit [DecidableEq ν] in
theorem Represents.turn (h : Represents sentinel p contents r) (group : ℕ) (window : ℕ → Bool) :
    Represents sentinel { p with incomingUnsequencedGroup := group, unsequencedWindow := window }
      contents { r with incomingUnsequencedGroup := group, unsequencedWindow := window } :=
  ⟨h.rings, h.live, h.once, h.dispatched, h.reliable, h.unreliable, h.channelCount, h.numbers,
    rfl, rfl⟩

theorem Represents.handleSendUnsequenced (h : Represents sentinel p contents r)
    (hx : p.Unused sentinel x) (command : UnsequencedCommand α) (full : Bool) {fuel : ℕ}
    (hfuel : 1 < fuel) :
    ∃ p' contents', p.handleSendUnsequenced sentinel fuel x command full = some p' ∧
      Represents sentinel p' contents' (Enet.handleSendUnsequenced r command full) ∧
      p'.live.length ≤ p.live.length + 1 := by
  obtain ⟨heap, commands, live, channelCount, numbers, group, window⟩ := p
  obtain ⟨channelCount', channels, dispatched, group', window'⟩ := r
  obtain rfl : channelCount = channelCount' := h.channelCount
  obtain rfl : group = group' := h.group
  obtain rfl : window = window' := h.window
  unfold StoredReceiver.handleSendUnsequenced Enet.handleSendUnsequenced
  dsimp only
  split
  · exact ⟨_, contents, rfl, h, Nat.le_succ _⟩
  rename_i hc
  have hc := Nat.lt_of_not_le hc
  split
  · exact ⟨_, contents, rfl, h, Nat.le_succ _⟩
  split
  · exact ⟨_, contents, rfl, h, Nat.le_succ _⟩
  by_cases hturned :
      command.unsequencedGroup - command.unsequencedGroup % peerUnsequencedWindowSize ≠ group
  · simp only [if_pos hturned]
    have hturn := h.turn (command.unsequencedGroup -
      command.unsequencedGroup % peerUnsequencedWindowSize) fun _ => false
    split
    · exact ⟨_, contents, rfl, hturn, Nat.le_succ _⟩
    · refine ⟨_, _, ?_, (hturn.passOn hx hc).turn _ _, le_rfl⟩
      exact congrArg (Option.map _) (hturn.dispatchUnsequenced hx hc hfuel)
  · simp only [if_neg hturned]
    split
    · exact ⟨_, contents, rfl, h, Nat.le_succ _⟩
    · refine ⟨_, _, ?_, (h.passOn hx hc).turn _ _, le_rfl⟩
      exact congrArg (Option.map _) (h.dispatchUnsequenced hx hc hfuel)

theorem Represents.discard (h : Represents sentinel p contents r) {rest : List ν}
    (hsplit : contents .dispatched = x :: rest) :
    Represents sentinel (p.discard x) (Function.update contents .dispatched rest)
      { r with dispatchedCommands := rest.map fun y => (p.command y).post } := by
  have hi : Queue.Exists p.channelCount .dispatched := trivial
  have hring := h.rings.linked .dispatched hi
  rw [hsplit] at hring
  have hout : x ∉ rest := (List.nodup_cons.mp (List.nodup_cons.mp hring.nodup).2).1
  constructor
  case rings =>
    have hsplit' : contents .dispatched = [] ++ x :: rest := hsplit
    exact h.rings.remove hi hsplit'
  case live =>
    intro y
    have hlive := h.live y
    rw [exists_split hi, hsplit, List.mem_cons] at hlive
    refine Iff.trans ?_ (exists_update contents hi rest y).symm
    refine (h.once.mem_erase_iff).trans ?_
    rw [hlive]
    constructor
    · rintro ⟨hne, (heq | hy) | hy⟩
      · exact absurd heq hne
      · exact .inl hy
      · exact .inr hy
    · rintro (hy | ⟨j, hj, hne, hy⟩)
      · exact ⟨fun heq => hout (heq ▸ hy), .inl (.inr hy)⟩
      · refine ⟨?_, .inr ⟨j, hj, hne, hy⟩⟩
        rintro rfl
        refine h.rings.apart j .dispatched hj hi hne (List.mem_cons_of_mem _ hy) ?_
        rw [hsplit]
        exact List.mem_cons_of_mem _ List.mem_cons_self
  case once => exact h.once.erase x
  case dispatched =>
    rw [Function.update_self]
    rfl
  case reliable =>
    intro c hc
    rw [Function.update_of_ne (by simp)]
    exact h.reliable c hc
  case unreliable =>
    intro c hc
    rw [Function.update_of_ne (by simp)]
    exact h.unreliable c hc
  case channelCount => exact h.channelCount
  case numbers => exact h.numbers
  case group => exact h.group
  case window => exact h.window

/-- What is handed over is what the list hands over, and its node is freed. -/
theorem Represents.peerReceive (h : Represents sentinel p contents r) :
    (Enet.peerReceive r = none ∧ p.peerReceive sentinel = none) ∨
      ∃ post r' p' contents', Enet.peerReceive r = some (post, r') ∧
        p.peerReceive sentinel = some (post, p') ∧ Represents sentinel p' contents' r' ∧
        p'.live.length ≤ p.live.length := by
  have hi : Queue.Exists p.channelCount .dispatched := trivial
  have hring := h.rings.linked .dispatched hi
  unfold StoredReceiver.peerReceive Enet.peerReceive
  rw [← h.dispatched, hring.next_sentinel]
  dsimp only
  cases hcontents : contents .dispatched with
  | nil =>
    refine .inl ⟨rfl, ?_⟩
    rw [List.headD_nil, if_pos rfl]
  | cons x rest =>
    have hne : x ≠ sentinel .dispatched := by
      rw [hcontents] at hring
      exact fun heq => (List.nodup_cons.mp hring.nodup).1 (heq ▸ List.mem_cons_self)
    refine .inr ⟨(p.command x).post, _, p.discard x, _, rfl, ?_, h.discard hcontents,
      List.length_erase_le⟩
    rw [List.headD_cons, if_neg hne]

end

end

/-! ## Runs -/

/-- What happens to the receiving half. A command comes with the node that the allocator gives
for it. -/
inductive ReceiverEvent (ν α : Type) where
  | command (x : ν) (command : ReliableCommand α) (full : Bool)
  | unsequenced (x : ν) (command : UnsequencedCommand α) (full : Bool)
  | receive

inductive ReceiverOutput (α : Type) where
  | acknowledgement (ack : Acknowledgement)
  | handed (post : Post α)
  deriving DecidableEq

section

variable {α : Type}

/-- The receiver on lists: its next state, what it acknowledges and what it hands over. -/
def Receiver.step (r : Receiver α) : ReceiverEvent ν α → Receiver α × List (ReceiverOutput α)
  | .command _ command full =>
    let (r, ack) := Enet.handleSendReliable r command full
    (r, (ack.map .acknowledgement).toList)
  | .unsequenced _ command full => (Enet.handleSendUnsequenced r command full, [])
  | .receive =>
    match Enet.peerReceive r with
    | none => (r, [])
    | some (post, r) => (r, [.handed post])

def Receiver.run (r : Receiver α) (events : List (ReceiverEvent ν α)) :
    Option (Receiver α × List (ReceiverOutput α)) :=
  EventRun.exec (fun r e => some (r.step e)) r events

variable (sentinel : Queue → ν)

/-- The lists of the channels are cleared in their order. -/
def clearChannels (h : Heap ν) : ℕ → Heap ν
  | 0 => h
  | c + 1 =>
    listClear (listClear (clearChannels h c) (sentinel (.reliable c))) (sentinel (.unreliable c))

namespace StoredReceiver

def start (h : Heap ν) (command : ν → IncomingCommand α) (channelCount : ℕ) :
    StoredReceiver ν α where
  heap := clearChannels sentinel (listClear h (sentinel .dispatched)) channelCount
  command
  live := []
  channelCount
  incomingReliableSequenceNumber := fun _ => 0
  incomingUnsequencedGroup := 0
  unsequencedWindow := fun _ => false

def step (fuel : ℕ) (p : StoredReceiver ν α) :
    ReceiverEvent ν α → Option (StoredReceiver ν α × List (ReceiverOutput α))
  | .command x command full =>
    (p.handleSendReliable sentinel fuel x command full).map fun (p, ack) =>
      (p, (ack.map .acknowledgement).toList)
  | .unsequenced x command full =>
    (p.handleSendUnsequenced sentinel fuel x command full).map fun p => (p, [])
  | .receive =>
    match p.peerReceive sentinel with
    | none => some (p, [])
    | some (post, p) => some (p, [.handed post])

def run (fuel : ℕ) (p : StoredReceiver ν α) (events : List (ReceiverEvent ν α)) :
    Option (StoredReceiver ν α × List (ReceiverOutput α)) :=
  EventRun.exec (step sentinel fuel) p events

/-- A node that is given out is not in use. -/
def Allocates (p : StoredReceiver ν α) : ReceiverEvent ν α → Prop
  | .command x _ _ | .unsequenced x _ _ => p.Unused sentinel x
  | .receive => True

instance (p : StoredReceiver ν α) : ∀ e, Decidable (p.Allocates sentinel e)
  | .command x _ _ | .unsequenced x _ _ => inferInstanceAs (Decidable (p.Unused sentinel x))
  | .receive => isTrue trivial

end StoredReceiver

variable {sentinel} {channelCount : ℕ}

theorem clearChannels_linked {h : Heap ν} (hlinked : Linked h (sentinel .dispatched) [])
    (hinj : ∀ i j, Queue.Exists channelCount i → Queue.Exists channelCount j →
      sentinel i = sentinel j → i = j) {c : ℕ} (hc : c ≤ channelCount) {i : Queue}
    (hi : i.Exists c) : Linked (clearChannels sentinel h c) (sentinel i) [] := by
  induction c with
  | zero =>
    cases i with
    | dispatched => exact hlinked
    | reliable c' => cases hi
    | unreliable c' => cases hi
  | succ c ih =>
    have hexists : i.Exists channelCount := by
      cases i with
      | dispatched => trivial
      | reliable c' => exact lt_of_lt_of_le hi hc
      | unreliable c' => exact lt_of_lt_of_le hi hc
    rw [clearChannels]
    obtain rfl | hunreliable := eq_or_ne i (.unreliable c)
    · exact listClear_ring _ _
    have hout : sentinel (.unreliable c) ∉ [sentinel i] := fun hmem =>
      hunreliable (hinj _ _ hexists hc (List.mem_singleton.mp hmem).symm)
    refine listClear_other ?_ hout
    obtain rfl | hreliable := eq_or_ne i (.reliable c)
    · exact listClear_ring _ _
    have hout' : sentinel (.reliable c) ∉ [sentinel i] := fun hmem =>
      hreliable (hinj _ _ hexists hc (List.mem_singleton.mp hmem).symm)
    refine listClear_other (ih (Nat.le_of_succ_le hc) ?_) hout'
    cases i with
    | dispatched => trivial
    | reliable c' => exact lt_of_le_of_ne (Nat.le_of_lt_succ hi) fun heq => hreliable (heq ▸ rfl)
    | unreliable c' =>
      exact lt_of_le_of_ne (Nat.le_of_lt_succ hi) fun heq => hunreliable (heq ▸ rfl)

theorem Represents.start (hinj : ∀ i j, Queue.Exists channelCount i → Queue.Exists channelCount j →
      sentinel i = sentinel j → i = j) (h : Heap ν) (command : ν → IncomingCommand α) :
    Represents sentinel (.start sentinel h command channelCount) (fun _ => [])
      (Link.start channelCount : Link α).receiver := by
  constructor
  · refine ⟨fun i hi => clearChannels_linked (listClear_ring h _) hinj le_rfl hi, ?_⟩
    intro i j hi hj hne x hx hx'
    rw [List.mem_singleton] at hx hx'
    exact hne (hinj i j hi hj (hx.symm.trans hx'))
  all_goals simp [StoredReceiver.start, Link.start]

variable {p : StoredReceiver ν α} {r : Receiver α} {contents : Queue → List ν}

/-- The step in memory succeeds and does what the step on lists does. -/
theorem Represents.step (h : Represents sentinel p contents r) {fuel : ℕ}
    (hfuel : p.live.length + 1 < fuel) {e : ReceiverEvent ν α}
    (hunused : p.Allocates sentinel e) :
    ∃ p' contents', p.step sentinel fuel e = some (p', (r.step e).2) ∧
      Represents sentinel p' contents' (r.step e).1 ∧ p'.live.length ≤ p.live.length + 1 := by
  cases e with
  | command x command full =>
    obtain ⟨p', contents', hmemory, hrepresents, hlive⟩ :=
      h.handleSendReliable hunused command full hfuel
    refine ⟨p', contents', ?_, hrepresents, hlive⟩
    rw [StoredReceiver.step, hmemory]
    rfl
  | unsequenced x command full =>
    have hfuel' : 1 < fuel := by omega
    obtain ⟨p', contents', hmemory, hrepresents, hlive⟩ :=
      h.handleSendUnsequenced hunused command full hfuel'
    refine ⟨p', contents', ?_, hrepresents, hlive⟩
    rw [StoredReceiver.step, hmemory]
    rfl
  | receive =>
    rw [StoredReceiver.step, Receiver.step]
    obtain ⟨hlists, hmemory⟩ | ⟨post, r', p', contents', hlists, hmemory, hrepresents, hlive⟩ :=
      h.peerReceive
    · rw [hlists, hmemory]
      exact ⟨p, contents, rfl, h, Nat.le_succ _⟩
    · rw [hlists, hmemory]
      exact ⟨p', contents', rfl, hrepresents, hlive.trans (Nat.le_succ _)⟩

/-- Over any run from cleared lists, whatever the memory holds at first and whichever free nodes
the allocator gives out, every loop over a list comes to its end, what is acknowledged and what
is handed over is what the receiver on lists does, and what is given out at the end is what waits
in its queues. -/
theorem reception_in_memory (hinj : ∀ i j, Queue.Exists channelCount i →
      Queue.Exists channelCount j → sentinel i = sentinel j → i = j)
    (h : Heap ν) (command : ν → IncomingCommand α) {fuel : ℕ} {events : List (ReceiverEvent ν α)}
    (hfuel : events.length < fuel)
    (hunused : EventRun.Admitted (StoredReceiver.step sentinel fuel)
      (StoredReceiver.Allocates sentinel) (.start sentinel h command channelCount) events) :
    ∃ p r outputs,
      (StoredReceiver.start sentinel h command channelCount).run sentinel fuel events =
        some (p, outputs) ∧
      (Link.start channelCount : Link α).receiver.run events = some (r, outputs) ∧
      ∃ contents, Represents sentinel p contents r := by
  -- each event still to come may need one node more
  let Keeps (p : StoredReceiver ν α) (r : Receiver α) (events : List (ReceiverEvent ν α)) : Prop :=
    ∃ contents, Represents sentinel p contents r ∧ p.live.length + events.length < fuel
  have hstep : ∀ (p : StoredReceiver ν α) (r : Receiver α) e (events : List (ReceiverEvent ν α)),
      Keeps p r (e :: events) → p.Allocates sentinel e → ∃ p' r' outputs,
        p.step sentinel fuel e = some (p', outputs) ∧ some (r.step e) = some (r', outputs) ∧
          Keeps p' r' events := by
    rintro p r e events ⟨contents, hrepresents, hlength⟩ hallocates
    rw [List.length_cons] at hlength
    have hlength' : p.live.length + 1 < fuel := by omega
    obtain ⟨p', contents', hmemory, hrepresents', hgrown⟩ := hrepresents.step hlength' hallocates
    exact ⟨p', _, _, hmemory, rfl, contents', hrepresents', by omega⟩
  have hstart : Keeps (.start sentinel h command channelCount)
      (Link.start channelCount : Link α).receiver events :=
    ⟨_, Represents.start hinj h command, by simpa [StoredReceiver.start] using hfuel⟩
  obtain ⟨p, r, outputs, hmemory, hlists, contents, hrepresents, -⟩ :=
    EventRun.exec_simulates Keeps hstep hstart hunused
  exact ⟨p, r, outputs, hmemory, hlists, contents, hrepresents⟩

/-- The sentinels of one host's memory. -/
def evenlySpaced : Queue → ℕ
  | .dispatched => 0
  | .reliable c => 2 * c + 1
  | .unreliable c => 2 * c + 2

theorem evenlySpaced_injective : Function.Injective evenlySpaced := by
  intro i j heq
  cases i <;> cases j <;> simp [evenlySpaced] at heq ⊢ <;> omega

/-- The second command overtakes the first, an unsequenced one comes between them, and the third
is put in a node that was freed when its packet was handed over. -/
def overtaken : List (ReceiverEvent ℕ Char) :=
  [.command 10 ⟨0, 2, 'b'⟩ false, .receive, .unsequenced 11 ⟨0, 1, 'u'⟩ false,
    .command 12 ⟨0, 1, 'a'⟩ false, .receive, .receive, .command 11 ⟨0, 3, 'c'⟩ false, .receive,
    .receive]

theorem reception_in_memory_overtaken :
    ∃ p r, (StoredReceiver.start evenlySpaced ⟨fun _ => 9, fun _ => 9⟩
        (fun _ => ⟨.reliable, 5, 5, 'x'⟩) 1).run evenlySpaced 10 overtaken =
        some (p, [.acknowledgement ⟨0, 2⟩, .acknowledgement ⟨0, 1⟩,
          .handed ⟨.unsequenced, 0, 'u'⟩, .handed ⟨.reliable, 0, 'a'⟩, .acknowledgement ⟨0, 3⟩,
          .handed ⟨.reliable, 0, 'b'⟩, .handed ⟨.reliable, 0, 'c'⟩]) ∧
      ∃ contents, Represents evenlySpaced p contents r := by
  have hinj : ∀ i j, Queue.Exists 1 i → Queue.Exists 1 j → evenlySpaced i = evenlySpaced j →
      i = j := fun _ _ _ _ heq => evenlySpaced_injective heq
  have hfuel : overtaken.length < 10 := by decide
  have hallocates : EventRun.Admitted (StoredReceiver.step evenlySpaced 10)
      (StoredReceiver.Allocates evenlySpaced) (.start evenlySpaced ⟨fun _ => 9, fun _ => 9⟩
        (fun _ => ⟨.reliable, 5, 5, 'x'⟩) 1) overtaken := by decide +kernel
  have houtputs : ((Link.start 1 : Link Char).receiver.run overtaken).map Prod.snd =
      some [.acknowledgement ⟨0, 2⟩, .acknowledgement ⟨0, 1⟩, .handed ⟨.unsequenced, 0, 'u'⟩,
        .handed ⟨.reliable, 0, 'a'⟩, .acknowledgement ⟨0, 3⟩, .handed ⟨.reliable, 0, 'b'⟩,
        .handed ⟨.reliable, 0, 'c'⟩] := by decide
  obtain ⟨p, r, outputs, hmemory, hlists, hrepresents⟩ :=
    reception_in_memory hinj ⟨fun _ => 9, fun _ => 9⟩ (fun _ => ⟨.reliable, 5, 5, 'x'⟩) hfuel
      hallocates
  rw [hlists] at houtputs
  obtain rfl := Option.some.inj houtputs
  exact ⟨p, r, hmemory, hrepresents⟩

end

end Fnvmp.Enet
