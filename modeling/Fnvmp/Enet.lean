import Fnvmp.Protocol
import Fnvmp.SequenceWindow
import Mathlib.Data.List.Basic
import Mathlib.Logic.Function.Basic

/-!
# The transport underneath: one direction of an ENet connection

What `peer.c` and `protocol.c` do with the packets of a connected peer, the sending half
at one end and the receiving half at the other. Every packet of the game fits into one
command, so fragments do not occur, and no packet is sent plainly unreliable.
-/

namespace Fnvmp.Enet

open Protocol SequenceWindow

variable {α : Type}

/-- `ENET_PEER_RELIABLE_WINDOWS` and its fellows. -/
def peerReliableWindows : ℕ := 16
def peerReliableWindowSize : ℕ := 4096
def peerFreeReliableWindows : ℕ := 8
def peerUnsequencedWindowSize : ℕ := 1024
def peerFreeUnsequencedWindows : ℕ := 32

/-- The turn of an `enet_uint16`. -/
def uint16Size : ℕ := 65536

structure OutgoingCommand (α : Type) where
  channelID : ℕ
  reliableSequenceNumber : ℕ
  sendAttempts : ℕ
  packet : α
  deriving DecidableEq, Repr

/-- A `SEND_RELIABLE` command as it travels. -/
structure ReliableCommand (α : Type) where
  channelID : ℕ
  reliableSequenceNumber : ℕ
  data : α
  deriving DecidableEq, Repr

/-- A `SEND_UNSEQUENCED` command as it travels. -/
structure UnsequencedCommand (α : Type) where
  channelID : ℕ
  unsequencedGroup : ℕ
  data : α
  deriving DecidableEq, Repr

/-- An `ACKNOWLEDGE` command. -/
structure Acknowledgement where
  channelID : ℕ
  receivedReliableSequenceNumber : ℕ
  deriving DecidableEq, Repr

/-- A packet as `enet_peer_send` takes it and `enet_peer_receive` hands it over. -/
structure Post (α : Type) where
  flag : PacketFlag
  channelID : ℕ
  packet : α
  deriving DecidableEq, Repr

/-- What an `ENetChannel` holds for sending. -/
structure OutgoingChannel where
  outgoingReliableSequenceNumber : ℕ
  usedReliableWindows : BitVec 16
  reliableWindows : ℕ → ℕ

/-- What an `ENetPeer` holds for sending. -/
structure Sender (α : Type) where
  channelCount : ℕ
  channels : ℕ → OutgoingChannel
  outgoingSendReliableCommands : List (OutgoingCommand α)
  sentReliableCommands : List (OutgoingCommand α)
  outgoingUnsequencedGroup : ℕ

/-- What an `ENetChannel` holds for receiving. -/
structure IncomingChannel (α : Type) where
  incomingReliableSequenceNumber : ℕ
  incomingReliableCommands : List (ReliableCommand α)

/-- What an `ENetPeer` holds for receiving. -/
structure Receiver (α : Type) where
  channelCount : ℕ
  channels : ℕ → IncomingChannel α
  dispatchedCommands : List (Post α)
  incomingUnsequencedGroup : ℕ
  unsequencedWindow : ℕ → Bool

/-! ## Sending -/

def OutgoingCommand.wire (command : OutgoingCommand α) : ReliableCommand α where
  channelID := command.channelID
  reliableSequenceNumber := command.reliableSequenceNumber
  data := command.packet

/-- `enet_peer_setup_outgoing_command` for a `SEND_RELIABLE` command. -/
def setupOutgoingCommand (s : Sender α) (channelID : ℕ) (packet : α) : Sender α :=
  let channel := s.channels channelID
  let number := (channel.outgoingReliableSequenceNumber + 1) % uint16Size
  { s with
    channels := Function.update s.channels channelID
      { channel with outgoingReliableSequenceNumber := number }
    outgoingSendReliableCommands := s.outgoingSendReliableCommands ++
      [{ channelID, reliableSequenceNumber := number, sendAttempts := 0, packet }] }

/-- The same for a `SEND_UNSEQUENCED` command, which carries the group's number away. -/
def setupUnsequencedCommand (s : Sender α) (channelID : ℕ) (packet : α) :
    Sender α × UnsequencedCommand α :=
  let group := (s.outgoingUnsequencedGroup + 1) % uint16Size
  ({ s with outgoingUnsequencedGroup := group },
    { channelID, unsequencedGroup := group, data := packet })

/-- `enet_peer_send`; `none` where it returns -1. An unsequenced command waits for the next
pass in a queue of its own, which the wire below may as well do for it. -/
def peerSend (s : Sender α) (post : Post α) :
    Option (Sender α × Option (UnsequencedCommand α)) :=
  if s.channelCount ≤ post.channelID then none
  else
    match post.flag with
    | .unsequenced =>
      let (s', command) := setupUnsequencedCommand s post.channelID post.packet
      some (s', some command)
    | .reliable => some (setupOutgoingCommand s post.channelID post.packet, none)

/-- The bits of the window and the nine after it, in a circle of sixteen. -/
def windowMask (reliableWindow : ℕ) : BitVec 16 :=
  let free := 1#16 <<< (peerFreeReliableWindows + 2) - 1#16
  free <<< reliableWindow ||| free >>> (peerReliableWindows - reliableWindow)

/-- Whether a first command of a window must wait. -/
def windowWrap (channel : OutgoingChannel) (reliableWindow : ℕ) : Bool :=
  decide (peerReliableWindowSize ≤
    channel.reliableWindows ((reliableWindow + peerReliableWindows - 1) % peerReliableWindows)) ||
  decide (channel.usedReliableWindows &&& windowMask reliableWindow ≠ 0#16)

/-- The window's count and bit, for a command that goes out for the first time. -/
def OutgoingChannel.claim (channel : OutgoingChannel) (reliableWindow : ℕ) : OutgoingChannel :=
  { channel with
    usedReliableWindows := channel.usedReliableWindows ||| 1#16 <<< reliableWindow
    reliableWindows := Function.update channel.reliableWindows reliableWindow
      (channel.reliableWindows reliableWindow + 1) }

/-- The first of the queue goes out: its window is claimed the first time. -/
def Sender.transmit (s : Sender α) (command : OutgoingCommand α) (rest : List (OutgoingCommand α)) :
    Sender α :=
  let channel := s.channels command.channelID
  { s with
    channels := Function.update s.channels command.channelID
      (if command.sendAttempts < 1 then
        channel.claim (command.reliableSequenceNumber / peerReliableWindowSize)
      else channel)
    outgoingSendReliableCommands := rest
    sentReliableCommands := s.sentReliableCommands ++
      [{ command with sendAttempts := command.sendAttempts + 1 }] }

/-- The reliable part of `enet_protocol_check_outgoing_commands`. `room` is how many commands
the congestion window and the datagram let through: either ends the pass. -/
def checkOutgoingCommands : ℕ → Sender α → Sender α × List (ReliableCommand α)
  | 0, s => (s, [])
  | room + 1, s =>
    match s.outgoingSendReliableCommands with
    | [] => (s, [])
    | command :: rest =>
      if command.sendAttempts < 1 ∧ command.reliableSequenceNumber % peerReliableWindowSize = 0 ∧
          windowWrap (s.channels command.channelID)
            (command.reliableSequenceNumber / peerReliableWindowSize) then
        (s, [])
      else
        let (s', sent) := checkOutgoingCommands room (s.transmit command rest)
        (s', command.wire :: sent)

/-- `enet_protocol_check_timeouts`, for the commands whose timers have `expired`: they go back
in front, in their order. That a peer has timed out for good ends the connection. -/
def checkTimeouts (s : Sender α) (expired : OutgoingCommand α → Bool) : Sender α :=
  { s with
    outgoingSendReliableCommands :=
      s.sentReliableCommands.filter expired ++ s.outgoingSendReliableCommands
    sentReliableCommands := s.sentReliableCommands.filter fun command => !expired command }

def OutgoingCommand.answers (command : OutgoingCommand α) (ack : Acknowledgement) : Prop :=
  command.reliableSequenceNumber = ack.receivedReliableSequenceNumber ∧
    command.channelID = ack.channelID

instance (command : OutgoingCommand α) (ack : Acknowledgement) : Decidable (command.answers ack) :=
  inferInstanceAs (Decidable (_ ∧ _))

/-- `enet_protocol_find_sent_reliable_command` and the removal of what it finds: the list is
searched up to the first command that never went out. -/
def removeRetry (ack : Acknowledgement) : List (OutgoingCommand α) → Option (List (OutgoingCommand α))
  | [] => none
  | command :: rest =>
    if command.sendAttempts < 1 then none
    else if command.answers ack then some rest
    else (removeRetry ack rest).map (command :: ·)

/-- The search through `sentReliableCommands`. -/
def removeSent (ack : Acknowledgement) : List (OutgoingCommand α) → Option (List (OutgoingCommand α))
  | [] => none
  | command :: rest =>
    if command.answers ack then some rest else (removeSent ack rest).map (command :: ·)

/-- The window's count and bit, for a command that is acknowledged. -/
def OutgoingChannel.release (channel : OutgoingChannel) (reliableWindow : ℕ) : OutgoingChannel :=
  if 0 < channel.reliableWindows reliableWindow then
    { channel with
      reliableWindows := Function.update channel.reliableWindows reliableWindow
        (channel.reliableWindows reliableWindow - 1)
      usedReliableWindows :=
        if channel.reliableWindows reliableWindow - 1 = 0 then
          channel.usedReliableWindows &&& ~~~(1#16 <<< reliableWindow)
        else channel.usedReliableWindows }
  else channel

def Sender.release (s : Sender α) (ack : Acknowledgement) : Sender α :=
  if ack.channelID < s.channelCount then
    { s with
      channels := Function.update s.channels ack.channelID
        ((s.channels ack.channelID).release
          (ack.receivedReliableSequenceNumber / peerReliableWindowSize)) }
  else s

/-- `enet_protocol_remove_sent_reliable_command`, all an acknowledgement does to the queues. -/
def removeSentReliableCommand (s : Sender α) (ack : Acknowledgement) : Sender α :=
  match removeSent ack s.sentReliableCommands with
  | some rest => { s with sentReliableCommands := rest }.release ack
  | none =>
    match removeRetry ack s.outgoingSendReliableCommands with
    | some rest => { s with outgoingSendReliableCommands := rest }.release ack
    | none => s

/-! ## Receiving -/

/-- The place of a command in the queue, searched from the back: `none` where it is there
already. The list is the queue reversed. -/
def placeFromBack (low : ℕ) (command : ReliableCommand α) :
    List (ReliableCommand α) → Option (List (ReliableCommand α))
  | [] => some [command]
  | incoming :: rest =>
    let number := command.reliableSequenceNumber
    if low ≤ number ∧ incoming.reliableSequenceNumber < low then
      (placeFromBack low command rest).map (incoming :: ·)
    else if number < low ∧ low ≤ incoming.reliableSequenceNumber then
      some (command :: incoming :: rest)
    else if incoming.reliableSequenceNumber < number then some (command :: incoming :: rest)
    else if incoming.reliableSequenceNumber = number then none
    else (placeFromBack low command rest).map (incoming :: ·)

/-- The run of consecutive commands at the head of the queue. -/
def dispatchLoop (low : ℕ) : List (ReliableCommand α) →
    ℕ × List (ReliableCommand α) × List (ReliableCommand α)
  | [] => (low, [], [])
  | incoming :: rest =>
    if incoming.reliableSequenceNumber ≠ (low + 1) % uint16Size then (low, [], incoming :: rest)
    else
      let (low', moved, left) := dispatchLoop incoming.reliableSequenceNumber rest
      (low', incoming :: moved, left)

def ReliableCommand.post (command : ReliableCommand α) : Post α where
  flag := .reliable
  channelID := command.channelID
  packet := command.data

/-- `enet_peer_dispatch_incoming_reliable_commands`. -/
def dispatchIncomingReliableCommands (r : Receiver α) (channelID : ℕ) : Receiver α :=
  let channel := r.channels channelID
  let (low, moved, left) :=
    dispatchLoop channel.incomingReliableSequenceNumber channel.incomingReliableCommands
  { r with
    channels := Function.update r.channels channelID
      { incomingReliableSequenceNumber := low, incomingReliableCommands := left }
    dispatchedCommands := r.dispatchedCommands ++ moved.map ReliableCommand.post }

/-- `enet_peer_queue_incoming_command` for a `SEND_RELIABLE` command; `none` where it returns
NULL, which it does when the host holds too much already or is out of memory. -/
def queueIncomingCommand (r : Receiver α) (command : ReliableCommand α) (full : Bool) :
    Option (Receiver α) :=
  let channel := r.channels command.channelID
  let low := channel.incomingReliableSequenceNumber
  let reliableWindow :=
    windowFrom peerReliableWindows peerReliableWindowSize low command.reliableSequenceNumber
  let currentWindow := low / peerReliableWindowSize
  if reliableWindow < currentWindow ∨
      currentWindow + peerFreeReliableWindows - 1 ≤ reliableWindow then some r
  else if command.reliableSequenceNumber = low then some r
  else
    match placeFromBack low command channel.incomingReliableCommands.reverse with
    | none => some r
    | some queue =>
      if full then none
      else
        let r' := { r with
          channels := Function.update r.channels command.channelID
            { channel with incomingReliableCommands := queue.reverse } }
        some (dispatchIncomingReliableCommands r' command.channelID)

/-- `enet_peer_queue_acknowledgement`: whether the command is acknowledged. -/
def queueAcknowledgement (r : Receiver α) (command : ReliableCommand α) : Bool :=
  let low := (r.channels command.channelID).incomingReliableSequenceNumber
  let reliableWindow :=
    windowFrom peerReliableWindows peerReliableWindowSize low command.reliableSequenceNumber
  let currentWindow := low / peerReliableWindowSize
  !(decide (currentWindow + peerFreeReliableWindows - 1 ≤ reliableWindow) &&
    decide (reliableWindow ≤ currentWindow + peerFreeReliableWindows))

/-- `enet_protocol_handle_send_reliable` and the acknowledgement
`enet_protocol_handle_incoming_commands` queues after it. -/
def handleSendReliable (r : Receiver α) (command : ReliableCommand α) (full : Bool) :
    Receiver α × Option Acknowledgement :=
  if r.channelCount ≤ command.channelID then (r, none)
  else
    match queueIncomingCommand r command full with
    | none => (r, none)
    | some r' =>
      if queueAcknowledgement r' command then
        (r', some { channelID := command.channelID
                    receivedReliableSequenceNumber := command.reliableSequenceNumber })
      else (r', none)

def UnsequencedCommand.post (command : UnsequencedCommand α) : Post α where
  flag := .unsequenced
  channelID := command.channelID
  packet := command.data

/-- `enet_protocol_handle_send_unsequenced`. With nothing but unsequenced commands in its
queue, `enet_peer_dispatch_incoming_unreliable_commands` hands each on at once. -/
def handleSendUnsequenced (r : Receiver α) (command : UnsequencedCommand α) (full : Bool) :
    Receiver α :=
  if r.channelCount ≤ command.channelID then r
  else
    let index := command.unsequencedGroup % peerUnsequencedWindowSize
    let base := r.incomingUnsequencedGroup
    if base + peerFreeUnsequencedWindows * peerUnsequencedWindowSize ≤
        lift uint16Size base command.unsequencedGroup then r
    else
      let turned := command.unsequencedGroup - index ≠ base
      if ¬turned ∧ r.unsequencedWindow index then r
      else
        let r' := if turned then
          { r with
            incomingUnsequencedGroup := command.unsequencedGroup - index
            unsequencedWindow := fun _ => false }
          else r
        if full then r'
        else
          { r' with
            dispatchedCommands := r'.dispatchedCommands ++ [command.post]
            unsequencedWindow := Function.update r'.unsequencedWindow index true }

/-- `enet_peer_receive`. -/
def peerReceive (r : Receiver α) : Option (Post α × Receiver α) :=
  match r.dispatchedCommands with
  | [] => none
  | post :: rest => some (post, { r with dispatchedCommands := rest })

end Fnvmp.Enet
