import Fnvmp.EnetLink
import Fnvmp.EnetLists
import Fnvmp.EventRun

/-!
# The sending half in memory

The queues of a peer are rings of nodes, and a command moves from one to the other with its node.
The loops follow the pointers. Whatever the memory holds at first, they do what the sender on
lists does, also where the allocator gives a node out again.
-/

namespace Fnvmp.Enet

open IntrusiveList

section

variable {ν α : Type} [DecidableEq ν]

/-- The sender with its queues in memory. `live` are the nodes that the allocator has given
out. -/
structure StoredSender (ν α : Type) where
  heap : Heap ν
  command : ν → OutgoingCommand α
  live : List ν
  channelCount : ℕ
  channels : ℕ → OutgoingChannel

variable (sent out : ν)

/-- `enet_peer_setup_outgoing_command`, with the node it is given. -/
def StoredSender.setupOutgoingCommand (p : StoredSender ν α) (x : ν) (channelID : ℕ) (packet : α) :
    StoredSender ν α :=
  let channel := p.channels channelID
  let number := (channel.outgoingReliableSequenceNumber + 1) % uint16Size
  { p with
    heap := listInsert p.heap out x
    command := Function.update p.command x
      { channelID, reliableSequenceNumber := number, sendAttempts := 0, packet }
    live := x :: p.live
    channels := Function.update p.channels channelID
      { channel with outgoingReliableSequenceNumber := number } }

/-- A command that goes out moves to the end of the sent ones. -/
def StoredSender.transmit (p : StoredSender ν α) (x : ν) : StoredSender ν α :=
  let command := p.command x
  let channel := p.channels command.channelID
  { p with
    heap := listInsert (listRemove p.heap x) sent x
    command := Function.update p.command x { command with sendAttempts := command.sendAttempts + 1 }
    channels := Function.update p.channels command.channelID
      (if command.sendAttempts < 1 then
        channel.claim (command.reliableSequenceNumber / peerReliableWindowSize)
      else channel) }

/-- `enet_protocol_check_outgoing_commands` from the command at `current`. -/
def StoredSender.checkOutgoingCommands : ℕ → ν → StoredSender ν α →
    StoredSender ν α × List (ReliableCommand α)
  | 0, _, p => (p, [])
  | room + 1, current, p =>
    if current = out then (p, [])
    else
      let command := p.command current
      if command.sendAttempts < 1 ∧ command.reliableSequenceNumber % peerReliableWindowSize = 0 ∧
          windowWrap (p.channels command.channelID)
            (command.reliableSequenceNumber / peerReliableWindowSize) then
        (p, [])
      else
        let next := p.heap.next current
        let (p', commands) := checkOutgoingCommands room next (p.transmit sent current)
        (p', command.wire :: commands)

/-- The loop of `enet_protocol_check_timeouts`; `none` if it is not through after `fuel` turns. -/
def timeoutsLoop (position : ν) (expired : ν → Bool) : ℕ → ν → Heap ν → Option (Heap ν)
  | 0, _, _ => none
  | fuel + 1, current, h =>
    if current = sent then some h
    else
      -- the successor is read before the node leaves the list
      let next := h.next current
      if expired current then
        timeoutsLoop position expired fuel next (listInsert (listRemove h current) position current)
      else timeoutsLoop position expired fuel next h

def StoredSender.checkTimeouts (p : StoredSender ν α) (fuel : ℕ)
    (expired : OutgoingCommand α → Bool) : Option (StoredSender ν α) :=
  (timeoutsLoop sent (p.heap.next out) (fun x => expired (p.command x)) fuel (p.heap.next sent)
    p.heap).map fun heap => { p with heap }

/-- The search of a list for a command that answers, up to one at which it stops; `none` if it
is not through after `fuel` turns. -/
def search (h : Heap ν) (list : ν) (stop answers : ν → Bool) : ℕ → ν → Option (Option ν)
  | 0, _ => none
  | fuel + 1, current =>
    if current = list then some none
    else if stop current then some none
    else if answers current then some (some current)
    else search h list stop answers fuel (h.next current)

def StoredSender.release (p : StoredSender ν α) (ack : Acknowledgement) : StoredSender ν α :=
  if ack.channelID < p.channelCount then
    { p with
      channels := Function.update p.channels ack.channelID
        ((p.channels ack.channelID).release
          (ack.receivedReliableSequenceNumber / peerReliableWindowSize)) }
  else p

/-- The command is taken out of its list and freed. -/
def StoredSender.discard (p : StoredSender ν α) (x : ν) : StoredSender ν α :=
  { p with heap := listRemove p.heap x, live := p.live.erase x }

/-- The command has not been sent yet. -/
def StoredSender.fresh (p : StoredSender ν α) (x : ν) : Bool :=
  decide ((p.command x).sendAttempts < 1)

def StoredSender.answers (p : StoredSender ν α) (ack : Acknowledgement) (x : ν) : Bool :=
  decide ((p.command x).answers ack)

/-- `enet_protocol_remove_sent_reliable_command`. -/
def StoredSender.removeSentReliableCommand (p : StoredSender ν α) (fuel : ℕ)
    (ack : Acknowledgement) : Option (StoredSender ν α) :=
  match search p.heap sent (fun _ => false) (p.answers ack) fuel (p.heap.next sent) with
  | none => none
  | some (some x) => some ((p.release ack).discard x)
  | some none =>
    match search p.heap out p.fresh (p.answers ack) fuel (p.heap.next out) with
    | none => none
    | some (some x) => some ((p.release ack).discard x)
    | some none => some p

/-! ## What the memory holds -/

/-- The nodes `xs` and `ys` of the two queues hold the commands of the sender, and no others are
given out. -/
structure Stores (p : StoredSender ν α) (xs ys : List ν) (s : Sender α) : Prop where
  sentRing : Linked p.heap sent xs
  outRing : Linked p.heap out ys
  apart : (sent :: xs).Disjoint (out :: ys)
  sentCommands : xs.map p.command = s.sentReliableCommands
  outCommands : ys.map p.command = s.outgoingSendReliableCommands
  live : p.live.Perm (xs ++ ys)
  channelCount : p.channelCount = s.channelCount
  channels : p.channels = s.channels

/-- A node that the allocator may give out. -/
def Unused (p : StoredSender ν α) (x : ν) : Prop := x ∉ p.live ∧ x ≠ sent ∧ x ≠ out

theorem map_update {x : ν} {xs : List ν} (hx : x ∉ xs) (f : ν → OutgoingCommand α)
    (c : OutgoingCommand α) : xs.map (Function.update f x c) = xs.map f := by
  refine List.map_congr_left fun y hy => ?_
  rw [Function.update_of_ne]
  rintro rfl
  exact hx hy

variable {sent out} {p : StoredSender ν α} {s : Sender α} {x : ν} {xs ys : List ν}

theorem Stores.setupOutgoingCommand (h : Stores sent out p xs ys s) (hx : Unused sent out p x)
    (channelID : ℕ) (packet : α) :
    Stores sent out (p.setupOutgoingCommand out x channelID packet) xs (ys ++ [x])
      (Enet.setupOutgoingCommand s channelID packet) := by
  obtain ⟨hlive, hsent, hout⟩ := hx
  have hxs : x ∉ xs := fun hmem => hlive (h.live.mem_iff.mpr (List.mem_append_left ys hmem))
  have hys : x ∉ ys := fun hmem => hlive (h.live.mem_iff.mpr (List.mem_append_right xs hmem))
  have hring : Linked p.heap out (ys ++ []) := by
    rw [List.append_nil]
    exact h.outRing
  have hnew : x ∉ out :: (ys ++ []) := by simp [hout, hys]
  constructor
  case sentRing =>
    refine listInsert_other hring h.sentRing ?_ (by simp [hsent, hxs])
    rw [List.append_nil]
    exact fun c hc hc' => h.apart hc' hc
  case outRing => exact listInsert_ring hring hnew
  case apart =>
    intro c hc hc'
    rw [← List.cons_append, List.mem_append, List.mem_singleton] at hc'
    obtain hc' | rfl := hc'
    · exact h.apart hc hc'
    · simp [hsent, hxs] at hc
  case sentCommands => exact (map_update hxs _ _).trans h.sentCommands
  case outCommands =>
    simp only [StoredSender.setupOutgoingCommand, Enet.setupOutgoingCommand, List.map_append,
      map_update hys, h.outCommands, List.map_cons, Function.update_self, List.map_nil, h.channels]
  case live =>
    rw [← List.append_assoc]
    exact (h.live.cons x).trans (List.perm_append_singleton x (xs ++ ys)).symm
  case channelCount => exact h.channelCount
  case channels =>
    simp only [StoredSender.setupOutgoingCommand, Enet.setupOutgoingCommand, h.channels]

theorem Stores.transmit (h : Stores sent out p xs (x :: ys) s) :
    Stores sent out (p.transmit sent x) (xs ++ [x]) ys
      (s.transmit (p.command x) (ys.map p.command)) := by
  have hsent : Linked p.heap sent (xs ++ []) := by
    rw [List.append_nil]
    exact h.sentRing
  have hapart : (out :: ([] ++ x :: ys)).Disjoint (sent :: (xs ++ [])) := by
    rw [List.append_nil]
    exact fun c hc hc' => h.apart hc' hc
  have hout : Linked p.heap out ([] ++ x :: ys) := h.outRing
  obtain ⟨hleft, hjoined, hdisjoint⟩ := relocate_ring hout hsent hapart
  have hys : x ∉ ys := (List.nodup_cons.mp (List.nodup_cons.mp h.outRing.nodup).2).1
  have hxs : x ∉ xs := fun hmem =>
    h.apart (List.mem_cons_of_mem sent hmem) (List.mem_cons_of_mem out List.mem_cons_self)
  constructor
  case sentRing => exact hjoined
  case outRing => exact hleft
  case apart => exact fun c hc hc' => hdisjoint hc' hc
  case sentCommands =>
    simp only [StoredSender.transmit, Sender.transmit, List.map_append, map_update hxs,
      h.sentCommands, List.map_cons, Function.update_self, List.map_nil]
  case outCommands => exact map_update hys _ _
  case live =>
    rw [List.append_assoc]
    exact h.live
  case channelCount => exact h.channelCount
  case channels =>
    simp only [StoredSender.transmit, Sender.transmit, h.channels]

/-- The pass over the queue sends the same commands. -/
theorem Stores.checkOutgoingCommands (h : Stores sent out p xs ys s) (room : ℕ) :
    ∃ xs' ys', Stores sent out (p.checkOutgoingCommands sent out room (ys.headD out)).1 xs' ys'
        (Enet.checkOutgoingCommands room s).1 ∧
      (p.checkOutgoingCommands sent out room (ys.headD out)).2 =
        (Enet.checkOutgoingCommands room s).2 ∧
      xs'.length + ys'.length = xs.length + ys.length := by
  induction room generalizing p s xs ys with
  | zero => exact ⟨xs, ys, h, rfl, rfl⟩
  | succ room ih =>
    rw [StoredSender.checkOutgoingCommands, Enet.checkOutgoingCommands]
    cases ys with
    | nil =>
      rw [List.headD_nil, if_pos rfl, ← h.outCommands, List.map_nil]
      exact ⟨xs, [], h, rfl, rfl⟩
    | cons x ys =>
      have hne : x ≠ out := fun heq =>
        (List.nodup_cons.mp h.outRing.nodup).1 (heq ▸ List.mem_cons_self)
      have hnext : p.heap.next x = ys.headD out := by
        have hring : Linked p.heap out ([] ++ x :: ys) := h.outRing
        exact (linked_cons_iff.mp hring).2.2.2.2.1
      rw [List.headD_cons, if_neg hne, ← h.outCommands, List.map_cons, h.channels]
      dsimp only
      split
      · exact ⟨xs, x :: ys, h, rfl, rfl⟩
      · obtain ⟨xs', ys', hstores, hsame, hlength⟩ := ih h.transmit
        rw [hnext]
        refine ⟨xs', ys', hstores, congrArg _ hsame, ?_⟩
        rw [hlength, List.length_append, List.length_singleton, List.length_cons]
        omega

/-- The loop has passed the nodes `us` of the one ring and has put nodes behind `vs` in the
other. -/
theorem timeoutsLoop_rings {h : Heap ν} {us vs : List ν} {expired : ν → Bool} {fuel : ℕ}
    (hfuel : xs.length < fuel) (hr : Linked h sent (us ++ xs)) (ho : Linked h out (vs ++ ys))
    (hapart : (sent :: (us ++ xs)).Disjoint (out :: (vs ++ ys))) : ∃ h',
      timeoutsLoop sent (ys.headD out) expired fuel (xs.headD sent) h = some h' ∧
      Linked h' sent (us ++ xs.filter fun x => !expired x) ∧
      Linked h' out (vs ++ (xs.filter expired ++ ys)) ∧
      (sent :: (us ++ xs.filter fun x => !expired x)).Disjoint
        (out :: (vs ++ (xs.filter expired ++ ys))) := by
  induction xs generalizing h us vs fuel with
  | nil =>
    cases fuel with
    | zero => cases hfuel
    | succ fuel =>
      refine ⟨h, ?_, hr, ho, hapart⟩
      rw [timeoutsLoop, List.headD_nil, if_pos rfl]
  | cons x xs ih =>
    cases fuel with
    | zero => cases hfuel
    | succ fuel =>
      have hfuel : xs.length < fuel := Nat.lt_of_succ_lt_succ hfuel
      have hne : x ≠ sent := fun heq =>
        (List.nodup_cons.mp hr.nodup).1 (heq ▸ List.mem_append_right us List.mem_cons_self)
      have hnext : h.next x = xs.headD sent := (linked_cons_iff.mp hr).2.2.2.2.1
      rw [timeoutsLoop, List.headD_cons, if_neg hne]
      dsimp only
      cases hx : expired x with
      | true =>
        obtain ⟨hleft, hjoined, hrest⟩ := relocate_ring hr ho hapart
        rw [List.append_cons] at hjoined hrest
        obtain ⟨h', hloop, hr', ho', hapart'⟩ := ih hfuel hleft hjoined hrest
        rw [List.append_assoc] at ho' hapart'
        refine ⟨h', ?_, ?_, ?_, ?_⟩
        · rw [if_pos rfl, hnext]
          exact hloop
        · simpa [List.filter_cons, hx] using hr'
        · simpa [List.filter_cons, hx] using ho'
        · simpa [List.filter_cons, hx] using hapart'
      | false =>
        rw [List.append_cons] at hr hapart
        obtain ⟨h', hloop, hr', ho', hapart'⟩ := ih hfuel hr ho hapart
        rw [List.append_assoc] at hr' hapart'
        refine ⟨h', ?_, ?_, ?_, ?_⟩
        · rw [if_neg Bool.false_ne_true, hnext]
          exact hloop
        · simpa [List.filter_cons, hx] using hr'
        · simpa [List.filter_cons, hx] using ho'
        · simpa [List.filter_cons, hx] using hapart'

/-- The loop over the sent commands moves those that expired in front of the queue, in their
order. -/
theorem Stores.checkTimeouts (h : Stores sent out p xs ys s) {fuel : ℕ} (hfuel : xs.length < fuel)
    (expired : OutgoingCommand α → Bool) : ∃ p' xs' ys',
      p.checkTimeouts sent out fuel expired = some p' ∧
        Stores sent out p' xs' ys' (Enet.checkTimeouts s expired) ∧
        xs'.length + ys'.length = xs.length + ys.length := by
  have hr : Linked p.heap sent ([] ++ xs) := h.sentRing
  have ho : Linked p.heap out ([] ++ ys) := h.outRing
  let due (x : ν) : Bool := expired (p.command x)
  obtain ⟨heap, hloop, hr', ho', hapart⟩ := @timeoutsLoop_rings ν _ sent out xs ys p.heap [] [] due
    fuel hfuel hr ho h.apart
  refine ⟨{ p with heap }, xs.filter fun x => !due x, xs.filter due ++ ys, ?_,
    ⟨hr', ho', hapart, ?_, ?_, ?_, h.channelCount, h.channels⟩, ?_⟩
  · rw [StoredSender.checkTimeouts, h.sentRing.next_sentinel, h.outRing.next_sentinel, hloop]
    rfl
  · have hkeep : (xs.filter ((fun command => !expired command) ∘ p.command)).map p.command =
        (xs.map p.command).filter fun command => !expired command := List.filter_map.symm
    rw [h.sentCommands] at hkeep
    exact hkeep
  · have hmoved : (xs.filter due).map p.command = (xs.map p.command).filter expired :=
      List.filter_map.symm
    rw [List.map_append, hmoved, h.sentCommands, h.outCommands]
    rfl
  · have hperm : ((xs.filter fun x => !due x) ++ xs.filter due).Perm xs :=
      List.perm_append_comm.trans (List.filter_append_perm due xs)
    rw [← List.append_assoc]
    exact h.live.trans (hperm.append_right ys).symm
  · have hsplit := List.length_eq_length_filter_add due (l := xs)
    rw [List.length_append]
    omega

/-! ## Acknowledgements -/

/-- A list without its first command that answers, searched up to one at which the search
stops. -/
def takeOut {β : Type} (stop answers : β → Bool) : List β → Option (List β)
  | [] => none
  | b :: rest =>
    if stop b then none else if answers b then some rest
    else (takeOut stop answers rest).map (b :: ·)

theorem removeSent_eq (ack : Acknowledgement) (l : List (OutgoingCommand α)) :
    removeSent ack l = takeOut (fun _ => false) (fun c => decide (c.answers ack)) l := by
  induction l with
  | nil => rfl
  | cons c l ih => simp [removeSent, takeOut, ih]

theorem removeRetry_eq (ack : Acknowledgement) (l : List (OutgoingCommand α)) :
    removeRetry ack l = takeOut (fun c => decide (c.sendAttempts < 1))
      (fun c => decide (c.answers ack)) l := by
  induction l with
  | nil => rfl
  | cons c l ih => simp [removeRetry, takeOut, ih]

/-- The search finds the node of the command that is to be taken out. -/
theorem search_finds {h : Heap ν} {list : ν} {us : List ν} (hr : Linked h list (us ++ xs))
    {fuel : ℕ} (hfuel : xs.length < fuel) (stop answers : ν → Bool) :
    (takeOut stop answers xs = none ∧
        search h list stop answers fuel (xs.headD list) = some none) ∨
      ∃ front x back, xs = front ++ x :: back ∧ takeOut stop answers xs = some (front ++ back) ∧
        search h list stop answers fuel (xs.headD list) = some (some x) := by
  induction xs generalizing us fuel with
  | nil =>
    cases fuel with
    | zero => cases hfuel
    | succ fuel =>
      refine .inl ⟨rfl, ?_⟩
      rw [search, List.headD_nil, if_pos rfl]
  | cons x xs ih =>
    cases fuel with
    | zero => cases hfuel
    | succ fuel =>
      have hne : x ≠ list := fun heq =>
        (List.nodup_cons.mp hr.nodup).1 (heq ▸ List.mem_append_right us List.mem_cons_self)
      have hnext : h.next x = xs.headD list := (linked_cons_iff.mp hr).2.2.2.2.1
      rw [search, List.headD_cons, if_neg hne, takeOut, hnext]
      cases hstop : stop x with
      | true => exact .inl ⟨rfl, rfl⟩
      | false =>
        cases hanswers : answers x with
        | true => exact .inr ⟨[], x, xs, rfl, rfl, rfl⟩
        | false =>
          rw [List.append_cons] at hr
          obtain ⟨hnone, hsearch⟩ | ⟨front, y, back, hsplit, hsome, hsearch⟩ :=
            ih hr (Nat.lt_of_succ_lt_succ hfuel)
          · refine .inl ⟨?_, hsearch⟩
            simp [hnone]
          · refine .inr ⟨x :: front, y, back, ?_, ?_, hsearch⟩
            · rw [hsplit, List.cons_append]
            · simp [hsome]

theorem takeOut_map {β γ : Type} (f : β → γ) (stop answers : γ → Bool) (l : List β) :
    takeOut stop answers (l.map f) =
      (takeOut (fun b => stop (f b)) (fun b => answers (f b)) l).map (List.map f) := by
  induction l with
  | nil => rfl
  | cons b l ih =>
    rw [List.map_cons, takeOut, takeOut]
    split
    · rfl
    · split
      · rfl
      · rw [ih]
        simp [Option.map_map, Function.comp_def]

omit [DecidableEq ν] in
theorem Stores.release (h : Stores sent out p xs ys s) (ack : Acknowledgement) :
    Stores sent out (p.release ack) xs ys (s.release ack) := by
  unfold StoredSender.release Sender.release
  rw [h.channelCount, h.channels]
  split
  · exact ⟨h.sentRing, h.outRing, h.apart, h.sentCommands, h.outCommands, h.live, rfl, rfl⟩
  · exact h

section

variable {front back : List ν}

theorem Stores.discard_sent (h : Stores sent out p (front ++ x :: back) ys s) :
    Stores sent out (p.discard x) (front ++ back) ys
      { s with sentReliableCommands := (front ++ back).map p.command } := by
  constructor
  case sentRing => exact listRemove_ring h.sentRing
  case outRing => exact listRemove_other h.sentRing h.outRing h.apart
  case apart =>
    intro c hc hc'
    obtain rfl | hc := List.mem_cons.mp hc
    · exact h.apart List.mem_cons_self hc'
    · exact h.apart (List.mem_cons_of_mem sent (mem_of_without x hc)) hc'
  case sentCommands =>
    rfl
  case outCommands => exact h.outCommands
  case live =>
    have hperm : p.live.Perm (x :: (front ++ back ++ ys)) :=
      h.live.trans (List.perm_middle.append_right ys)
    have herase := hperm.erase x
    rw [List.erase_cons_head] at herase
    exact herase
  case channelCount => exact h.channelCount
  case channels => exact h.channels

theorem Stores.discard_out (h : Stores sent out p xs (front ++ x :: back) s) :
    Stores sent out (p.discard x) xs (front ++ back)
      { s with outgoingSendReliableCommands := (front ++ back).map p.command } := by
  have hapart : (out :: (front ++ x :: back)).Disjoint (sent :: xs) :=
    fun c hc hc' => h.apart hc' hc
  constructor
  case sentRing => exact listRemove_other h.outRing h.sentRing hapart
  case outRing => exact listRemove_ring h.outRing
  case apart =>
    intro c hc' hc
    obtain rfl | hc := List.mem_cons.mp hc
    · exact h.apart hc' List.mem_cons_self
    · exact h.apart hc' (List.mem_cons_of_mem out (mem_of_without x hc))
  case sentCommands => exact h.sentCommands
  case outCommands =>
    rfl
  case live =>
    have hperm : p.live.Perm (x :: (xs ++ (front ++ back))) :=
      h.live.trans ((List.perm_middle.append_left xs).trans List.perm_middle)
    have herase := hperm.erase x
    rw [List.erase_cons_head] at herase
    exact herase
  case channelCount => exact h.channelCount
  case channels => exact h.channels

end

/-- The window and the lists do not touch each other. -/
theorem StoredSender.release_discard (p : StoredSender ν α) (ack : Acknowledgement) (x : ν) :
    (p.release ack).discard x = (p.discard x).release ack := by
  unfold StoredSender.release StoredSender.discard
  split <;> rfl

/-- The acknowledged command is taken out of the queue that the lists say, or none is. -/
theorem Stores.removeSentReliableCommand (h : Stores sent out p xs ys s) {fuel : ℕ}
    (hfuel : xs.length + ys.length < fuel) (ack : Acknowledgement) : ∃ p' xs' ys',
      p.removeSentReliableCommand sent out fuel ack = some p' ∧
        Stores sent out p' xs' ys' (Enet.removeSentReliableCommand s ack) ∧
        xs'.length + ys'.length ≤ xs.length + ys.length := by
  have hr : Linked p.heap sent ([] ++ xs) := h.sentRing
  have ho : Linked p.heap out ([] ++ ys) := h.outRing
  have hsent : xs.length < fuel := by omega
  have hout : ys.length < fuel := by omega
  have hlists : removeSent ack s.sentReliableCommands =
      (takeOut (fun _ => false) (p.answers ack) xs).map (List.map p.command) := by
    rw [← h.sentCommands, removeSent_eq, takeOut_map]
    rfl
  have hlists' : removeRetry ack s.outgoingSendReliableCommands =
      (takeOut p.fresh (p.answers ack) ys).map (List.map p.command) := by
    rw [← h.outCommands, removeRetry_eq, takeOut_map]
    rfl
  unfold StoredSender.removeSentReliableCommand Enet.removeSentReliableCommand
  rw [hlists, h.sentRing.next_sentinel, h.outRing.next_sentinel]
  obtain ⟨hnone, hsearch⟩ | ⟨front, x, back, rfl, hsome, hsearch⟩ :=
    search_finds hr hsent (fun _ => false) (p.answers ack)
  · obtain ⟨hnone', hsearch'⟩ | ⟨front, x, back, rfl, hsome, hsearch'⟩ :=
      search_finds ho hout p.fresh (p.answers ack)
    · refine ⟨p, xs, ys, ?_, ?_, le_rfl⟩
      · rw [hsearch]
        dsimp only
        rw [hsearch']
      · rw [hnone, hlists', hnone']
        exact h
    · refine ⟨(p.release ack).discard x, xs, front ++ back, ?_, ?_, ?_⟩
      · rw [hsearch]
        dsimp only
        rw [hsearch']
      · rw [hnone, hlists', hsome, StoredSender.release_discard]
        exact h.discard_out.release ack
      · rw [List.length_append, List.length_append, List.length_cons]
        omega
  · refine ⟨(p.release ack).discard x, front ++ back, ys, ?_, ?_, ?_⟩
    · rw [hsearch]
    · rw [hsome, StoredSender.release_discard]
      exact h.discard_sent.release ack
    · rw [List.length_append, List.length_append, List.length_cons]
      omega

end

/-! ## Runs -/

section

variable {ν α : Type} [DecidableEq ν]

/-- What happens to the sending half. A packet is sent in the node that the allocator gave for
it. -/
inductive SenderEvent (ν α : Type) where
  | send (x : ν) (channelID : ℕ) (packet : α)
  | flush (room : ℕ)
  | timeouts (expired : OutgoingCommand α → Bool)
  | acknowledgement (ack : Acknowledgement)

/-- The sender on lists: its next state and the commands that go out. -/
def Sender.step (s : Sender α) : SenderEvent ν α → Sender α × List (ReliableCommand α)
  | .send _ channelID packet => (Enet.setupOutgoingCommand s channelID packet, [])
  | .flush room => Enet.checkOutgoingCommands room s
  | .timeouts expired => (Enet.checkTimeouts s expired, [])
  | .acknowledgement ack => (Enet.removeSentReliableCommand s ack, [])

def Sender.run (s : Sender α) (events : List (SenderEvent ν α)) :
    Option (Sender α × List (ReliableCommand α)) :=
  EventRun.exec (fun s e => some (s.step e)) s events

variable (sent out : ν)

namespace StoredSender

def start (h : Heap ν) (command : ν → OutgoingCommand α) (channelCount : ℕ) : StoredSender ν α where
  heap := listClear (listClear h sent) out
  command
  live := []
  channelCount
  channels := (Link.start channelCount : Link α).sender.channels

def step (fuel : ℕ) (p : StoredSender ν α) :
    SenderEvent ν α → Option (StoredSender ν α × List (ReliableCommand α))
  | .send x channelID packet => some (p.setupOutgoingCommand out x channelID packet, [])
  | .flush room => some (p.checkOutgoingCommands sent out room (p.heap.next out))
  | .timeouts expired => (p.checkTimeouts sent out fuel expired).map fun p => (p, [])
  | .acknowledgement ack =>
    (p.removeSentReliableCommand sent out fuel ack).map fun p => (p, [])

def run (fuel : ℕ) (p : StoredSender ν α) (events : List (SenderEvent ν α)) :
    Option (StoredSender ν α × List (ReliableCommand α)) :=
  EventRun.exec (step sent out fuel) p events

/-- A node that is given out is not in use. -/
def Allocates (p : StoredSender ν α) : SenderEvent ν α → Prop
  | .send x _ _ => Unused sent out p x
  | _ => True

instance (p : StoredSender ν α) : ∀ e, Decidable (p.Allocates sent out e)
  | .send _ _ _ => inferInstanceAs (Decidable (_ ∧ _ ∧ _))
  | .flush _ | .timeouts _ | .acknowledgement _ => isTrue trivial

end StoredSender

variable {sent out}

theorem Stores.start (hne : sent ≠ out) (h : Heap ν) (command : ν → OutgoingCommand α)
    (channelCount : ℕ) :
    Stores sent out (.start sent out h command channelCount) [] []
      (Link.start channelCount : Link α).sender := by
  constructor
  · exact listClear_other (listClear_ring h sent) (by simpa using hne.symm)
  · exact listClear_ring _ out
  · simpa using hne.symm
  all_goals simp [StoredSender.start, Link.start]

variable {p : StoredSender ν α} {s : Sender α} {xs ys : List ν}

/-- The step in memory succeeds and does what the step on lists does. -/
theorem Stores.step (h : Stores sent out p xs ys s) {fuel : ℕ}
    (hfuel : xs.length + ys.length < fuel) {e : SenderEvent ν α}
    (hunused : p.Allocates sent out e) :
    ∃ p' xs' ys', p.step sent out fuel e = some (p', (s.step e).2) ∧
      Stores sent out p' xs' ys' (s.step e).1 ∧
      xs'.length + ys'.length ≤ xs.length + ys.length + 1 := by
  cases e with
  | send x channelID packet =>
    refine ⟨_, xs, ys ++ [x], rfl, h.setupOutgoingCommand hunused channelID packet, ?_⟩
    rw [List.length_append, List.length_singleton]
    omega
  | flush room =>
    obtain ⟨xs', ys', hstores, hsame, hlength⟩ := h.checkOutgoingCommands room
    rw [← h.outRing.next_sentinel] at hstores hsame
    refine ⟨_, xs', ys', ?_, hstores, by omega⟩
    exact congrArg some (Prod.ext rfl hsame)
  | timeouts expired =>
    have hsent : xs.length < fuel := by omega
    obtain ⟨p', xs', ys', hloop, hstores, hlength⟩ := h.checkTimeouts hsent expired
    refine ⟨p', xs', ys', ?_, hstores, by omega⟩
    rw [StoredSender.step, hloop]
    rfl
  | acknowledgement ack =>
    obtain ⟨p', xs', ys', hremove, hstores, hlength⟩ := h.removeSentReliableCommand hfuel ack
    refine ⟨p', xs', ys', ?_, hstores, by omega⟩
    rw [StoredSender.step, hremove]
    rfl

/-- Over any run from empty lists, whatever the memory holds at first and whichever free nodes
the allocator gives out, every loop over a list comes to its end, the commands that go out are
those of the sender on lists, and what is given out at the end is what waits in its queues. -/
theorem queues_in_memory (hne : sent ≠ out) (h : Heap ν) (command : ν → OutgoingCommand α)
    (channelCount : ℕ) {fuel : ℕ} {events : List (SenderEvent ν α)}
    (hfuel : events.length < fuel)
    (hunused : EventRun.Admitted (StoredSender.step sent out fuel)
      (StoredSender.Allocates sent out) (.start sent out h command channelCount) events) :
    ∃ p s commands,
      (StoredSender.start sent out h command channelCount).run sent out fuel events =
        some (p, commands) ∧
      (Link.start channelCount : Link α).sender.run events = some (s, commands) ∧
      ∃ xs ys, Stores sent out p xs ys s := by
  -- each event still to come may need one node more
  let Keeps (p : StoredSender ν α) (s : Sender α) (events : List (SenderEvent ν α)) : Prop :=
    ∃ xs ys, Stores sent out p xs ys s ∧ xs.length + ys.length + events.length < fuel
  have hstep : ∀ (p : StoredSender ν α) (s : Sender α) e (events : List (SenderEvent ν α)),
      Keeps p s (e :: events) → p.Allocates sent out e → ∃ p' s' commands,
        p.step sent out fuel e = some (p', commands) ∧ some (s.step e) = some (s', commands) ∧
          Keeps p' s' events := by
    rintro p s e events ⟨xs, ys, hstores, hlength⟩ hallocates
    rw [List.length_cons] at hlength
    have hlength' : xs.length + ys.length < fuel := by omega
    obtain ⟨p', xs', ys', hmemory, hstores', hgrown⟩ := hstores.step hlength' hallocates
    exact ⟨p', _, _, hmemory, rfl, xs', ys', hstores', by omega⟩
  have hstart : Keeps (.start sent out h command channelCount)
      (Link.start channelCount : Link α).sender events :=
    ⟨[], [], Stores.start hne h command channelCount, by simpa using hfuel⟩
  obtain ⟨p, s, commands, hmemory, hlists, xs, ys, hstores, -⟩ :=
    EventRun.exec_simulates Keeps hstep hstart hunused
  exact ⟨p, s, commands, hmemory, hlists, xs, ys, hstores⟩

/-- Two packets go out, one is lost and goes out again, and the third is put in the node that
the acknowledgement of the first has freed. -/
def reusedNode : List (SenderEvent ℕ Char) :=
  [.send 2 0 'a', .send 3 0 'b', .flush 2, .acknowledgement ⟨0, 1⟩, .timeouts fun _ => true,
    .send 2 0 'c', .flush 2]

theorem queues_in_memory_reused :
    ∃ p s, (StoredSender.start 0 1 ⟨fun _ => 9, fun _ => 9⟩
        (fun _ => ⟨5, 5, 5, 'x'⟩) 1).run 0 1 8 reusedNode =
        some (p, [⟨0, 1, 'a'⟩, ⟨0, 2, 'b'⟩, ⟨0, 2, 'b'⟩, ⟨0, 3, 'c'⟩]) ∧
      ∃ xs ys, Stores 0 1 p xs ys s := by
  have hne : 0 ≠ 1 := by decide
  have hfuel : reusedNode.length < 8 := by decide
  have hallocates : EventRun.Admitted (StoredSender.step 0 1 8) (StoredSender.Allocates 0 1)
      (.start 0 1 ⟨fun _ => 9, fun _ => 9⟩ (fun _ => ⟨5, 5, 5, 'x'⟩) 1) reusedNode := by decide
  have hcommands : ((Link.start 1 : Link Char).sender.run reusedNode).map Prod.snd =
      some [⟨0, 1, 'a'⟩, ⟨0, 2, 'b'⟩, ⟨0, 2, 'b'⟩, ⟨0, 3, 'c'⟩] := by decide
  obtain ⟨p, s, commands, hmemory, hlists, hstores⟩ :=
    queues_in_memory hne ⟨fun _ => 9, fun _ => 9⟩ (fun _ => ⟨5, 5, 5, 'x'⟩) 1 hfuel hallocates
  rw [hlists] at hcommands
  obtain rfl := Option.some.inj hcommands
  exact ⟨p, s, hmemory, hstores⟩

end

end Fnvmp.Enet
