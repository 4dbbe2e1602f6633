import Fnvmp.DispatchQueue

/-!
# The events of a host

A host hands out, for each of its peers, a CONNECT, packets while the peer is connected, and
one DISCONNECT, whatever it receives and whenever its owner disconnects a peer. A connection
that the host itself asked for may end in a DISCONNECT alone. No event is overwritten by a
later one.
-/

namespace Fnvmp.Enet

variable {α : Type} {calling : Prop} {h h' h'' : Host α} {p : ℕ} {e : Option (HostEvent α)}

def HostEvent.peer : HostEvent α → ℕ
  | .connect p | .receive p _ | .disconnect p => p

/-- A connection was made, and no DISCONNECT handed out since. -/
def PeerState.opened : PeerState → Bool
  | .connected | .disconnecting | .acknowledgingDisconnect | .zombie => true
  | .disconnected | .connecting | .acknowledgingConnect | .connectionPending
  | .connectionSucceeded => false

/-- A DISCONNECT is due. -/
def PeerState.owed (s : PeerState) : Bool := s.opened || s = .connecting

/-- The states met when no event has to wait for a connection. -/
def PeerState.direct : PeerState → Bool
  | .connectionPending | .connectionSucceeded => false
  | .disconnected | .connecting | .acknowledgingConnect | .connected | .disconnecting
  | .acknowledgingDisconnect | .zombie => true

/-- The states in which no command that arrives makes an event. -/
def PeerState.settled : PeerState → Bool
  | .disconnected | .connected | .acknowledgingDisconnect | .zombie => true
  | .connecting | .acknowledgingConnect | .connectionPending | .connectionSucceeded
  | .disconnecting => false

/-- How a peer goes from one state to another, with an event of its own or without. `calling`
says whether anybody may connect to the host. -/
inductive Passes (calling : Prop) (s s' : PeerState) : Option (HostEvent α) → Prop where
  | quiet (howed : s'.owed = s.owed) (hconnected : s' = .connected → s = .connected)
      (hconnecting : s' = .connecting → s = .connecting)
      (hincoming : s' = .acknowledgingConnect → s = .acknowledgingConnect ∨ calling) :
      Passes calling s s' none
  | connect (p : ℕ) (hnew : s = .connecting ∨ s.owed = false) (hopened : s'.opened = true) :
      Passes calling s s' (some (.connect p))
  | receive (p : ℕ) (packet : Post α) (hconnected : s = .connected) (hopened : s'.opened = true) :
      Passes calling s s' (some (.receive p packet))
  | disconnect (p : ℕ) (howed : s.owed = true) (hfree : s'.owed = false)
      (hincoming : s' = .acknowledgingConnect → calling) :
      Passes calling s s' (some (.disconnect p))

def Host.Direct (h : Host α) : Prop := ∀ p, (h.peers p).state.direct = true

/-- What a call does to all peers at once. -/
structure Moves (calling : Prop) (h h' : Host α) (e : Option (HostEvent α)) : Prop where
  peerCount : h'.peerCount = h.peerCount
  direct : h'.Direct
  passes : ∀ p, Passes calling (h.peers p).state (h'.peers p).state
    (e.filter fun e => e.peer = p)

section

variable {s s' s'' : PeerState}

theorem PeerState.owed_of_opened (h : s.opened = true) : s.owed = true := by simp [owed, h]

theorem PeerState.opened_of_owed (h : s.owed = true) (hne : s ≠ .connecting) :
    s.opened = true := by
  simpa [owed, hne] using h

theorem Passes.still (s : PeerState) : Passes calling s s (none : Option (HostEvent α)) :=
  .quiet rfl id id .inl

/-- A change to a state that nothing begins with. -/
theorem Passes.leaves (howed : s'.owed = s.owed)
    (hs : s' ≠ .connected ∧ s' ≠ .connecting ∧ s' ≠ .acknowledgingConnect) :
    Passes calling s s' (none : Option (HostEvent α)) :=
  .quiet howed (fun h => absurd h hs.1) (fun h => absurd h hs.2.1) fun h => absurd h hs.2.2

/-- The DISCONNECT comes with the end of the peer. -/
theorem Passes.frees (p : ℕ) (howed : s.owed = true) :
    Passes calling s .disconnected (some (.disconnect p) : Option (HostEvent α)) :=
  .disconnect p howed rfl fun h => by cases h

theorem Passes.same (h : Passes calling s s' (none : Option (HostEvent α))) : s'.owed = s.owed := by
  cases h with
  | quiet howed => exact howed

theorem Passes.connected (h : Passes calling s s' (none : Option (HostEvent α)))
    (hs : s' = .connected) : s = .connected := by
  cases h with
  | quiet _ hconnected => exact hconnected hs

/-- Whoever is connected stays so until the DISCONNECT. -/
theorem Passes.opened (h : Passes calling s s' (none : Option (HostEvent α)))
    (hs : s.opened = true) : s'.opened = true := by
  cases h with
  | quiet howed _ hconnecting _ =>
    refine PeerState.opened_of_owed (howed.trans (PeerState.owed_of_opened hs)) fun heq => ?_
    rw [hconnecting heq] at hs
    cases hs

/-- Nobody becomes a peer the host connects to. -/
theorem Passes.connecting (h : Passes calling s s' e) (hs : s' = .connecting) :
    s = .connecting := by
  cases h with
  | quiet _ _ hconnecting _ => exact hconnecting hs
  | connect p _ hopened | receive p packet _ hopened =>
    rw [hs] at hopened
    cases hopened
  | disconnect p _ hfree _ =>
    rw [hs] at hfree
    cases hfree

/-- A connection comes in only if anybody may connect. -/
theorem Passes.incoming (h : Passes calling s s' e) (hs : s' = .acknowledgingConnect) :
    s = .acknowledgingConnect ∨ calling := by
  cases h with
  | quiet _ _ _ hincoming => exact hincoming hs
  | connect p _ hopened | receive p packet _ hopened =>
    rw [hs] at hopened
    cases hopened
  | disconnect p _ _ hincoming => exact .inr (hincoming hs)

theorem Passes.after (hquiet : Passes calling s s' (none : Option (HostEvent α)))
    (h : Passes calling s' s'' e) : Passes calling s s'' e := by
  cases hquiet with
  | quiet howed hconnected hconnecting hincoming =>
    cases h with
    | quiet howed' hconnected' hconnecting' hincoming' =>
      exact .quiet (howed'.trans howed) (fun heq => hconnected (hconnected' heq))
        (fun heq => hconnecting (hconnecting' heq)) fun heq => (hincoming' heq).elim hincoming .inr
    | connect p hnew hopened => exact .connect p (hnew.imp hconnecting howed.symm.trans) hopened
    | receive p packet hconnected' hopened =>
      exact .receive p packet (hconnected hconnected') hopened
    | disconnect p howed' hfree hincoming' =>
      exact .disconnect p (howed.symm.trans howed') hfree hincoming'

theorem Passes.before (h : Passes calling s s' e)
    (hquiet : Passes calling s' s'' (none : Option (HostEvent α))) : Passes calling s s'' e := by
  cases h with
  | quiet => exact Passes.after (.quiet ‹_› ‹_› ‹_› ‹_›) hquiet
  | connect p hnew hopened => exact .connect p hnew (hquiet.opened hopened)
  | receive p packet hconnected hopened =>
    exact .receive p packet hconnected (hquiet.opened hopened)
  | disconnect p howed hfree hincoming =>
    cases hquiet with
    | quiet howed' _ _ hincoming' =>
      exact .disconnect p howed (howed'.trans hfree) fun heq => (hincoming' heq).elim hincoming id

end

theorem Moves.after (h₁ : Moves calling h h' none) (h₂ : Moves calling h' h'' e) :
    Moves calling h h'' e :=
  ⟨h₂.peerCount.trans h₁.peerCount, h₂.direct, fun p => (h₁.passes p).after (h₂.passes p)⟩

theorem Moves.before (h₁ : Moves calling h h' e) (h₂ : Moves calling h' h'' none) :
    Moves calling h h'' e :=
  ⟨h₂.peerCount.trans h₁.peerCount, h₂.direct, fun p => (h₁.passes p).before (h₂.passes p)⟩

theorem Moves.own {x : HostEvent α} (h₁ : Moves calling h h' (some x)) :
    Passes calling (h.peers x.peer).state (h'.peers x.peer).state (some x) := by
  simpa [Option.filter_some] using h₁.passes x.peer

theorem Moves.other {x : HostEvent α} (h₁ : Moves calling h h' (some x)) (hp : p ≠ x.peer) :
    Passes calling (h.peers p).state (h'.peers p).state (none : Option (HostEvent α)) := by
  simpa [Option.filter_some, Ne.symm hp] using h₁.passes p

/-- An event is of one of the host's peers. -/
theorem Moves.inside {x : HostEvent α} (hs : h.Sound) (hs' : h'.Sound)
    (h₁ : Moves calling h h' (some x)) : x.peer < h.peerCount := by
  have hfree : ∀ s : PeerState, s.owed = true → s ≠ .disconnected := by
    rintro s hs rfl
    cases hs
  cases h₁.own with
  | connect p _ hopened =>
    rw [← h₁.peerCount]
    exact hs'.inside _ (hfree _ (PeerState.owed_of_opened hopened))
  | receive p packet hconnected _ => exact hs.inside _ (hfree _ (by rw [hconnected]; rfl))
  | disconnect p howed _ _ => exact hs.inside _ (hfree _ howed)

/-- The state of every peer stays. -/
theorem Moves.still (hdirect : h.Direct) (hcount : h'.peerCount = h.peerCount)
    (hstate : ∀ q, (h'.peers q).state = (h.peers q).state) : Moves calling h h' none where
  peerCount := hcount
  direct q := by rw [hstate]; exact hdirect q
  passes q := by rw [hstate]; exact .still _

theorem Moves.refl (hdirect : h.Direct) : Moves calling h h none :=
  .still hdirect rfl fun _ => rfl

/-- The state of one peer changes, and the event is of that peer. -/
theorem Moves.change (hdirect : h.Direct) (state : PeerState)
    (hcount : h'.peerCount = h.peerCount)
    (hstate : ∀ q, (h'.peers q).state = if q = p then state else (h.peers q).state)
    (hstays : state.direct = true) (he : ∀ x ∈ e, x.peer = p)
    (hpasses : Passes calling (h.peers p).state state e) : Moves calling h h' e where
  peerCount := hcount
  direct q := by
    rw [hstate]
    split
    · exact hstays
    · exact hdirect q
  passes q := by
    rw [hstate]
    by_cases hq : q = p
    · subst hq
      have hown : e.filter (fun x => x.peer = q) = e := by
        cases e with
        | none => rfl
        | some x => simp [he x rfl]
      rw [if_pos rfl, hown]
      exact hpasses
    · have hother : e.filter (fun x => x.peer = q) = none := by
        cases e with
        | none => rfl
        | some x => simp [he x rfl, Ne.symm hq]
      rw [if_neg hq, hother]
      exact .still _

theorem Host.Direct.of_state (hdirect : h.Direct) {state : PeerState}
    (hstate : (h.peers p).state = state) : state.direct = true := hstate ▸ hdirect p

/-! ## What arrives -/

/-- A command of a peer that is not settled may make the one event of its datagram. -/
structure Command.Answered (calling : Prop) (h h' : Host α) (p : ℕ)
    (e : Option (HostEvent α)) : Prop where
  moves : Moves calling h h' e
  settled : e ≠ none → (h'.peers p).state.settled = true
  spent : (h.peers p).state.settled = true → e = none ∧ (h'.peers p).state.settled = true

/-- The state of the peer changes without an event. -/
theorem Command.Answered.quiet (hdirect : h.Direct) (state : PeerState)
    (hcount : h'.peerCount = h.peerCount)
    (hstate : ∀ q, (h'.peers q).state = if q = p then state else (h.peers q).state)
    (hstays : state.direct = true)
    (hpasses : Passes calling (h.peers p).state state (none : Option (HostEvent α)))
    (hsettled : (h.peers p).state.settled = true → state.settled = true) :
    Command.Answered calling h h' p none where
  moves := .change hdirect state hcount hstate hstays (fun _ hx => by cases hx) hpasses
  settled hne := absurd rfl hne
  spent hs := by
    refine ⟨rfl, ?_⟩
    rw [hstate, if_pos rfl]
    exact hsettled hs

theorem Command.Answered.still (hdirect : h.Direct) (hcount : h'.peerCount = h.peerCount)
    (hstate : ∀ q, (h'.peers q).state = (h.peers q).state) :
    Command.Answered calling h h' p none where
  moves := .still hdirect hcount hstate
  settled hne := absurd rfl hne
  spent hs := ⟨rfl, by rw [hstate]; exact hs⟩

/-- The state of the peer changes with an event, for the last time. -/
theorem Command.Answered.event (hdirect : h.Direct) {x : HostEvent α} (state : PeerState)
    (hcount : h'.peerCount = h.peerCount)
    (hstate : ∀ q, (h'.peers q).state = if q = p then state else (h.peers q).state)
    (hstays : state.direct = true) (hx : x.peer = p)
    (hpasses : Passes calling (h.peers p).state state (some x)) (hsettled : state.settled = true)
    (hopen : (h.peers p).state.settled = false) : Command.Answered calling h h' p (some x) where
  moves := .change hdirect state hcount hstate hstays (fun y hy => by cases hy; exact hx) hpasses
  settled _ := by rw [hstate, if_pos rfl]; exact hsettled
  spent hs := by
    rw [hopen] at hs
    cases hs

theorem handleAcknowledge_answered (hdirect : h.Direct) (p : ℕ) (inTime : Bool)
    (acknowledged : CommandNumber) :
    Command.Answered calling h (handleAcknowledge h p inTime acknowledged).1 p
      (handleAcknowledge h p inTime acknowledged).2.1 := by
  unfold handleAcknowledge
  split
  · exact .still hdirect rfl fun _ => rfl
  cases hstate : (h.peers p).state with
  | acknowledgingConnect =>
    dsimp only
    split
    · exact .event hdirect .connected rfl (fun q => changeState_state h p q .connected) rfl rfl
        (by rw [hstate]; exact .connect p (.inr rfl) rfl) rfl (by rw [hstate]; rfl)
    · exact .still hdirect rfl fun _ => rfl
  | disconnecting =>
    dsimp only
    split
    · simp only [notifyDisconnect, hstate]
      exact .event hdirect .disconnected rfl (fun q => peerReset_state h p q) rfl rfl
        (by rw [hstate]; exact .frees p rfl) rfl (by rw [hstate]; rfl)
    · exact .still hdirect rfl fun _ => rfl
  | disconnected | connecting | connectionPending | connectionSucceeded | connected
  | acknowledgingDisconnect | zombie => exact .still hdirect rfl fun _ => rfl

theorem handleVerifyConnect_answered (hdirect : h.Direct) (p : ℕ) (accepted : Bool) :
    Command.Answered calling h (handleVerifyConnect h p accepted).1 p
      (handleVerifyConnect h p accepted).2.1 := by
  unfold handleVerifyConnect
  split
  · exact .still hdirect rfl fun _ => rfl
  rename_i hstate
  have hstate : (h.peers p).state = .connecting := by simpa using hstate
  split
  · exact .event hdirect .connected rfl (fun q => changeState_state h p q .connected) rfl rfl
      (by rw [hstate]; exact .connect p (.inl rfl) rfl) rfl (by rw [hstate]; rfl)
  · exact .quiet hdirect .zombie (by simp) (by simp) rfl
      (by rw [hstate]; exact .leaves rfl (by decide)) fun _ => rfl

theorem handleDisconnect_answered (hdirect : h.Direct) (p : ℕ) (acknowledged : Bool) :
    Command.Answered calling h (handleDisconnect h p acknowledged) p none := by
  unfold handleDisconnect
  cases hstate : (h.peers p).state with
  | disconnected | zombie | acknowledgingDisconnect => exact .still hdirect rfl fun _ => rfl
  | connectionPending | connectionSucceeded =>
    exact absurd (hdirect.of_state hstate) (by decide)
  | connecting | disconnecting =>
    exact .quiet hdirect .zombie (by simp) (by simp) rfl
      (by rw [hstate]; exact .leaves rfl (by decide)) fun _ => rfl
  | connected =>
    cases acknowledged with
    | true =>
      exact .quiet hdirect .acknowledgingDisconnect (by simp) (by simp) rfl
        (by rw [hstate]; exact .leaves rfl (by decide)) fun _ => rfl
    | false =>
      exact .quiet hdirect .zombie (by simp) (by simp) rfl
        (by rw [hstate]; exact .leaves rfl (by decide)) fun _ => rfl
  | acknowledgingConnect =>
    exact .quiet hdirect .disconnected (by simp) (by simp) rfl
      (by rw [hstate]; exact .leaves rfl (by decide)) fun _ => rfl

theorem handleSend_states (h : Host α) (p : ℕ) (arrived : List (Post α)) :
    (handleSend h p arrived).peerCount = h.peerCount ∧
      ∀ q, ((handleSend h p arrived).peers q).state = (h.peers q).state := by
  have hset : ∀ q, ((h.set p { h.peers p with
      dispatchedCommands := (h.peers p).dispatchedCommands ++ arrived }).peers q).state =
        (h.peers q).state := by
    intro q
    by_cases hq : q = p
    · subst hq
      simp
    · simp [hq]
  unfold handleSend
  split
  · exact ⟨rfl, hset⟩
  · exact ⟨by simp, fun q => by rw [Host.enqueue_state]; exact hset q⟩

theorem handleCommand_answered (hdirect : h.Direct) (p : ℕ) (acknowledged : Bool)
    (command : Command α) : Command.Answered calling h (handleCommand h p acknowledged command).1 p
      (handleCommand h p acknowledged command).2.1 := by
  cases command with
  | acknowledge inTime number => exact handleAcknowledge_answered hdirect p inTime number
  | verifyConnect accepted => exact handleVerifyConnect_answered hdirect p accepted
  | disconnect => exact handleDisconnect_answered hdirect p acknowledged
  | ping => exact .still hdirect rfl fun _ => rfl
  | send arrived =>
    rw [handleCommand]
    split
    · obtain ⟨hcount, hstate⟩ := handleSend_states h p arrived
      exact .still hdirect hcount hstate
    · exact .still hdirect rfl fun _ => rfl

theorem acknowledge_states (h : Host α) (p : ℕ) (number : CommandNumber) :
    (acknowledge h p number).peerCount = h.peerCount ∧
      ∀ q, ((acknowledge h p number).peers q).state = (h.peers q).state := by
  unfold acknowledge
  dsimp only
  split
  · refine ⟨rfl, fun q => ?_⟩
    by_cases hq : q = p
    · subst hq
      simp
    · simp [hq]
  · exact ⟨rfl, fun _ => rfl⟩

/-- An event of a datagram is not overwritten: after it the peer is settled. -/
theorem handleCommands_moves (sentTime : Bool) (p : ℕ) (commands : List (Command α × Bool))
    (hmoves : Moves calling h h' e) (hlast : e ≠ none → (h'.peers p).state.settled = true) :
    Moves calling h (handleCommands sentTime p commands h' e).1
      (handleCommands sentTime p commands h' e).2 := by
  induction commands generalizing h' e with
  | nil => exact hmoves
  | cons head rest ih =>
    obtain ⟨command, acknowledged⟩ := head
    have hanswered : Command.Answered calling h' _ p _ :=
      handleCommand_answered hmoves.direct p acknowledged command
    have hafter : Moves calling h (handleCommand h' p acknowledged command).1
        ((handleCommand h' p acknowledged command).2.1.or e) := by
      cases e with
      | none => simpa using hmoves.after hanswered.moves
      | some x =>
        have hnone := (hanswered.spent (hlast (by simp))).1
        rw [hnone]
        exact hmoves.before (hnone ▸ hanswered.moves)
    have hsettled : (handleCommand h' p acknowledged command).2.1.or e ≠ none →
        ((handleCommand h' p acknowledged command).1.peers p).state.settled = true := by
      intro hne
      cases hown : (handleCommand h' p acknowledged command).2.1 with
      | none =>
        rw [hown, Option.none_or] at hne
        exact (hanswered.spent (hlast hne)).2
      | some x => exact hanswered.settled (by simp [hown])
    have hack := acknowledge_states (handleCommand h' p acknowledged command).1 p command.number
    simp only [handleCommands]
    split
    · exact hafter
    split
    · exact ih hafter hsettled
    split
    · refine ih (hafter.before (.still hafter.direct hack.1 hack.2)) fun hne => ?_
      rw [hack.2]
      exact hsettled hne
    · exact hafter

/-- A CONNECT is somebody else's. -/
def Datagram.calls : Datagram α → Bool
  | .ofPeer _ _ _ => false
  | .connect _ _ _ _ => true

theorem handleIncomingCommands_moves (hdirect : h.Direct) (datagram : Datagram α)
    (hcalls : datagram.calls = true → calling) :
    Moves calling h (handleIncomingCommands h datagram).1
      (handleIncomingCommands h datagram).2 := by
  cases datagram with
  | ofPeer peerID sentTime commands =>
    rw [handleIncomingCommands]
    split
    · exact .refl hdirect
    split
    · exact .refl hdirect
    · exact handleCommands_moves sentTime peerID commands (.refl hdirect) fun hne =>
        absurd rfl hne
  | connect accepted acknowledged sentTime commands =>
    rw [handleIncomingCommands]
    cases hconnect : handleConnect h accepted with
    | none => exact .refl hdirect
    | some r =>
      obtain ⟨h', p⟩ := r
      have hopened : Moves calling h h' none := by
        obtain ⟨hfree, -, rfl⟩ := handleConnect_cases hconnect
        refine .change hdirect .acknowledgingConnect rfl (fun q => changeState_state h p q _) rfl
          (fun _ hx => by cases hx) ?_
        rw [hfree]
        exact .quiet rfl (fun h => by cases h) (fun h => by cases h) fun _ => .inr (hcalls rfl)
      dsimp only
      split
      · exact hopened
      · exact handleCommands_moves sentTime p commands hopened fun hne => absurd rfl hne

theorem receiveIncomingCommands_moves (hdirect : h.Direct) (datagrams : List (Datagram α))
    (hcalls : datagrams.any Datagram.calls = true → calling) :
    Moves calling h (receiveIncomingCommands datagrams h).1
      (receiveIncomingCommands datagrams h).2 := by
  induction datagrams generalizing h with
  | nil => exact .refl hdirect
  | cons datagram rest ih =>
    rw [List.any_cons, Bool.or_eq_true] at hcalls
    have hfirst := handleIncomingCommands_moves hdirect datagram fun hyes => hcalls (.inl hyes)
    unfold receiveIncomingCommands
    split
    · rename_i heq
      rw [heq] at hfirst
      exact hfirst
    · rename_i heq
      rw [heq] at hfirst
      exact hfirst.after (ih hfirst.direct fun hyes => hcalls (.inr hyes))

/-! ## What goes out -/

theorem trim_states (h : Host α) (p : ℕ) (acknowledgements : List CommandNumber) (q : ℕ) :
    ((h.set p { h.peers p with acknowledgements }).peers q).state = (h.peers q).state := by
  by_cases hq : q = p
  · subst hq
    simp
  · simp [hq]

/-- Only a peer that has said goodbye has its DISCONNECT acknowledged. -/
theorem sendAcknowledgements_moves (hs : h.Sound) (hdirect : h.Direct) (room : ℕ) (p : ℕ) :
    Moves calling h (sendAcknowledgements room h p) none := by
  unfold sendAcknowledgements
  dsimp only
  split
  · rename_i hmem
    refine .change (p := p) hdirect .zombie (by simp) (fun q => ?_) rfl
      (fun _ hx => by cases hx) ?_
    · rw [trim_states, dispatchState_state]
    · rcases (hs.peer p).farewell (List.mem_of_mem_take hmem) with hstate | hstate
      · rw [hstate]
        exact .leaves rfl (by decide)
      · rw [hstate]
        exact .still _
  · exact .still hdirect rfl fun q => trim_states h p _ q

theorem notifyDisconnect_moves (hdirect : h.Direct) (p : ℕ) :
    Moves calling h (notifyDisconnect h p).1 (notifyDisconnect h p).2 := by
  have hstates := peerReset_state h p
  unfold notifyDisconnect
  cases hstate : (h.peers p).state with
  | connectionPending | connectionSucceeded =>
    exact absurd (hdirect.of_state hstate) (by decide)
  | disconnected | acknowledgingConnect =>
    exact .change hdirect .disconnected rfl hstates rfl (fun _ hx => by cases hx)
      (by rw [hstate]; exact .leaves rfl (by decide))
  | connecting | connected | disconnecting | acknowledgingDisconnect | zombie =>
    exact .change hdirect .disconnected rfl hstates rfl (fun x hx => by cases hx; rfl)
      (by rw [hstate]; exact .frees p rfl)

theorem sendOutgoingCommands_moves (hs : h.Sound) (hdirect : h.Direct) (turns : List Turn) :
    Moves calling h (sendOutgoingCommands turns h).1 (sendOutgoingCommands turns h).2 := by
  induction turns generalizing h with
  | nil => exact .refl hdirect
  | cons turn rest ih =>
    unfold sendOutgoingCommands
    split
    · exact ih hs hdirect
    rename_i hlive
    have hsound := hs.sendAcknowledgements (fun hz => hlive (.inr hz)) turn.room
    have hsent : Moves calling h _ none := sendAcknowledgements_moves hs hdirect turn.room turn.peer
    dsimp only
    split
    · have hgone : Moves calling _ _ _ := notifyDisconnect_moves hsent.direct turn.peer
      have hgone' := hsound.notifyDisconnect turn.peer
      split
      · rename_i heq
        rw [heq] at hgone
        exact hsent.after hgone
      · rename_i heq
        rw [heq] at hgone hgone'
        exact (hsent.after hgone).after (ih hgone' hgone.direct)
    · exact hsent.after (ih hsound hsent.direct)

/-- A flush makes no event. -/
theorem hostFlush_silent (turns : List Turn) (h : Host α) :
    (sendOutgoingCommands (turns.map fun turn => { turn with timedOut := false }) h).2 = none := by
  induction turns generalizing h with
  | nil => rfl
  | cons turn rest ih =>
    rw [List.map_cons, sendOutgoingCommands]
    split
    · exact ih h
    · exact ih _

theorem hostFlush_moves (hs : h.Sound) (hdirect : h.Direct) (turns : List Turn) :
    Moves calling h (hostFlush turns h) none := by
  have hmoves : Moves calling h _ _ := sendOutgoingCommands_moves hs hdirect
    (turns.map fun turn => { turn with timedOut := false })
  rw [hostFlush_silent] at hmoves
  exact hmoves

/-! ## Calls of the owner -/

theorem dispatchFrom_moves (queue : List ℕ) (hdirect : h.Direct) :
    Moves calling h (dispatchFrom queue h).1 (dispatchFrom queue h).2 := by
  induction queue generalizing h with
  | nil => exact .still hdirect rfl fun _ => rfl
  | cons p rest ih =>
    have hpop : Moves calling h (h.pop p rest) none :=
      .still hdirect rfl fun q => Host.pop_state h p q rest
    rw [dispatchFrom]
    cases hstate : ((h.pop p rest).peers p).state with
    | connectionPending | connectionSucceeded =>
      exact absurd (hpop.direct.of_state hstate) (by decide)
    | zombie =>
      refine hpop.after (.change hpop.direct .disconnected rfl (peerReset_state _ p) rfl
        (fun x hx => by cases hx; rfl) ?_)
      rw [hstate]
      exact .frees p rfl
    | disconnected | connecting | acknowledgingConnect | disconnecting | acknowledgingDisconnect =>
      exact hpop.after (ih hpop.direct)
    | connected =>
      dsimp only
      cases hpackets : ((h.pop p rest).peers p).dispatchedCommands with
      | nil => exact hpop.after (ih hpop.direct)
      | cons packet more =>
        have hstates : ∀ q, (((h.pop p rest).set p { (h.pop p rest).peers p with
            dispatchedCommands := more }).peers q).state =
              if q = p then .connected else ((h.pop p rest).peers q).state := by
          intro q
          by_cases hq : q = p
          · subst hq
            simpa using hstate
          · simp [hq]
        have hpasses : Passes calling ((h.pop p rest).peers p).state .connected
            (some (.receive p packet)) := .receive p packet hstate rfl
        dsimp only
        split
        · exact hpop.after (.change hpop.direct .connected rfl hstates rfl
            (fun x hx => by cases hx; rfl) hpasses)
        · exact hpop.after (.change hpop.direct .connected (by simp) (by simpa using hstates) rfl
            (fun x hx => by cases hx; rfl) hpasses)

def Phase.calls : Phase α → Bool
  | .receiveIncoming datagrams => datagrams.any Datagram.calls
  | .sendOutgoing _ | .dispatchIncoming => false

theorem Phase.run_moves (hr : h.Ready) (hdirect : h.Direct) (phase : Phase α)
    (hcalls : phase.calls = true → calling) : Moves calling h (phase.run h).1 (phase.run h).2 := by
  cases phase with
  | sendOutgoing turns => exact sendOutgoingCommands_moves hr.toSound hdirect turns
  | receiveIncoming datagrams => exact receiveIncomingCommands_moves hdirect datagrams hcalls
  | dispatchIncoming => exact dispatchFrom_moves _ hdirect

theorem servicePhases_moves (hr : h.Ready) (hdirect : h.Direct) (phases : List (Phase α))
    (hcalls : phases.any Phase.calls = true → calling) :
    Moves calling h (servicePhases phases h).1 (servicePhases phases h).2 := by
  induction phases generalizing h with
  | nil => exact .refl hdirect
  | cons phase rest ih =>
    rw [List.any_cons, Bool.or_eq_true] at hcalls
    have hmoves := Phase.run_moves hr hdirect phase fun hyes => hcalls (.inl hyes)
    obtain ⟨-, hready⟩ := hr.run phase
    rw [servicePhases]
    split
    · rename_i heq
      rw [heq] at hmoves
      exact hmoves
    · rename_i heq
      rw [heq] at hmoves hready
      exact hmoves.after (ih (hready rfl) hmoves.direct fun hyes => hcalls (.inr hyes))

theorem hostService_moves (hs : h.Sound) (hdirect : h.Direct) (phases : List (Phase α))
    (hcalls : phases.any Phase.calls = true → calling) :
    Moves calling h (hostService h phases).1 (hostService h phases).2 := by
  have hmoves : Moves calling h _ _ := dispatchFrom_moves h.dispatchQueue hdirect
  obtain ⟨hsound, hempty⟩ := hs.dispatchFrom rfl
  rw [hostService, dispatchIncomingCommands]
  split
  · rename_i heq
    rw [heq] at hmoves
    exact hmoves
  · rename_i heq
    rw [heq] at hmoves hsound hempty
    exact hmoves.after
      (servicePhases_moves (Host.Ready.of_empty hsound (hempty rfl)) hmoves.direct phases hcalls)

/-- A disconnected peer is not connected. The attempt to connect to a peer would be given up
without an event. -/
theorem peerDisconnect_moves (hs : h.Sound) (hdirect : h.Direct) (p : ℕ) (turns : List Turn)
    (hne : (h.peers p).state ≠ .connecting) :
    Moves calling h (peerDisconnect h p turns) none ∧
      ((peerDisconnect h p turns).peers p).state ≠ .connected := by
  have hqueues : Moves calling h (peerResetQueues h p) none := .still hdirect rfl (by simp)
  unfold peerDisconnect
  cases hstate : (h.peers p).state with
  | connecting => exact absurd hstate hne
  | connectionPending | connectionSucceeded =>
    exact absurd (hdirect.of_state hstate) (by decide)
  | disconnecting | disconnected | acknowledgingDisconnect | zombie =>
    exact ⟨.refl hdirect, by simp [hstate]⟩
  | connected =>
    refine ⟨.change (p := p) hdirect .disconnecting rfl (by simp) rfl
      (fun _ hx => by cases hx) ?_, by simp⟩
    rw [hstate]
    exact .leaves rfl (by decide)
  | acknowledgingConnect =>
    have hflush := hqueues.after (hostFlush_moves (hs.resetQueues p) hqueues.direct turns)
    have hfree : ((hostFlush turns (peerResetQueues h p)).peers p).state.owed = false := by
      have hpasses := hflush.passes p
      rw [hstate] at hpasses
      cases hpasses with
      | quiet howed => exact howed
    exact ⟨hflush.after (.change hflush.direct .disconnected rfl (peerReset_state _ p) rfl
      (fun _ hx => by cases hx) (.leaves hfree.symm (by decide))), by simp⟩

end Fnvmp.Enet
