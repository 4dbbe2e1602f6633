import Fnvmp.EnetHost
import Mathlib.Data.List.Nodup
import Mathlib.Logic.Relation

/-!
# The dispatch queue

A peer that is reset with its mark set stays in the queue without it, and putting it in again
would break the list. It is never put in again: from the mark to the next time it is taken out
nothing but another connection attempt of the game's own can happen to it.
-/

namespace Fnvmp.Enet

variable {α : Type} {h h' : Host α} {p : ℕ}

/-- What holds of a peer, by whether it is in the queue. -/
structure Peer.Sound (x : Peer α) (queued : Prop) : Prop where
  marked : x.needsDispatch = true → queued ∧ (x.state = .connected ∨ x.state = .zombie)
  stale : queued → x.needsDispatch = true ∨
    (x.state = .disconnected ∨ x.state = .connecting) ∧ x.acknowledgements = []
  farewell : .disconnect ∈ x.acknowledgements →
    x.state = .acknowledgingDisconnect ∨ x.state = .zombie
  passing : x.state ≠ .connectionPending ∧ x.state ≠ .connectionSucceeded

structure Host.Sound (h : Host α) : Prop where
  whole : h.broken = false
  nodup : h.dispatchQueue.Nodup
  peer : ∀ p, (h.peers p).Sound (p ∈ h.dispatchQueue)
  inside : ∀ p, (h.peers p).state ≠ .disconnected → p < h.peerCount

/-- Between the first dispatch of a service and its event every peer in the queue is marked. -/
structure Host.Ready (h : Host α) : Prop extends h.Sound where
  clean : ∀ p ∈ h.dispatchQueue, (h.peers p).needsDispatch = true

/-! ## The small steps -/

theorem Peer.Sound.reset (queued : Prop) : ({} : Peer α).Sound queued :=
  ⟨nofun, fun _ => .inr ⟨.inl rfl, rfl⟩, nofun, ⟨nofun, nofun⟩⟩

theorem Host.Sound.set (hs : h.Sound) {x : Peer α} (hx : x.Sound (p ∈ h.dispatchQueue))
    (hinside : x.state ≠ .disconnected → p < h.peerCount) : (h.set p x).Sound where
  whole := hs.whole
  nodup := hs.nodup
  peer q := by
    by_cases hq : q = p
    · subst hq
      simpa using hx
    · simpa [Function.update_of_ne hq] using hs.peer q
  inside q hstate := by
    by_cases hq : q = p
    · subst hq
      exact hinside (by simpa using hstate)
    · exact hs.inside q (by simpa [Function.update_of_ne hq] using hstate)

theorem Host.Sound.reset (hs : h.Sound) (p : ℕ) : (peerReset h p).Sound := by
  rw [peerReset_eq]
  exact hs.set (.reset _) fun hstate => absurd rfl hstate

theorem Host.Sound.enqueue (hs : h.Sound)
    (hfree : p ∈ h.dispatchQueue → (h.peers p).needsDispatch = true)
    (hstate : (h.peers p).state = .connected ∨ (h.peers p).state = .zombie) :
    (h.enqueue p).Sound := by
  unfold Host.enqueue
  split
  · exact hs
  · rename_i hmark
    have hout : p ∉ h.dispatchQueue := fun hmem => hmark (hfree hmem)
    refine ⟨by simp [hs.whole, hout], ?_, fun q => ?_, fun q hq => ?_⟩
    · exact List.nodup_append.mpr ⟨hs.nodup, List.nodup_singleton p, by
        rintro a ha b hb rfl
        exact hout (List.mem_singleton.mp hb ▸ ha)⟩
    · by_cases hq : q = p
      · subst hq
        have hx := hs.peer q
        simp only [Function.update_self]
        exact ⟨fun _ => ⟨by simp, hstate⟩, fun _ => .inl rfl, hx.farewell, hx.passing⟩
      · simpa [Function.update_of_ne hq, hq] using hs.peer q
    · refine hs.inside q ?_
      by_cases hqp : q = p
      · subst hqp
        simpa using hq
      · simpa [Function.update_of_ne hqp] using hq

theorem Host.Sound.resetQueues (hs : h.Sound) (p : ℕ) : (peerResetQueues h p).Sound := by
  have hx := hs.peer p
  refine ⟨hs.whole, ?_, fun q => ?_, fun q hq => ?_⟩
  · simp only [peerResetQueues]
    split
    · exact hs.nodup.erase p
    · exact hs.nodup
  · by_cases hq : q = p
    · subst hq
      simp only [peerResetQueues, Function.update_self]
      refine ⟨(fun h => by cases h), fun hqueued => ?_, (fun h => by cases h), hx.passing⟩
      split at hqueued
      · exact absurd hqueued (hs.nodup.not_mem_erase)
      · rename_i hmark
        exact .inr ⟨((hx.stale hqueued).resolve_left hmark).1, rfl⟩
    · have hmem : q ∈ (peerResetQueues h p).dispatchQueue ↔ q ∈ h.dispatchQueue := by
        simp only [peerResetQueues]
        split
        · exact List.mem_erase_of_ne hq
        · rfl
      simp only [hmem]
      simpa [peerResetQueues, Function.update_of_ne hq] using hs.peer q
  · refine hs.inside q ?_
    by_cases hqp : q = p
    · subst hqp
      simpa [peerResetQueues] using hq
    · simpa [peerResetQueues, Function.update_of_ne hqp] using hq

theorem Host.Sound.unmarked (hs : h.Sound) (hout : p ∉ h.dispatchQueue) :
    (h.peers p).needsDispatch = false := by
  cases hmark : (h.peers p).needsDispatch with
  | false => rfl
  | true => exact absurd ((hs.peer p).marked hmark).1 hout

theorem Host.Sound.changeState (hs : h.Sound) (hout : p ∉ h.dispatchQueue) {state : PeerState}
    (hpassing : state ≠ .connectionPending ∧ state ≠ .connectionSucceeded)
    (hfarewell : .disconnect ∈ (h.peers p).acknowledgements →
      state = .acknowledgingDisconnect ∨ state = .zombie)
    (hinside : state ≠ .disconnected → p < h.peerCount) : (changeState h p state).Sound :=
  hs.set ⟨fun hmark => absurd (hs.unmarked hout) (by simpa using hmark),
    fun hqueued => absurd hqueued hout, hfarewell, hpassing⟩ hinside

theorem Host.Sound.dispatchState (hs : h.Sound) (hout : p ∉ h.dispatchQueue)
    (hinside : p < h.peerCount) : (dispatchState h p .zombie).Sound := by
  have hzombie := hs.changeState hout (by decide) (fun _ => .inr rfl) fun _ => hinside
  exact hzombie.enqueue (fun hmem => absurd hmem hout) (.inr (by simp [Enet.changeState]))

theorem Host.Ready.set (hr : h.Ready) {x : Peer α} (hx : x.Sound (p ∈ h.dispatchQueue))
    (hinside : x.state ≠ .disconnected → p < h.peerCount)
    (hmark : p ∈ h.dispatchQueue → x.needsDispatch = true) : (h.set p x).Ready where
  toSound := hr.toSound.set hx hinside
  clean q hq := by
    by_cases hqp : q = p
    · subst hqp
      simpa using hmark hq
    · simpa [Function.update_of_ne hqp] using hr.clean q hq

theorem Host.Ready.reset (hr : h.Ready) (hout : p ∉ h.dispatchQueue) : (peerReset h p).Ready := by
  rw [peerReset_eq]
  exact hr.set (.reset _) (fun hstate => absurd rfl hstate) fun hmem => absurd hmem hout

theorem Host.enqueue_clean (hclean : ∀ q ∈ h.dispatchQueue, (h.peers q).needsDispatch = true) :
    ∀ q ∈ (h.enqueue p).dispatchQueue, ((h.enqueue p).peers q).needsDispatch = true := by
  unfold Host.enqueue
  split
  · exact hclean
  · intro q hq
    by_cases hqp : q = p
    · subst hqp
      simp
    · simpa [Function.update_of_ne hqp] using hclean q (by simpa [hqp] using hq)

theorem Host.Ready.enqueue (hr : h.Ready)
    (hstate : (h.peers p).state = .connected ∨ (h.peers p).state = .zombie) :
    (h.enqueue p).Ready :=
  ⟨hr.toSound.enqueue (hr.clean p) hstate, Host.enqueue_clean hr.clean⟩

/-- A peer whose queues are reset is out of the queue. -/
theorem Host.Ready.resetQueues (hr : h.Ready) (p : ℕ) :
    (peerResetQueues h p).Ready ∧ p ∉ (peerResetQueues h p).dispatchQueue := by
  have hout : p ∉ (peerResetQueues h p).dispatchQueue := by
    simp only [peerResetQueues]
    split
    · exact hr.nodup.not_mem_erase
    · rename_i hmark
      exact fun hmem => hmark (hr.clean p hmem)
  refine ⟨⟨hr.toSound.resetQueues p, fun q hq => ?_⟩, hout⟩
  have hqp : q ≠ p := fun heq => hout (heq ▸ hq)
  have hmem : q ∈ h.dispatchQueue := by
    simp only [peerResetQueues] at hq
    split at hq
    · exact List.mem_of_mem_erase hq
    · exact hq
  simpa [peerResetQueues, Function.update_of_ne hqp] using hr.clean q hmem

theorem Host.Ready.unqueued (hr : h.Ready) (hconnected : (h.peers p).state ≠ .connected)
    (hzombie : (h.peers p).state ≠ .zombie) : p ∉ h.dispatchQueue := by
  intro hmem
  rcases ((hr.peer p).marked (hr.clean p hmem)).2 with hstate | hstate
  · exact hconnected hstate
  · exact hzombie hstate

theorem Host.Ready.changeState (hr : h.Ready) (hout : p ∉ h.dispatchQueue) {state : PeerState}
    (hpassing : state ≠ .connectionPending ∧ state ≠ .connectionSucceeded)
    (hfarewell : .disconnect ∈ (h.peers p).acknowledgements →
      state = .acknowledgingDisconnect ∨ state = .zombie)
    (hinside : state ≠ .disconnected → p < h.peerCount) : (changeState h p state).Ready :=
  hr.set ⟨fun hmark => absurd (hr.unmarked hout) (by simpa using hmark),
    fun hqueued => absurd hqueued hout, hfarewell, hpassing⟩ hinside fun hmem => absurd hmem hout

theorem Host.Ready.dispatchState (hr : h.Ready) (hout : p ∉ h.dispatchQueue)
    (hinside : p < h.peerCount) : (dispatchState h p .zombie).Ready :=
  (hr.changeState hout (by decide) (fun _ => .inr rfl) fun _ => hinside).enqueue
    (.inr (by simp [Enet.changeState]))

/-! ## What arrives -/

theorem handleDisconnect_state (h : Host α) (p : ℕ) (acknowledged : Bool) :
    ((handleDisconnect h p acknowledged).peers p).state = .disconnected ∨
      ((handleDisconnect h p acknowledged).peers p).state = .zombie ∨
      ((handleDisconnect h p acknowledged).peers p).state = .acknowledgingDisconnect := by
  unfold handleDisconnect
  cases hstate : (h.peers p).state with
  | connected => cases acknowledged <;> simp
  | disconnected | zombie | acknowledgingDisconnect => simp [hstate]
  | connecting | acknowledgingConnect | connectionPending | connectionSucceeded | disconnecting =>
    simp

theorem Host.Ready.handleDisconnect (hr : h.Ready) (p : ℕ) (acknowledged : Bool) :
    (handleDisconnect h p acknowledged).Ready := by
  obtain ⟨hqueues, hout⟩ := hr.resetQueues p
  have hacks : ((peerResetQueues h p).peers p).acknowledgements = [] := by simp [peerResetQueues]
  unfold Enet.handleDisconnect
  cases hstate : (h.peers p).state with
  | disconnected | zombie | acknowledgingDisconnect => exact hr
  | connecting | connectionSucceeded | disconnecting =>
    exact hqueues.dispatchState hout (hr.inside p (by simp [hstate]))
  | connected =>
    have hinside := hr.inside p (by simp [hstate])
    cases acknowledged with
    | true =>
      exact hqueues.changeState hout (by decide) (fun _ => .inl rfl) fun _ => hinside
    | false => exact hqueues.dispatchState hout hinside
  | acknowledgingConnect | connectionPending => exact hqueues.reset hout

theorem Host.Ready.handleSend (hr : h.Ready) (hstate : (h.peers p).state = .connected)
    (arrived : List (Post α)) : (handleSend h p arrived).Ready := by
  have hx := hr.peer p
  have hset : (h.set p { h.peers p with
      dispatchedCommands := (h.peers p).dispatchedCommands ++ arrived }).Ready :=
    hr.set ⟨hx.marked, hx.stale, hx.farewell, hx.passing⟩ (hr.inside p) (hr.clean p)
  unfold Enet.handleSend
  split
  · exact hset
  · exact hset.enqueue (.inl (by simpa using hstate))

theorem Host.Ready.acknowledge (hr : h.Ready) (p : ℕ) {number : CommandNumber}
    (hnumber : number = .disconnect → (h.peers p).state = .disconnected ∨
      (h.peers p).state = .zombie ∨ (h.peers p).state = .acknowledgingDisconnect) :
    (acknowledge h p number).Ready := by
  have hx := hr.peer p
  unfold Enet.acknowledge
  dsimp only
  split
  · rename_i hacks
    refine hr.set ⟨hx.marked, fun hqueued => .inl (hr.clean p hqueued), fun hmem => ?_, hx.passing⟩
      (hr.inside p) (hr.clean p)
    rcases List.mem_append.mp hmem with hmem | hmem
    · exact hx.farewell hmem
    · rcases hnumber (List.mem_singleton.mp hmem).symm with hstate | hstate | hstate
      · simp [hstate, PeerState.acknowledges] at hacks
      · exact .inr hstate
      · exact .inl hstate
  · exact hr

theorem Host.Ready.handleAcknowledge (hr : h.Ready) (p : ℕ) (inTime : Bool)
    (acknowledged : CommandNumber) : (handleAcknowledge h p inTime acknowledged).1.Ready := by
  unfold Enet.handleAcknowledge
  split
  · exact hr
  cases hstate : (h.peers p).state with
  | acknowledgingConnect =>
    dsimp only
    split
    · refine hr.changeState (hr.unqueued (by simp [hstate]) (by simp [hstate])) (by decide)
        (fun hmem => ?_) fun _ => hr.inside p (by simp [hstate])
      rcases (hr.peer p).farewell hmem with h | h <;> simp [hstate] at h
    · exact hr
  | disconnecting =>
    dsimp only
    split
    · simp only [notifyDisconnect, hstate]
      exact hr.reset (hr.unqueued (by simp [hstate]) (by simp [hstate]))
    · exact hr
  | disconnected | connecting | connectionPending | connectionSucceeded | connected
  | acknowledgingDisconnect | zombie => exact hr

theorem Host.Ready.handleVerifyConnect (hr : h.Ready) (p : ℕ) (accepted : Bool) :
    (handleVerifyConnect h p accepted).1.Ready := by
  unfold Enet.handleVerifyConnect
  split
  · exact hr
  rename_i hstate
  have hstate : (h.peers p).state = .connecting := by simpa using hstate
  have hout := hr.unqueued (p := p) (by simp [hstate]) (by simp [hstate])
  have hinside := hr.inside p (by simp [hstate])
  split
  · refine hr.changeState hout (by decide) (fun hmem => ?_) fun _ => hinside
    rcases (hr.peer p).farewell hmem with h | h <;> simp [hstate] at h
  · exact hr.dispatchState hout hinside

theorem Host.Ready.handleCommand (hr : h.Ready) (p : ℕ) (acknowledged : Bool)
    (command : Command α) : (handleCommand h p acknowledged command).1.Ready := by
  cases command with
  | acknowledge inTime number => exact hr.handleAcknowledge p inTime number
  | verifyConnect accepted => exact hr.handleVerifyConnect p accepted
  | disconnect => exact hr.handleDisconnect p acknowledged
  | ping => exact hr
  | send arrived =>
    rw [Enet.handleCommand]
    split
    · rename_i hstate
      exact hr.handleSend hstate arrived
    · exact hr

theorem Host.Ready.handleCommands (hr : h.Ready) (sentTime : Bool) (p : ℕ)
    (commands : List (Command α × Bool)) (e : Option (HostEvent α)) :
    (handleCommands sentTime p commands h e).1.Ready := by
  induction commands generalizing h e with
  | nil => exact hr
  | cons head rest ih =>
    obtain ⟨command, acknowledged⟩ := head
    have hafter := hr.handleCommand p acknowledged command
    have hack : (Enet.acknowledge (Enet.handleCommand h p acknowledged command).1 p
        command.number).Ready := by
      refine hafter.acknowledge p fun hnumber => ?_
      cases command with
      | disconnect => exact handleDisconnect_state h p acknowledged
      | acknowledge | verifyConnect | ping | send => cases hnumber
    simp only [Enet.handleCommands]
    split
    · exact hafter
    split
    · exact ih hafter _
    split
    · exact ih hack _
    · exact hafter

theorem Host.Ready.handleIncomingCommands (hr : h.Ready) (datagram : Datagram α) :
    (handleIncomingCommands h datagram).1.Ready := by
  cases datagram with
  | ofPeer peerID sentTime commands =>
    rw [Enet.handleIncomingCommands]
    split
    · exact hr
    split
    · exact hr
    · exact hr.handleCommands sentTime peerID commands none
  | connect accepted acknowledged sentTime commands =>
    rw [Enet.handleIncomingCommands]
    cases hconnect : handleConnect h accepted with
    | none => exact hr
    | some r =>
      obtain ⟨h', p⟩ := r
      have hopened : h'.Ready := by
        obtain ⟨hfree, hinside, rfl⟩ := handleConnect_cases hconnect
        refine hr.changeState (hr.unqueued (by simp [hfree]) (by simp [hfree])) (by decide)
          (fun hmem => ?_) fun _ => hinside
        rcases (hr.peer p).farewell hmem with h | h <;> simp [hfree] at h
      dsimp only
      split
      · exact hopened
      · exact hopened.handleCommands sentTime p commands none

theorem Host.Ready.receiveIncomingCommands (hr : h.Ready) (datagrams : List (Datagram α)) :
    (receiveIncomingCommands datagrams h).1.Ready := by
  induction datagrams generalizing h with
  | nil => exact hr
  | cons datagram rest ih =>
    have hfirst := hr.handleIncomingCommands datagram
    unfold Enet.receiveIncomingCommands
    split
    · rename_i heq
      rw [heq] at hfirst
      exact hfirst
    · rename_i heq
      rw [heq] at hfirst
      exact ih hfirst

/-! ## What goes out -/

theorem Host.Sound.trim (hs : h.Sound) (p : ℕ) {acknowledgements : List CommandNumber}
    (hsub : acknowledgements ⊆ (h.peers p).acknowledgements) :
    (h.set p { h.peers p with acknowledgements }).Sound := by
  have hx := hs.peer p
  refine hs.set ⟨hx.marked, fun hqueued => (hx.stale hqueued).imp_right fun ⟨hstate, hnone⟩ =>
    ⟨hstate, ?_⟩, fun hmem => hx.farewell (hsub hmem), hx.passing⟩ (hs.inside p)
  rw [hnone] at hsub
  exact List.subset_nil.mp hsub

theorem Host.Sound.unmarked_of_state (hs : h.Sound) (hconnected : (h.peers p).state ≠ .connected)
    (hzombie : (h.peers p).state ≠ .zombie) : (h.peers p).needsDispatch = false := by
  cases hmark : (h.peers p).needsDispatch with
  | false => rfl
  | true => exact (((hs.peer p).marked hmark).2.elim hconnected hzombie).elim

/-- Only a peer that is free or on its way out of here may be in the queue without a mark. -/
theorem Host.Sound.unqueued (hs : h.Sound) (hmark : (h.peers p).needsDispatch = false)
    (hfree : (h.peers p).state ≠ .disconnected) (hmade : (h.peers p).state ≠ .connecting) :
    p ∉ h.dispatchQueue := by
  intro hqueued
  rcases (hs.peer p).stale hqueued with hyes | ⟨hstate, -⟩
  · rw [hmark] at hyes
    cases hyes
  · exact hstate.elim hfree hmade

theorem Host.Sound.sendAcknowledgements (hs : h.Sound) (hzombie : (h.peers p).state ≠ .zombie)
    (room : ℕ) : (sendAcknowledgements room h p).Sound := by
  unfold Enet.sendAcknowledgements
  dsimp only
  split
  · rename_i hmem
    have hstate := ((hs.peer p).farewell (List.mem_of_mem_take hmem)).resolve_right hzombie
    have hout := hs.unqueued (hs.unmarked_of_state (by simp [hstate]) hzombie) (by simp [hstate])
      (by simp [hstate])
    have hdispatched := hs.dispatchState hout (hs.inside p (by simp [hstate]))
    refine hdispatched.trim p ?_
    simpa [Enet.dispatchState, Enet.changeState] using List.drop_subset _ _
  · exact hs.trim p (List.drop_subset _ _)

theorem Host.Ready.trim (hr : h.Ready) (p : ℕ) {acknowledgements : List CommandNumber}
    (hsub : acknowledgements ⊆ (h.peers p).acknowledgements) :
    (h.set p { h.peers p with acknowledgements }).Ready where
  toSound := hr.toSound.trim p hsub
  clean q hq := by
    by_cases hqp : q = p
    · subst hqp
      simpa using hr.clean q hq
    · simpa [Function.update_of_ne hqp] using hr.clean q hq

theorem Host.Ready.sendAcknowledgements (hr : h.Ready) (hzombie : (h.peers p).state ≠ .zombie)
    (room : ℕ) : (sendAcknowledgements room h p).Ready := by
  unfold Enet.sendAcknowledgements
  dsimp only
  split
  · rename_i hmem
    have hstate := ((hr.peer p).farewell (List.mem_of_mem_take hmem)).resolve_right hzombie
    have hdispatched := hr.dispatchState (hr.unqueued (by simp [hstate]) hzombie)
      (hr.inside p (by simp [hstate]))
    refine hdispatched.trim p ?_
    simpa [Enet.dispatchState, Enet.changeState] using List.drop_subset _ _
  · exact hr.trim p (List.drop_subset _ _)

theorem Host.Sound.notifyDisconnect (hs : h.Sound) (p : ℕ) : (notifyDisconnect h p).1.Sound := by
  unfold Enet.notifyDisconnect
  split <;> exact hs.reset p

/-- A reset without an event is that of an incoming connection, which never was in the queue. -/
theorem Host.Ready.notifyDisconnect (hr : h.Ready) (p : ℕ)
    (hsilent : (notifyDisconnect h p).2 = none) : (notifyDisconnect h p).1.Ready := by
  unfold Enet.notifyDisconnect at hsilent ⊢
  cases hstate : (h.peers p).state with
  | disconnected | acknowledgingConnect | connectionPending =>
    exact hr.reset (hr.unqueued (by simp [hstate]) (by simp [hstate]))
  | connecting | connectionSucceeded | connected | disconnecting | acknowledgingDisconnect
  | zombie => simp [hstate] at hsilent

theorem Host.Sound.sendOutgoingCommands (hs : h.Sound) (turns : List Turn) :
    (sendOutgoingCommands turns h).1.Sound := by
  induction turns generalizing h with
  | nil => exact hs
  | cons turn rest ih =>
    unfold Enet.sendOutgoingCommands
    split
    · exact ih hs
    rename_i hlive
    have hsent := hs.sendAcknowledgements (fun hz => hlive (.inr hz)) turn.room
    dsimp only
    split
    · have hgone := hsent.notifyDisconnect turn.peer
      split
      · rename_i heq
        rw [heq] at hgone
        exact hgone
      · rename_i heq
        rw [heq] at hgone
        exact ih hgone
    · exact ih hsent

theorem Host.Ready.sendOutgoingCommands (hr : h.Ready) {turns : List Turn}
    (hsilent : (sendOutgoingCommands turns h).2 = none) :
    (sendOutgoingCommands turns h).1.Ready := by
  induction turns generalizing h with
  | nil => exact hr
  | cons turn rest ih =>
    unfold Enet.sendOutgoingCommands at hsilent ⊢
    split at hsilent
    · rename_i hgone
      rw [if_pos hgone]
      exact ih hr hsilent
    rename_i hlive
    rw [if_neg hlive]
    have hsent := hr.sendAcknowledgements (fun hz => hlive (.inr hz)) turn.room
    dsimp only at hsilent ⊢
    split at hsilent
    · rename_i htimeout
      rw [if_pos htimeout]
      have hgone := hsent.notifyDisconnect turn.peer
      split at hsilent
      · cases hsilent
      · rename_i heq
        rw [heq] at hgone
        exact ih (hgone rfl) hsilent
    · rename_i htimeout
      rw [if_neg htimeout]
      exact ih hsent hsilent

/-! ## The dispatch -/

theorem Host.Sound.pop (hs : h.Sound) {rest : List ℕ} (hqueue : h.dispatchQueue = p :: rest) :
    (h.pop p rest).Sound ∧ p ∉ rest := by
  have hnodup := hs.nodup
  rw [hqueue] at hnodup
  obtain ⟨hout, hrest⟩ := List.nodup_cons.mp hnodup
  refine ⟨⟨hs.whole, hrest, fun q => ?_, fun q hq => hs.inside q (by simpa using hq)⟩, hout⟩
  have hx := hs.peer q
  by_cases hqp : q = p
  · subst hqp
    simp only [Host.pop, Host.set, Function.update_self]
    exact ⟨(fun h => by cases h), fun hqueued => absurd hqueued hout, hx.farewell, hx.passing⟩
  · rw [hqueue] at hx
    simpa [Host.pop, Function.update_of_ne hqp, hqp] using hx

/-- The loop takes the peers out one by one; without an event there is none left. -/
theorem Host.Sound.dispatchFrom {queue : List ℕ} (hs : h.Sound) (hqueue : h.dispatchQueue = queue) :
    (dispatchFrom queue h).1.Sound ∧
      ((dispatchFrom queue h).2 = none → (dispatchFrom queue h).1.dispatchQueue = []) := by
  induction queue generalizing h with
  | nil =>
    have hsame : ({ h with dispatchQueue := [] } : Host α) = h := by rw [← hqueue]
    exact ⟨hsame ▸ hs, fun _ => rfl⟩
  | cons p rest ih =>
    obtain ⟨hpop, hout⟩ := hs.pop hqueue
    have hx := hpop.peer p
    rw [Enet.dispatchFrom]
    cases hstate : ((h.pop p rest).peers p).state with
    | connectionPending => exact absurd hstate hx.passing.1
    | connectionSucceeded => exact absurd hstate hx.passing.2
    | zombie => exact ⟨hpop.reset p, nofun⟩
    | disconnected | connecting | acknowledgingConnect | disconnecting
    | acknowledgingDisconnect => exact ih hpop rfl
    | connected =>
      dsimp only
      cases hpackets : ((h.pop p rest).peers p).dispatchedCommands with
      | nil => exact ih hpop rfl
      | cons packet more =>
        have htaken := hpop.set (x := { (h.pop p rest).peers p with dispatchedCommands := more })
          ⟨hx.marked, hx.stale, hx.farewell, hx.passing⟩ (hpop.inside p)
        refine ⟨?_, nofun⟩
        dsimp only
        split
        · exact htaken
        · exact htaken.enqueue (fun hqueued => absurd hqueued hout) (.inl (by simpa using hstate))

/-! ## Whole runs -/

theorem Host.Ready.of_empty (hs : h.Sound) (hempty : h.dispatchQueue = []) : h.Ready :=
  ⟨hs, fun q hq => by
    rw [hempty] at hq
    cases hq⟩

theorem Host.Ready.run (hr : h.Ready) (phase : Phase α) : (phase.run h).1.Sound ∧
    ((phase.run h).2 = none → (phase.run h).1.Ready) := by
  cases phase with
  | sendOutgoing turns => exact ⟨hr.toSound.sendOutgoingCommands turns, hr.sendOutgoingCommands⟩
  | receiveIncoming datagrams =>
    have hreceived := hr.receiveIncomingCommands datagrams
    exact ⟨hreceived.toSound, fun _ => hreceived⟩
  | dispatchIncoming =>
    obtain ⟨hsound, hempty⟩ := hr.toSound.dispatchFrom rfl
    exact ⟨hsound, fun hsilent => .of_empty hsound (hempty hsilent)⟩

theorem Host.Ready.servicePhases (hr : h.Ready) (phases : List (Phase α)) :
    (servicePhases phases h).1.Sound := by
  induction phases generalizing h with
  | nil => exact hr.toSound
  | cons phase rest ih =>
    obtain ⟨hsound, hready⟩ := hr.run phase
    rw [Enet.servicePhases]
    split
    · rename_i heq
      rw [heq] at hsound
      exact hsound
    · rename_i heq
      rw [heq] at hready
      exact ih (hready rfl)

theorem Host.Sound.hostService (hs : h.Sound) (phases : List (Phase α)) :
    (hostService h phases).1.Sound := by
  obtain ⟨hsound, hempty⟩ := hs.dispatchFrom rfl
  rw [Enet.hostService, dispatchIncomingCommands]
  split
  · rename_i heq
    rw [heq] at hsound
    exact hsound
  · rename_i heq
    rw [heq] at hsound hempty
    exact (Host.Ready.of_empty hsound (hempty rfl)).servicePhases phases

theorem Host.Sound.hostConnect (hs : h.Sound) (hconnect : hostConnect h = some (h', p)) :
    h'.Sound := by
  obtain ⟨hfree, hinside, rfl⟩ := hostConnect_cases hconnect
  have hx := hs.peer p
  have hmark := hs.unmarked_of_state (p := p) (by simp [hfree]) (by simp [hfree])
  refine hs.set ⟨fun hyes => ?_, fun hqueued => ?_, fun hmem => ?_, nofun, nofun⟩ fun _ => hinside
  · simp [hmark] at hyes
  · exact .inr ⟨.inr rfl, ((hx.stale hqueued).resolve_left (by simp [hmark])).2⟩
  · rcases hx.farewell hmem with hstate | hstate <;> simp [hfree] at hstate

theorem Host.Sound.peerDisconnect (hs : h.Sound) (p : ℕ) (turns : List Turn) :
    (peerDisconnect h p turns).Sound := by
  have hqueues := hs.resetQueues p
  unfold Enet.peerDisconnect
  cases hstate : (h.peers p).state with
  | disconnecting | disconnected | acknowledgingDisconnect | zombie => exact hs
  | connected =>
    have hout := hqueues.unqueued (p := p) (by simp [peerResetQueues]) (by simp [hstate])
      (by simp [hstate])
    refine hqueues.changeState hout (by decide) (fun hmem => ?_) fun _ =>
      hs.inside p (by simp [hstate])
    simp [peerResetQueues] at hmem
  | connecting | acknowledgingConnect | connectionPending | connectionSucceeded =>
    exact (hqueues.sendOutgoingCommands _).reset p

theorem hostCreate_sound (peerCount : ℕ) : (hostCreate peerCount : Host α).Sound :=
  ⟨rfl, List.nodup_nil, fun _ => .reset _, fun _ hstate => absurd rfl hstate⟩

/-- What the owner of a host may do with it, at any time. -/
inductive Uses (h : Host α) : Host α → Prop where
  | service (phases : List (Phase α)) : Uses h (hostService h phases).1
  | connect {h' : Host α} {p : ℕ} (hconnect : hostConnect h = some (h', p)) : Uses h h'
  | disconnect (p : ℕ) (turns : List Turn) : Uses h (peerDisconnect h p turns)
  | reset (p : ℕ) : Uses h (peerReset h p)
  | flush (turns : List Turn) : Uses h (hostFlush turns h)

/-- However a host is used and whatever it receives, no peer is ever put in the dispatch queue
that is in it, although a reset peer may stay there without its mark; every marked peer is in
it. -/
theorem dispatch_queue_whole {peerCount : ℕ}
    (hrun : Relation.ReflTransGen Uses (hostCreate peerCount) h) :
    h.broken = false ∧ h.dispatchQueue.Nodup ∧ ∀ p,
      ((h.peers p).needsDispatch = true → p ∈ h.dispatchQueue) ∧
      (p ∈ h.dispatchQueue → (h.peers p).needsDispatch = false →
        (h.peers p).state = .disconnected ∨ (h.peers p).state = .connecting) := by
  have hsound : h.Sound := by
    induction hrun with
    | refl => exact hostCreate_sound peerCount
    | tail _ huse ih =>
      cases huse with
      | service phases => exact ih.hostService phases
      | connect hconnect => exact ih.hostConnect hconnect
      | disconnect p turns => exact ih.peerDisconnect p turns
      | reset p => exact ih.reset p
      | flush turns => exact ih.sendOutgoingCommands _
  refine ⟨hsound.whole, hsound.nodup, fun p => ⟨fun hmark => ((hsound.peer p).marked hmark).1,
    fun hqueued hmark => ?_⟩⟩
  exact (((hsound.peer p).stale hqueued).resolve_left (by simp [hmark])).1

/-- A player comes, sends two packets and is taken one of them. -/
def stranded : Host ℕ :=
  let greeted := (hostService (hostCreate 1) [.receiveIncoming
    [.connect true true true [], .ofPeer 0 true [(.acknowledge true .verifyConnect, false)]]]).1
  (hostService greeted [.receiveIncoming
    [.ofPeer 0 true [(.send [⟨.reliable, 1, 7⟩, ⟨.reliable, 1, 8⟩], true)]], .dispatchIncoming]).1

/-- It is reset with the other one waiting, and stays in the queue without its mark. -/
theorem dispatch_queue_whole_stranded :
    (peerReset stranded 0).dispatchQueue = [0] ∧
      ((peerReset stranded 0).peers 0).needsDispatch = false ∧
      (peerReset stranded 0).broken = false := by
  have hrun : Relation.ReflTransGen Uses (hostCreate 1) (peerReset stranded 0) :=
    ((Relation.ReflTransGen.single (.service _)).tail (.service _)).tail (.reset 0)
  exact ⟨rfl, rfl, (dispatch_queue_whole hrun).1⟩

end Fnvmp.Enet
