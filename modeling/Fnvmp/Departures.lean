import Fnvmp.Roster

/-!
# Departures are announced exactly once

The host delivers, for each peer pointer, a CONNECT, packets, and one DISCONNECT
before the pointer is used again. Under that order every run of the server keeps an
orderly membership log, whichever of its removal paths each player takes.
-/

namespace Fnvmp.Server

open PackedCodec Protocol Membership

/-- The order of host events on every peer pointer; `live` marks the open ones. -/
def HostOrder (live : Peer → Bool) : List Event → Prop
  | [] => True
  | .connect p _ :: es => live p = false ∧ HostOrder (Function.update live p true) es
  | .receive p _ _ :: es => live p = true ∧ HostOrder live es
  | .disconnect p :: es => live p = true ∧ HostOrder (Function.update live p false) es
  | .checkTimeouts _ :: es => HostOrder live es
  | .broadcast _ :: es => HostOrder live es

instance decidableHostOrder :
    ∀ (live : Peer → Bool) (es : List Event), Decidable (HostOrder live es)
  | _, [] => inferInstanceAs (Decidable True)
  | live, .connect p _ :: es =>
    have := decidableHostOrder (Function.update live p true) es
    inferInstanceAs (Decidable (_ ∧ _))
  | live, .receive _ _ _ :: es =>
    have := decidableHostOrder live es
    inferInstanceAs (Decidable (_ ∧ _))
  | live, .disconnect p :: es =>
    have := decidableHostOrder (Function.update live p false) es
    inferInstanceAs (Decidable (_ ∧ _))
  | live, .checkTimeouts _ :: es => decidableHostOrder live es
  | live, .broadcast _ :: es => decidableHostOrder live es

def connects : List Event → Nat
  | [] => 0
  | .connect _ _ :: es => connects es + 1
  | _ :: es => connects es

/-- What holds between two events: the table follows the log, ids were handed out in
counting order, and only open pointers are seated. -/
structure Session (s : State) (live : Peer → Bool) (log : List (Entry Peer UInt32)) : Prop where
  tracks : Tracks s.players log
  counter : s.nextEntityId.toNat = (joined log).length + 1
  ids : ∀ i ∈ joined log, 0 < i.toNat ∧ i.toNat < s.nextEntityId.toNat
  seated : ∀ q, q ∈ s.players.keys → live q = true

theorem session_start (now : ℚ) : Session (start now) (fun _ => false) [] where
  tracks := ⟨.nil, rfl⟩
  counter := rfl
  ids := by simp
  seated := by
    intro q hq
    simp [start, OrderedMap.mem_keys] at hq

/-- Steps that seat nobody keep the ids and at most free pointers. -/
theorem Session.moves {s s' : State} {live live' : Peer → Bool}
    {log es : List (Entry Peer UInt32)} (h : Session s live log)
    (hmoves : Moves s.players es s'.players) (hnext : s'.nextEntityId = s.nextEntityId)
    (hlive : ∀ q ∈ s'.players.keys, live q = true → live' q = true) :
    Session s' live' (log ++ es) where
  tracks := hmoves.tracks h.tracks
  counter := by rw [hnext, joined_still log es hmoves.no_join, h.counter]
  ids := by rw [hnext, joined_still log es hmoves.no_join]; exact h.ids
  seated := fun q hq => hlive q hq (h.seated q (hmoves.shrinks q hq))

/-- What a new player is seated as. -/
def newcomer (now : ℚ) (s : State) : PlayerInfo :=
  { netEntityId := s.nextEntityId, lastHeartbeat := now }

theorem handleConnect_players (now : ℚ) (p : Peer) (s : State) :
    (handleConnect now p s).1.players = s.players.insert p (newcomer now s) := rfl

/-- A CONNECT is logged as one join and mentions of the newcomer. -/
theorem handleConnect_entries (now : ℚ) (p : Peer) (s : State) :
    ∃ es, entries (handleConnect now p s).2 = .join p s.nextEntityId :: es ∧
      ∀ e ∈ es, ∃ q, e = .mention q s.nextEntityId := by
  refine ⟨entries (broadcastPlayerConnect (s.players.insert p (newcomer now s))
    s.nextEntityId p), ?_, ?_⟩
  · simp [handleConnect, Action.entries, entries_sendConnectAck, newcomer]
  · intro e he
    rw [entries_playerConnect, List.mem_map] at he
    obtain ⟨q, -, rfl⟩ := he
    exact ⟨q, rfl⟩

theorem handleConnect_joined (log : List (Entry Peer UInt32)) (now : ℚ) (p : Peer) (s : State) :
    joined (log ++ entries (handleConnect now p s).2) = joined log ++ [s.nextEntityId] := by
  obtain ⟨es, hes, hmentions⟩ := handleConnect_entries now p s
  rw [hes, List.append_cons, joined_still _ _ fun e he q i hj => ?_, joined_append]
  · rfl
  · obtain ⟨r, rfl⟩ := hmentions e he
    cases hj

theorem handleConnect_tracks {s : State} {log : List (Entry Peer UInt32)}
    (h : Tracks s.players log) (now : ℚ) {p : Peer} (hfree : s.players.find? p = none)
    (hfresh : s.nextEntityId ∉ joined log) :
    Tracks (handleConnect now p s).1.players (log ++ entries (handleConnect now p s).2) := by
  have hjoin : Tracks (s.players.insert p (newcomer now s)) (log ++ [.join p s.nextEntityId]) := by
    refine ⟨h.run.snoc (.join p _ ?_ hfresh), ?_⟩
    · rw [h.seats]
      simp [idsOf, hfree]
    · rw [members_join, h.seats, idsOf_insert]
      rfl
  obtain ⟨es, hes, hmentions⟩ := handleConnect_entries now p s
  rw [hes, List.append_cons, handleConnect_players]
  refine hjoin.quiet fun e he => ?_
  obtain ⟨q, rfl⟩ := hmentions e he
  exact ⟨q, p, newcomer now s, rfl, OrderedMap.find?_insert_self _ _ _⟩

/-- A CONNECT on a pointer that is not open seats the next id. -/
theorem Session.connect {s : State} {live : Peer → Bool} {log : List (Entry Peer UInt32)}
    (h : Session s live log) (p : Peer) (now : ℚ) (hlive : live p = false)
    (hroom : (joined log).length + 2 < 2 ^ 32) :
    Session (handleConnect now p s).1 (Function.update live p true)
      (log ++ entries (handleConnect now p s).2) := by
  have hfree : s.players.find? p = none := by
    rw [← Option.not_isSome_iff_eq_none, ← OrderedMap.mem_keys]
    intro hmem
    rw [h.seated p hmem] at hlive
    cases hlive
  have hfresh : s.nextEntityId ∉ joined log := fun hmem =>
    absurd (h.ids _ hmem).2 (lt_irrefl _)
  have hnext : (handleConnect now p s).1.nextEntityId.toNat = s.nextEntityId.toNat + 1 := by
    have hlt : s.nextEntityId.toNat + 1 < 2 ^ 32 := by rw [h.counter]; omega
    change (s.nextEntityId + 1).toNat = _
    rw [UInt32.toNat_add]
    exact Nat.mod_eq_of_lt hlt
  constructor
  · exact handleConnect_tracks h.tracks now hfree hfresh
  · rw [hnext, h.counter, handleConnect_joined, List.length_append]
    rfl
  · intro i hi
    rw [handleConnect_joined, List.mem_append] at hi
    rw [hnext]
    rcases hi with hi | hi
    · have := h.ids i hi
      omega
    · rw [List.mem_singleton.mp hi, h.counter]
      omega
  · intro q hq
    rw [handleConnect_players, OrderedMap.mem_keys, OrderedMap.find?_insert] at hq
    by_cases hqp : q = p
    · rw [hqp, Function.update_self]
    · rw [if_neg hqp, ← OrderedMap.mem_keys] at hq
      rw [Function.update_of_ne hqp]
      exact h.seated q hq

/-- After a DISCONNECT its pointer is not in the table. -/
theorem handlePeerGone_absent (p : Peer) (players : Players) :
    p ∉ (handlePeerGone p players).1.keys := by
  rw [OrderedMap.mem_keys, Option.not_isSome_iff_eq_none, handlePeerGone]
  split
  · rename_i hnone
    exact hnone
  · exact OrderedMap.find?_erase_self _ _

/-- The session, the host's order from here on, and room for the joins to come. -/
def Ongoing (s : State) (es : List Event) (acts : List Action) : Prop :=
  ∃ live, Session s live (entries acts) ∧ HostOrder live es ∧
    (joined (entries acts)).length + connects es + 1 < 2 ^ 32

theorem step_ongoing {s s' : State} {e : Event} {es : List Event} {acts out : List Action}
    (h : Ongoing s (e :: es) acts) (hs : step s e = some (s', out)) :
    Ongoing s' es (acts ++ out) := by
  obtain ⟨live, h, horder, hroom⟩ := h
  rw [Ongoing, entries_append]
  have other : ∀ live', (∀ p now, e ≠ .connect p now) →
      (∀ q ∈ s'.players.keys, live q = true → live' q = true) → HostOrder live' es →
      connects (e :: es) = connects es →
      ∃ live, Session s' live (entries acts ++ entries out) ∧ HostOrder live es ∧
        (joined (entries acts ++ entries out)).length + connects es + 1 < 2 ^ 32 := by
    intro live' hne hlive horder' hcount
    obtain ⟨hmoves, hnext⟩ := step_moves hne hs
    refine ⟨live', h.moves hmoves hnext hlive, horder', ?_⟩
    rw [joined_still _ _ hmoves.no_join, ← hcount]
    exact hroom
  cases e with
  | connect p now =>
    cases hs
    obtain ⟨hlive, horder'⟩ := horder
    simp only [connects] at hroom
    refine ⟨_, h.connect p now hlive (by omega), horder', ?_⟩
    change (joined (entries acts ++ entries (handleConnect now p s).2)).length + _ + 1 < _
    rw [handleConnect_joined, List.length_append, List.length_singleton]
    omega
  | receive p data now => exact other live (by simp) (fun _ _ hq => hq) horder.2 rfl
  | disconnect p =>
    cases hs
    refine other (Function.update live p false) (by simp) ?_ horder.2 rfl
    intro q hq hlive
    have hne : q ≠ p := fun heq => handlePeerGone_absent p s.players (heq ▸ hq)
    rw [Function.update_of_ne hne]
    exact hlive
  | checkTimeouts now => exact other live (by simp) (fun _ _ hq => hq) horder rfl
  | broadcast now => exact other live (by simp) (fun _ _ hq => hq) horder rfl

/-- In every run of the server the session goes on. -/
theorem run_session (now : ℚ) {es : List Event} {s : State} {acts : List Action}
    (horder : HostOrder (fun _ => false) es) (hconnects : connects es < 2 ^ 32 - 1)
    (hrun : run (start now) es = some (s, acts)) : ∃ live, Session s live (entries acts) := by
  have hstart : Ongoing (start now) es [] := by
    refine ⟨_, session_start now, horder, ?_⟩
    simp only [entries_nil, joined_nil, List.length_nil]
    omega
  obtain ⟨live, h, -⟩ := EventRun.exec_rule Ongoing []
    (fun _ _ _ _ _ _ h hs => step_ongoing h hs) hstart hrun
  exact ⟨live, h⟩

/-- In every run of the server the assigned ids are non-zero and distinct, a pointer is
free when it is assigned one, whoever is no longer in the table has left it, and each
player that leaves, on whichever path, is announced exactly once to exactly the other
players registered then and is mentioned to nobody afterwards. -/
theorem departures_announced_once (now : ℚ) (es : List Event) (s : State) (acts : List Action)
    (horder : HostOrder (fun _ => false) es) (hconnects : connects es < 2 ^ 32 - 1)
    (hrun : run (start now) es = some (s, acts)) :
    (joined (entries acts)).Nodup ∧ 0 ∉ joined (entries acts) ∧
    members (entries acts) = idsOf s.players ∧
    (∀ before p k after, entries acts = before ++ .join p k :: after → members before p = none) ∧
    (∀ p k, .join p k ∈ entries acts → idsOf s.players p = some k ∨ .leave p k ∈ entries acts) ∧
    ∀ before p k after, entries acts = before ++ .leave p k :: after →
      (∀ q, (entries acts).count (.farewell q k) =
        if q ≠ p ∧ (members before q).isSome then 1 else 0) ∧
      ∀ q, .mention q k ∉ after := by
  obtain ⟨live, h⟩ := run_session now horder hconnects hrun
  have horderly := h.tracks.run.orderly
  refine ⟨horderly.fresh, ?_, h.tracks.seats, horderly.seat_free, ?_, horderly.departure⟩
  · intro hzero
    exact absurd (h.ids 0 hzero).1 (by decide)
  · rw [← h.tracks.seats]
    exact horderly.accounted

/-- Three players, one of whom says goodbye before its host event arrives: the two that stay
are each told once. -/
theorem departures_announced_once_goodbye :
    ∃ s acts, run (start 0) [.connect 1 0, .connect 2 0, .connect 3 0, .receive 1 [3] 1,
        .disconnect 1] = some (s, acts) ∧
      (joined (entries acts)).Nodup ∧ 0 ∉ joined (entries acts) ∧
      members (entries acts) = idsOf s.players ∧
      (∀ before p k after, entries acts = before ++ .join p k :: after →
        members before p = none) ∧
      (∀ p k, .join p k ∈ entries acts → idsOf s.players p = some k ∨ .leave p k ∈ entries acts) ∧
      (∀ before p k after, entries acts = before ++ .leave p k :: after →
        (∀ q, (entries acts).count (.farewell q k) =
          if q ≠ p ∧ (members before q).isSome then 1 else 0) ∧
        ∀ q, .mention q k ∉ after) ∧
      (entries acts).count (.farewell 2 1) = 1 ∧ (entries acts).count (.farewell 3 1) = 1 ∧
      .leave 1 1 ∈ entries acts := by
  obtain ⟨⟨s, acts⟩, hrun, hlog⟩ := Option.map_eq_some_iff.mp
    (show (run (start 0) [.connect 1 0, .connect 2 0, .connect 3 0, .receive 1 [3] 1,
        .disconnect 1]).map (fun r => ((entries r.2).count (.farewell 2 1),
          (entries r.2).count (.farewell 3 1), decide (.leave 1 1 ∈ entries r.2))) =
        some (1, 1, true) from by decide +kernel)
  obtain ⟨h2, hlog⟩ := Prod.mk.inj hlog
  obtain ⟨h3, hleave⟩ := Prod.mk.inj hlog
  obtain ⟨hnodup, hzero, hseats, hfree, hgone, hdeparture⟩ :=
    departures_announced_once 0 _ s acts (by simp [HostOrder]) (by decide) hrun
  exact ⟨s, acts, hrun, hnodup, hzero, hseats, hfree, hgone, hdeparture, h2, h3,
    of_decide_eq_true hleave⟩

end Fnvmp.Server
