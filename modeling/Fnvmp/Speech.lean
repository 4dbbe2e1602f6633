import Fnvmp.SnapshotPacket
import Fnvmp.Isolation

/-!
# What the server says

Every packet of the server is one of five: a ConnectAck, three announcements under one id,
and a world snapshot made of what the table holds.
-/

namespace Fnvmp.Server

open PackedCodec Protocol

/-- A packet the server can send while it takes an event, with its channel. -/
inductive Says (players : Players) (e : Event) : Channel → List UInt8 → Prop where
  | ack (id : UInt32) : Says players e .system (msgEntity.encode ⟨MessageType.connectAck.code, id⟩)
  | joined (id : UInt32) :
      Says players e .gameEvents (msgEntity.encode ⟨MessageType.playerConnect.code, id⟩)
  | left (id : UInt32) :
      Says players e .gameEvents (msgEntity.encode ⟨MessageType.playerDisconnect.code, id⟩)
  | fire {p : Peer} {data : List UInt8} {now : ℚ} (id : UInt32) (he : e = .receive p data now)
      (ht : packetType data = some .playerFire) :
      Says players e .gameEvents (msgEntity.encode ⟨MessageType.remoteFire.code, id⟩)
  | world {states : List EntityState} (hfit : states.length ≤ maxPlayers)
      (hheld : ∀ es ∈ states, ∃ p info, players.find? p = some info ∧ info.hasSnapshot = true ∧
        es = info.entityState) : Says players e .unreliable (encodeWorld states)

/-- An action that sends nothing, or one of these packets. -/
def Speaks (players : Players) (e : Event) (act : Action) : Prop :=
  ∀ q channel data flag, act = .send q channel data flag → Says players e channel data

theorem speaks_broadcastEntity {players : Players} {e : Event} {t : MessageType} {id : UInt32}
    (h : Says players e .gameEvents (msgEntity.encode ⟨t.code, id⟩)) (table : Players)
    (exclude : Peer) : ∀ act ∈ broadcastEntity t table id exclude, Speaks players e act := by
  rintro act hact q channel data flag rfl
  obtain ⟨r, -, hr⟩ := List.mem_map.mp hact
  cases hr
  exact h

theorem speaks_checkTimeoutsFrom (players : Players) (e : Event) (now : ℚ) (keys : List Peer)
    (table : Players) : ∀ act ∈ (checkTimeoutsFrom now keys table).2, Speaks players e act := by
  refine checkTimeoutsFrom_rule (fun _ r => ∀ act ∈ r.2, Speaks players e act) (by simp) ?_
    now keys table
  intro table p info r _ hr act hact
  simp only [List.mem_append, List.mem_cons, List.not_mem_nil, or_false] at hact
  rcases hact with (hact | rfl | rfl) | hact
  · exact speaks_broadcastEntity (.left _) _ _ act hact
  · rintro _ _ _ _ ⟨⟩
  · rintro _ _ _ _ ⟨⟩
  · exact hr act hact

theorem speaks_broadcastWorldSnapshots (e : Event) {players : Players} {acts : List Action}
    (hs : broadcastWorldSnapshots players = some acts) : ∀ act ∈ acts, Speaks players e act := by
  rw [broadcastWorldSnapshots_eq] at hs
  split at hs
  · rename_i hfit
    cases hs
    intro act hact
    obtain ⟨r, hr, hact⟩ := List.mem_flatMap.mp hact
    rintro q channel data flag rfl
    unfold packetFor at hact
    split at hact
    · cases hact
    · cases List.mem_singleton.mp hact
      refine .world (hfit r hr) fun es hes => ?_
      obtain ⟨⟨p, info⟩, he, rfl⟩ := List.mem_map.mp hes
      obtain ⟨he, hshown⟩ := List.mem_filter.mp he
      simp only [decide_eq_true_eq] at hshown
      exact ⟨p, info, (players.find?_eq_some p info).mpr he, hshown.2, rfl⟩
  · cases hs

/-- Every packet of a step is one of these. -/
theorem step_speaks {s s' : State} {e : Event} {acts : List Action}
    (hs : step s e = some (s', acts)) : ∀ act ∈ acts, Speaks s.players e act := by
  have quiet : ∀ act, (∀ q channel data flag, act ≠ .send q channel data flag) →
      Speaks s.players e act := fun act hne q channel data flag heq => absurd heq (hne _ _ _ _)
  cases e with
  | connect p now =>
    cases hs
    intro act hact
    simp only [sendConnectAck, List.cons_append, List.nil_append, List.mem_cons] at hact
    rcases hact with rfl | rfl | hact
    · exact quiet _ (by simp)
    · rintro _ _ _ _ ⟨⟩
      exact .ack _
    · exact speaks_broadcastEntity (.joined _) _ _ act hact
  | receive p data now =>
    obtain ⟨players', hr, rfl⟩ := step_receive hs
    intro act hact
    cases handleReceive_cases hr with
    | refused _ => cases hact
    | heartbeat _ _ => cases hact
    | snapshot _ _ _ _ => cases hact
    | disconnect _ _ =>
      simp only [List.mem_append, List.mem_cons, List.not_mem_nil, or_false] at hact
      rcases hact with hact | rfl | rfl
      · exact speaks_broadcastEntity (.left _) _ _ act hact
      · exact quiet _ (by simp)
      · exact quiet _ (by simp)
    | fire ht _ _ _ => exact speaks_broadcastEntity (.fire _ rfl ht) _ _ act hact
  | disconnect p =>
    cases hs
    intro act hact
    simp only [handlePeerGone] at hact
    split at hact
    · cases hact
    · rcases List.mem_append.mp hact with hact | hact
      · exact speaks_broadcastEntity (.left _) _ _ act hact
      · rw [List.mem_singleton.mp hact]
        exact quiet _ (by simp)
  | checkTimeouts now =>
    cases hs
    exact speaks_checkTimeoutsFrom s.players _ now s.players.keys s.players
  | broadcast now =>
    obtain ⟨n, accum, rest, hloop, rfl⟩ := step_broadcast hs
    refine broadcastLoop_rule (fun acts => ∀ act ∈ acts, Speaks s.players _ act) (by simp) ?_ n hloop
    intro out acts hout hacts act hact
    exact (List.mem_append.mp hact).elim (speaks_broadcastWorldSnapshots _ hout act) (hacts act)

end Fnvmp.Server
