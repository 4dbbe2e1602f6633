import Fnvmp.SnapshotPacket
import Fnvmp.Isolation
import Fnvmp.Membership

/-!
# The player table as a group with farewell notices

Each server action is read as entries of a membership log: writes of the table as
joins and leaves, packets by what a receiver finds in them. Every step of the server
extends that log by legal group steps, so that all its runs are orderly.
-/

namespace Fnvmp.Server

open PackedCodec Protocol Membership

/-- What one packet tells its receiver about the presence of players. -/
def messageEntries (q : Peer) : ServerMessage → List (Entry Peer UInt32)
  | .playerConnect id => [.mention q id]
  | .remoteFire id => [.mention q id]
  | .worldSnapshot entities => entities.map fun e => .mention q e.netEntityId
  | .playerDisconnect id => [.farewell q id]
  | .connectAck _ => []
  | .disconnect => []

def Action.entries : Action → List (Entry Peer UInt32)
  | .registered p id => [.join p id]
  | .removed p id => [.leave p id]
  | .send q _ data _ => ((ServerMessage.parse data).map (messageEntries q)).getD []
  | .peerDisconnect _ => []

/-- The membership log behind a list of server actions. -/
def entries (acts : List Action) : List (Entry Peer UInt32) := acts.flatMap Action.entries

@[simp] theorem entries_nil : entries [] = [] := rfl

@[simp] theorem entries_cons (a : Action) (acts : List Action) :
    entries (a :: acts) = a.entries ++ entries acts := rfl

@[simp] theorem entries_append (acts acts' : List Action) :
    entries (acts ++ acts') = entries acts ++ entries acts' := by
  simp [entries]

/-- The ids by seat. -/
def idsOf (players : Players) : Peer → Option UInt32 :=
  fun q => (players.find? q).map PlayerInfo.netEntityId

theorem entries_sendConnectAck (peer : Peer) (id : UInt32) :
    entries (sendConnectAck peer id) = [] := by
  have h := ServerMessage.parse_entity .connectAck id (by decide)
  simp [sendConnectAck, Action.entries, h, ServerMessage.ofEntity, messageEntries]

theorem entries_broadcastEntity {t : MessageType} (ht : t ≠ .disconnect ∧ t ≠ .worldSnapshot)
    (players : Players) (id : UInt32) (exclude : Peer) :
    entries (broadcastEntity t players id exclude) =
      (players.keys.filter (fun q => q ≠ exclude)).flatMap fun q =>
        ((ServerMessage.ofEntity t id).map (messageEntries q)).getD [] := by
  simp only [entries, broadcastEntity, List.flatMap_map, Action.entries,
    ServerMessage.parse_entity t id ht]

theorem entries_playerConnect (players : Players) (id : UInt32) (exclude : Peer) :
    entries (broadcastPlayerConnect players id exclude) =
      (players.keys.filter (fun q => q ≠ exclude)).map fun q => .mention q id := by
  simp [broadcastPlayerConnect, entries_broadcastEntity, ServerMessage.ofEntity, messageEntries,
    List.map_eq_flatMap]

theorem entries_relayFire (players : Players) (id : UInt32) (exclude : Peer) :
    entries (relayFire players id exclude) =
      (players.keys.filter (fun q => q ≠ exclude)).map fun q => .mention q id := by
  simp [relayFire, entries_broadcastEntity, ServerMessage.ofEntity, messageEntries,
    List.map_eq_flatMap]

theorem entries_playerDisconnect (players : Players) (id : UInt32) (exclude : Peer) :
    entries (broadcastPlayerDisconnect players id exclude) =
      (players.keys.filter (fun q => q ≠ exclude)).map fun q => .farewell q id := by
  simp [broadcastPlayerDisconnect, entries_broadcastEntity, ServerMessage.ofEntity,
    messageEntries, List.map_eq_flatMap]

theorem idsOf_eq_some {players : Players} {p : Peer} {info : PlayerInfo}
    (h : players.find? p = some info) : idsOf players p = some info.netEntityId := by
  simp [idsOf, h]

theorem idsOf_isSome (players : Players) (q : Peer) :
    (idsOf players q).isSome ↔ q ∈ players.keys := by
  simp [idsOf, OrderedMap.mem_keys]

theorem idsOf_erase (players : Players) (p : Peer) :
    idsOf (players.erase p) = Function.update (idsOf players) p none := by
  funext q
  by_cases hq : q = p <;> simp [idsOf, OrderedMap.find?_erase, hq]

theorem idsOf_insert (players : Players) (p : Peer) (info : PlayerInfo) :
    idsOf (players.insert p info) =
      Function.update (idsOf players) p (some info.netEntityId) := by
  funext q
  by_cases hq : q = p <;> simp [idsOf, OrderedMap.find?_insert, hq]

/-- Writing a table entry without touching its id moves nobody. -/
theorem idsOf_modify (players : Players) (p : Peer) (f : PlayerInfo → PlayerInfo)
    (hf : ∀ info, (f info).netEntityId = info.netEntityId) :
    idsOf (players.modify p f) = idsOf players := by
  funext q
  by_cases hq : q = p
  · subst hq
    cases h : players.find? q <;> simp [idsOf, OrderedMap.find?_modify, h, hf]
  · simp [idsOf, OrderedMap.find?_modify, hq]

/-- The server log so far is a run of the group, seated as in the player table. -/
structure Tracks (players : Players) (log : List (Entry Peer UInt32)) : Prop where
  run : Run log
  seats : members log = idsOf players

/-- One player leaves: everybody else in the table is told, then the entry goes. -/
theorem Tracks.leave {players : Players} {log : List (Entry Peer UInt32)} (h : Tracks players log)
    {p : Peer} {info : PlayerInfo} (hp : players.find? p = some info) :
    Tracks (players.erase p)
      (log ++ (entries (broadcastPlayerDisconnect players info.netEntityId p) ++
        [.leave p info.netEntityId])) := by
  let es : List (Entry Peer UInt32) :=
    entries (broadcastPlayerDisconnect players info.netEntityId p)
  have hes : es = (players.keys.filter (fun q => q ≠ p)).map fun q =>
      .farewell q info.netEntityId := entries_playerDisconnect players info.netEntityId p
  have hmem : members log p = some info.netEntityId := by rw [h.seats, idsOf_eq_some hp]
  have hall : ∀ e ∈ es, ∃ q, e = .farewell q info.netEntityId := by
    intro e he
    rw [hes, List.mem_map] at he
    obtain ⟨q, -, rfl⟩ := he
    exact ⟨q, rfl⟩
  have hcount : ∀ q, es.count (.farewell q info.netEntityId) =
      if q ≠ p ∧ (members log q).isSome then 1 else 0 := by
    intro q
    have hinj : Function.Injective fun q : Peer => Entry.farewell q info.netEntityId := by
      intro a b hab
      cases hab
      rfl
    rw [hes, List.count_map_of_injective _ _ hinj,
      List.Nodup.count (players.keys_nodup.filter _), h.seats]
    simp only [List.mem_filter, decide_eq_true_eq, ← idsOf_isSome players q]
    exact if_congr and_comm rfl rfl
  refine ⟨h.run.snoc (.leave p info.netEntityId es hmem hall hcount), ?_⟩
  have hstill : members (log ++ es) = members log := members_still log es fun e he => by
    obtain ⟨q, rfl⟩ := hall e he
    exact .inr ⟨q, _, rfl⟩
  rw [← List.append_assoc, members_append, hstill, h.seats, idsOf_erase]
  rfl

/-- Mentions of players in the table. -/
theorem Tracks.quiet {players : Players} {log es : List (Entry Peer UInt32)}
    (h : Tracks players log)
    (hes : ∀ e ∈ es, ∃ q p info, e = .mention q info.netEntityId ∧ players.find? p = some info) :
    Tracks players (log ++ es) := by
  have hlegal : ∀ e ∈ es, ∃ q i p, e = .mention q i ∧ members log p = some i := by
    intro e he
    obtain ⟨q, p, info, rfl, hp⟩ := hes e he
    exact ⟨q, info.netEntityId, p, rfl, by rw [h.seats, idsOf_eq_some hp]⟩
  refine ⟨h.run.snoc (.quiet es hlegal), ?_⟩
  rw [members_still log es, h.seats]
  intro e he
  obtain ⟨q, p, info, rfl, -⟩ := hes e he
  exact .inl ⟨q, _, rfl⟩

theorem Tracks.silent {players players' : Players} {log : List (Entry Peer UInt32)}
    (h : Tracks players log) (hids : idsOf players' = idsOf players) : Tracks players' log :=
  ⟨h.run, h.seats.trans hids.symm⟩

/-- All the server does to the table once a player is seated: nothing, mentions of
players in the table, or one announced departure, any number of times. -/
inductive Moves : Players → List (Entry Peer UInt32) → Players → Prop where
  | silent {players players' : Players} (hids : idsOf players' = idsOf players) :
      Moves players [] players'
  | quiet {players : Players} {es : List (Entry Peer UInt32)}
      (hes : ∀ e ∈ es, ∃ q p info,
        e = .mention q info.netEntityId ∧ players.find? p = some info) :
      Moves players es players
  | leave {players : Players} {p : Peer} {info : PlayerInfo} (hp : players.find? p = some info) :
      Moves players (entries (broadcastPlayerDisconnect players info.netEntityId p) ++
        [.leave p info.netEntityId]) (players.erase p)
  | append {a b c : Players} {es es' : List (Entry Peer UInt32)} :
      Moves a es b → Moves b es' c → Moves a (es ++ es') c

theorem Moves.refl (players : Players) : Moves players [] players := .silent rfl

theorem Moves.tracks {a b : Players} {es : List (Entry Peer UInt32)} (h : Moves a es b)
    {log : List (Entry Peer UInt32)} (ht : Tracks a log) : Tracks b (log ++ es) := by
  induction h generalizing log with
  | silent hids => simpa using ht.silent hids
  | quiet hes => exact ht.quiet hes
  | leave hp => exact ht.leave hp
  | append _ _ ih ih' =>
    rw [← List.append_assoc]
    exact ih' (ih ht)

theorem Moves.no_join {a b : Players} {es : List (Entry Peer UInt32)} (h : Moves a es b) :
    ∀ e ∈ es, ∀ p i, e ≠ .join p i := by
  induction h with
  | silent _ => simp
  | quiet hes =>
    intro e he p i hj
    obtain ⟨_, _, _, hm, -⟩ := hes e he
    rw [hm] at hj
    cases hj
  | leave hp =>
    intro e he p i hj
    rw [entries_playerDisconnect] at he
    rcases List.mem_append.mp he with he | he
    · obtain ⟨_, -, hf⟩ := List.mem_map.mp he
      rw [← hf] at hj
      cases hj
    · rw [List.mem_singleton.mp he] at hj
      cases hj
  | append _ _ ih ih' =>
    intro e he
    rcases List.mem_append.mp he with he | he
    · exact ih e he
    · exact ih' e he

/-- Nobody new is in the table afterwards. -/
theorem Moves.shrinks {a b : Players} {es : List (Entry Peer UInt32)} (h : Moves a es b) :
    ∀ q ∈ b.keys, q ∈ a.keys := by
  induction h with
  | silent hids =>
    intro q hq
    rw [← idsOf_isSome, ← hids, idsOf_isSome]
    exact hq
  | quiet _ => exact fun _ hq => hq
  | leave _ =>
    intro q hq
    rw [OrderedMap.keys_erase] at hq
    exact (List.mem_filter.mp hq).1
  | append _ _ ih ih' => exact fun q hq => ih q (ih' q hq)

theorem Moves.ids {a b : Players} {es : List (Entry Peer UInt32)} (h : Moves a es b) :
    ∀ q i, idsOf b q = some i → idsOf a q = some i := by
  induction h with
  | silent hids => exact fun q i hq => hids ▸ hq
  | quiet _ => exact fun _ _ hq => hq
  | leave _ =>
    intro q i hq
    rw [idsOf_erase, Function.update_apply] at hq
    split at hq
    · cases hq
    · exact hq
  | append _ _ ih ih' => exact fun q i hq => ih q i (ih' q i hq)

/-- Whoever is bidden farewell was in the table and no longer is. -/
theorem Moves.farewells {a b : Players} {es : List (Entry Peer UInt32)} (h : Moves a es b) :
    ∀ q i, .farewell q i ∈ es → ∃ p, idsOf a p = some i ∧ idsOf b p = none := by
  induction h with
  | silent _ => simp
  | quiet hes =>
    intro q i he
    obtain ⟨_, _, _, hm, -⟩ := hes _ he
    cases hm
  | leave hp =>
    rename_i players p info
    intro q i he
    rw [entries_playerDisconnect] at he
    rcases List.mem_append.mp he with he | he
    · obtain ⟨_, -, hf⟩ := List.mem_map.mp he
      cases hf
      exact ⟨p, idsOf_eq_some hp, by rw [idsOf_erase, Function.update_self]⟩
    · cases List.mem_singleton.mp he
  | append _ h' ih ih' =>
    rename_i a b c es es' h
    intro q i he
    rcases List.mem_append.mp he with he | he
    · obtain ⟨p, hp, hgone⟩ := ih q i he
      refine ⟨p, hp, ?_⟩
      by_contra hback
      obtain ⟨j, hj⟩ := Option.ne_none_iff_exists'.mp hback
      rw [h'.ids p j hj] at hgone
      cases hgone
    · obtain ⟨p, hp, hgone⟩ := ih' q i he
      exact ⟨p, h.ids p i hp, hgone⟩

theorem mem_playerConnect_mention {players : Players} {p : Peer} {info : PlayerInfo}
    (hp : players.find? p = some info) (exclude : Peer) {e : Entry Peer UInt32}
    (he : e ∈ (players.keys.filter (fun q => q ≠ exclude)).map
      fun q => .mention q info.netEntityId) :
    ∃ q p info, e = .mention q info.netEntityId ∧ players.find? p = some info := by
  obtain ⟨q, -, rfl⟩ := List.mem_map.mp he
  exact ⟨q, p, info, rfl, hp⟩

/-! ## What each handler does -/

theorem checkTimeoutsFrom_moves (now : ℚ) (keys : List Peer) (players : Players) :
    Moves players (entries (checkTimeoutsFrom now keys players).2)
      (checkTimeoutsFrom now keys players).1 := by
  refine checkTimeoutsFrom_rule (fun players r => Moves players (entries r.2) r.1) .refl ?_
    now keys players
  intro players p info r hp hr
  have hleave := (Moves.leave hp).append hr
  simpa [Action.entries, List.append_assoc] using hleave

theorem handlePeerGone_moves (p : Peer) (players : Players) :
    Moves players (entries (handlePeerGone p players).2) (handlePeerGone p players).1 := by
  unfold handlePeerGone
  split
  · exact .refl players
  · rename_i info hp
    simpa [Action.entries] using Moves.leave hp

theorem handleReceive_moves {now : ℚ} {p : Peer} {data : List UInt8} {players players' : Players}
    {acts : List Action} (hs : handleReceive now p data players = some (players', acts)) :
    Moves players (entries acts) players' := by
  cases handleReceive_cases hs with
  | refused _ => exact .refl players
  | heartbeat _ _ =>
    exact .silent (idsOf_modify players p (fun info => { info with lastHeartbeat := now })
      fun _ => rfl)
  | disconnect _ hp => simpa [Action.entries] using Moves.leave hp
  | snapshot _ _ _ _ => exact .silent (idsOf_modify players p (fun pi => pi.accept _) fun _ => rfl)
  | fire _ _ hp _ =>
    rw [entries_relayFire]
    exact .quiet fun e he => mem_playerConnect_mention hp p he

/-- A world snapshot packet mentions only players of the table. -/
theorem entries_packetFor (players : Players) (r : Peer)
    (hfit : (visible players.entries r).length ≤ maxPlayers) :
    entries (packetFor players.entries r) =
      (others players.entries r).map fun e => .mention r e.2.netEntityId := by
  unfold packetFor
  split
  · rename_i hnil
    have hothers : others players.entries r = [] := by simpa [visible] using hnil
    simp [hothers]
  · simp only [entries_cons, entries_nil, List.append_nil, Action.entries, parse_encodeWorld hfit,
      Option.map_some, Option.getD_some, messageEntries]
    simp [visible, PlayerInfo.entityState]

theorem broadcastWorldSnapshots_moves {players : Players} {acts : List Action}
    (hs : broadcastWorldSnapshots players = some acts) : Moves players (entries acts) players := by
  rw [broadcastWorldSnapshots_eq] at hs
  split at hs
  · rename_i hfit
    cases hs
    refine .quiet fun e he => ?_
    simp only [entries, List.flatMap_assoc, List.mem_flatMap] at he
    obtain ⟨r, hr, he⟩ := he
    have he' : e ∈ entries (packetFor players.entries r) := by simpa [entries] using he
    rw [entries_packetFor players r (hfit r hr)] at he'
    obtain ⟨⟨p, info⟩, hmem, rfl⟩ := List.mem_map.mp he'
    refine ⟨r, p, info, rfl, (players.find?_eq_some p info).mpr ?_⟩
    exact (List.mem_filter.mp hmem).1
  · cases hs

/-- Every step but a CONNECT only moves players out, and hands out no id. -/
theorem step_moves {s s' : State} {e : Event} {acts : List Action}
    (he : ∀ p now, e ≠ .connect p now) (hs : step s e = some (s', acts)) :
    Moves s.players (entries acts) s'.players ∧ s'.nextEntityId = s.nextEntityId := by
  cases e with
  | connect p now => exact absurd rfl (he p now)
  | receive p data now =>
    obtain ⟨players', hr, rfl⟩ := step_receive hs
    exact ⟨handleReceive_moves hr, rfl⟩
  | disconnect p =>
    cases hs
    exact ⟨handlePeerGone_moves p s.players, rfl⟩
  | checkTimeouts now =>
    cases hs
    exact ⟨checkTimeoutsFrom_moves now s.players.keys s.players, rfl⟩
  | broadcast now =>
    obtain ⟨n, accum, rest, hloop, rfl⟩ := step_broadcast hs
    refine ⟨?_, rfl⟩
    refine broadcastLoop_rule (fun acts => Moves s.players (entries acts) s.players) (.refl _) ?_
      n hloop
    intro out acts hout hmoves
    rw [entries_append]
    exact (broadcastWorldSnapshots_moves hout).append hmoves

end Fnvmp.Server
