import Fnvmp.Delivery
import Fnvmp.Departures
import Fnvmp.Fidelity
import Fnvmp.Replay
import Fnvmp.Speech

/-!
# The server tells in the order it hears

The server keeps the snapshot it accepted last and broadcasts it at any time; it looks
at no sequence number. So what a pointer is told of a player replays, in the order of
arrival, what reached the server.
-/

namespace Fnvmp.Server

open PackedCodec Protocol Net Delivery Replay

/-- The entity states a packet brings, when it is a world snapshot. -/
def statesIn (data : List UInt8) : List EntityState :=
  match ServerMessage.parse data with
  | some (.worldSnapshot entities) => entities
  | _ => []

def samplesOf (id : UInt32) (states : List EntityState) : List EntityState :=
  states.filter fun es => es.netEntityId = id

/-- The samples of a player in all the packets the server sent to a pointer. -/
def samplesTo (p : Peer) (id : UInt32) (acts : List Action) : List EntityState :=
  (on .unreliable (packetsTo p acts)).flatMap fun data => samplesOf id (statesIn data)

@[simp] theorem samplesTo_append (p : Peer) (id : UInt32) (acts acts' : List Action) :
    samplesTo p id (acts ++ acts') = samplesTo p id acts ++ samplesTo p id acts' := by
  simp [samplesTo]

theorem mem_samplesTo {p : Peer} {id : UInt32} {acts : List Action} {es : EntityState}
    (h : es ∈ samplesTo p id acts) : es.netEntityId = id ∧
      ∃ q channel data flag, .send q channel data flag ∈ acts ∧ es ∈ statesIn data := by
  simp only [samplesTo, samplesOf, List.mem_flatMap, List.mem_filter, decide_eq_true_eq] at h
  obtain ⟨data, hdata, hes, hid⟩ := h
  obtain ⟨flag, hact⟩ := mem_packetsTo.mp (mem_on.mp hdata)
  exact ⟨hid, p, _, data, flag, hact, hes⟩

theorem parse_world {data : List UInt8} {states : List EntityState}
    (h : ServerMessage.parse data = some (.worldSnapshot states)) :
    packetType data = some .worldSnapshot ∧ 3 + states.length * 29 ≤ data.length := by
  unfold ServerMessage.parse at h
  dsimp only at h
  split at h
  · split at h <;> cases h
  · cases h
  · rename_i htype
    split at h
    · rename_i hfits
      cases h
      exact ⟨htype, by simpa using hfits⟩
    · cases h
  · split at h <;> cases h
  · split at h <;> cases h
  · split at h <;> cases h
  · cases h

theorem statesIn_eq_nil {data : List UInt8}
    (h : ∀ states, ServerMessage.parse data = some (.worldSnapshot states) → states = []) :
    statesIn data = [] := by
  unfold statesIn
  split
  · rename_i states hstates
    exact h states hstates
  · rfl

/-- A packet too short for one state brings none. -/
theorem statesIn_short {data : List UInt8} (h : data.length < 32) : statesIn data = [] := by
  refine statesIn_eq_nil fun states hstates => List.eq_nil_of_length_eq_zero ?_
  have hfits := (parse_world hstates).2
  omega

theorem statesIn_other {data : List UInt8} (h : packetType data ≠ some .worldSnapshot) :
    statesIn data = [] :=
  statesIn_eq_nil fun _ hstates => absurd (parse_world hstates).1 h

theorem statesIn_entity (m : MsgEntity) : statesIn (msgEntity.encode m) = [] :=
  statesIn_short (by simp)

theorem statesIn_world {states : List EntityState} (h : states.length ≤ maxPlayers) :
    statesIn (encodeWorld states) = states := by
  simp [statesIn, parse_encodeWorld h]

/-! ## What one step tells -/

/-- The states in a packet are those of table entries. -/
def TellsOf (players : Players) (act : Action) : Prop :=
  ∀ q channel data flag, act = .send q channel data flag → ∀ es ∈ statesIn data,
    ∃ p info, players.find? p = some info ∧ info.hasSnapshot = true ∧ es = info.entityState

/-- Every state that a step sends out is that of a table entry. -/
theorem step_tells {s s' : State} {e : Event} {acts : List Action}
    (hs : step s e = some (s', acts)) : ∀ act ∈ acts, TellsOf s.players act := by
  intro act hact q channel data flag hsend es hes
  cases step_speaks hs act hact q channel data flag hsend with
  | ack | joined | left | fire =>
    rw [statesIn_entity] at hes
    cases hes
  | world hfit hheld =>
    rw [statesIn_world hfit] at hes
    exact hheld es hes

/-! ## Samples replay what was heard -/

/-- The packet, when it comes from the pointer and is a player snapshot under the id. -/
def snapshotPacket (p : Peer) (id : UInt32) : Event → Option (List UInt8)
  | .receive q data _ =>
    if q = p ∧ packetType data = some .playerSnapshot ∧ msgPlayerSnapshot.size ≤ data.length ∧
        (msgPlayerSnapshot.decode data).netEntityId = id then
      some data
    else none
  | _ => none

/-- The state a player snapshot packet describes. -/
def stateOf (data : List UInt8) : EntityState := reported (msgPlayerSnapshot.decode data)

/-- The server between two events: the table holds what was last accepted, and what was
told about the player so far replays what was `heard` of it, with the last of that to follow. -/
structure Follows (a b : Peer) (id : UInt32) (s : State) (acts : List Action)
    (heard : List EntityState) (last : Peer → Option MsgPlayerSnapshot) : Prop where
  table : ∀ q info, s.players.find? q = some info → Holds info (last q)
  seated : ∀ q i, idsOf s.players q = some i → .registered q i ∈ acts
  replays : Replays heard (samplesTo b id acts)
  showing : ∀ snap, last a = some snap → snap.netEntityId = id →
    Showing heard (samplesTo b id acts) (reported snap)

theorem follows_start (a b : Peer) (id : UInt32) (now : ℚ) :
    Follows a b id (start now) [] [] fun _ => none where
  table := by simp [start]
  seated := by simp [start, idsOf]
  replays := .done []
  showing := by simp

variable {a b : Peer} {id : UInt32} {s s' : State} {acts out : List Action} {e : Event}
  {heard : List EntityState} {last : Peer → Option MsgPlayerSnapshot}

theorem step_seated (h : ∀ q i, idsOf s.players q = some i → .registered q i ∈ acts)
    (hs : step s e = some (s', out)) :
    ∀ q i, idsOf s'.players q = some i → .registered q i ∈ acts ++ out := by
  intro q i hq
  by_cases hconnect : ∃ p now, e = .connect p now
  · obtain ⟨p, now, rfl⟩ := hconnect
    cases hs
    change idsOf (s.players.insert p _) q = some i at hq
    rw [idsOf_insert, Function.update_apply] at hq
    split at hq
    · rename_i heq
      cases hq
      refine List.mem_append_right _ ?_
      simp [heq]
    · exact List.mem_append_left _ (h q i hq)
  · have hmoves := (step_moves (fun p now heq => hconnect ⟨p, now, heq⟩) hs).1
    exact List.mem_append_left _ (h q i (hmoves.ids q i hq))

/-- What a step tells about the player is one state, again and again. -/
theorem step_repeats (h : Follows a b id s acts heard last)
    (hid : ∀ q, .registered q id ∈ acts → q = a) (hs : step s e = some (s', out)) :
    samplesTo b id out = [] ∨ ∃ n snap, last a = some snap ∧ snap.netEntityId = id ∧
      samplesTo b id out = List.replicate n (reported snap) := by
  have hall : ∀ es ∈ samplesTo b id out, ∃ snap, last a = some snap ∧ snap.netEntityId = id ∧
      es = reported snap := by
    intro es hes
    obtain ⟨heid, q, channel, data, flag, hact, hin⟩ := mem_samplesTo hes
    obtain ⟨p, info, hp, hshown, rfl⟩ := step_tells hs _ hact q channel data flag rfl es hin
    obtain ⟨hsome, hstate⟩ := h.table p info hp
    rw [hshown, eq_comm, Option.isSome_iff_exists] at hsome
    obtain ⟨snap, hsnap⟩ := hsome
    have hheld := hstate snap hsnap
    have hinfo : info.netEntityId = id := heid
    have hpa : p = a := hid p (h.seated p id (hinfo ▸ idsOf_eq_some hp))
    exact ⟨snap, hpa ▸ hsnap, (congrArg EntityState.netEntityId hheld).symm.trans hinfo, hheld⟩
  cases hlast : last a with
  | none =>
    refine .inl (List.eq_nil_iff_forall_not_mem.mpr fun es hes => ?_)
    obtain ⟨snap, hsnap, -⟩ := hall es hes
    rw [hlast] at hsnap
    cases hsnap
  | some snap =>
    by_cases hempty : samplesTo b id out = []
    · exact .inl hempty
    · obtain ⟨es, hes⟩ := List.exists_mem_of_ne_nil _ hempty
      obtain ⟨snap', hsnap', hid', -⟩ := hall es hes
      cases hlast.symm.trans hsnap'
      refine .inr ⟨(samplesTo b id out).length, snap, rfl, hid', ?_⟩
      refine List.eq_replicate_iff.mpr ⟨rfl, fun es' hes' => ?_⟩
      obtain ⟨snap', hsnap', -, rfl⟩ := hall es' hes'
      cases hlast.symm.trans hsnap'
      rfl

/-- An accepted snapshot of the player was heard from its pointer. -/
theorem accepted_heard {q : Peer} {snap : MsgPlayerSnapshot}
    (hseated : ∀ q, idsOf s.players q = some id → q = a)
    (hacc : acceptedFrom s.players q e = some snap) (hid : snap.netEntityId = id) :
    ∃ data, snapshotPacket a id e = some data ∧ stateOf data = reported snap := by
  cases e with
  | receive p data now =>
    simp only [acceptedFrom] at hacc
    split at hacc
    · rename_i hpq
      unfold accepted at hacc
      split at hacc
      · rename_i hcomplete
        cases hacc
        have hqa : p = a := hpq ▸ hseated q (hid ▸ hcomplete.2.2)
        exact ⟨data, if_pos ⟨hqa, hcomplete.1, hcomplete.2.1, hid⟩, rfl⟩
      · cases hacc
    · cases hacc
  | connect p now => cases hacc
  | disconnect p => cases hacc
  | checkTimeouts now => cases hacc
  | broadcast now => cases hacc

theorem noteAccepted_cases {players : Players} {p : Peer} {snap : MsgPlayerSnapshot}
    {last : Option MsgPlayerSnapshot} (h : noteAccepted players p e last = some snap) :
    acceptedFrom players p e = some snap ∨ last = some snap := by
  have other : (acceptedFrom players p e).or last = some snap →
      acceptedFrom players p e = some snap ∨ last = some snap := by
    intro hor
    cases hacc : acceptedFrom players p e with
    | none => exact .inr (by simpa [hacc] using hor)
    | some snap' => exact .inl (by simpa [hacc] using hor)
  cases e with
  | connect q now =>
    simp only [noteAccepted] at h
    split at h
    · cases h
    · exact .inr h
  | receive q data now => exact other h
  | disconnect q => exact other h
  | checkTimeouts now => exact other h
  | broadcast now => exact other h

theorem step_follows (h : Follows a b id s acts heard last)
    (hid : ∀ q, .registered q id ∈ acts ++ out → q = a) (hs : step s e = some (s', out)) :
    Follows a b id s' (acts ++ out) (heard ++ ((snapshotPacket a id e).map stateOf).toList)
      fun q => noteAccepted s.players q e (last q) := by
  have hid' : ∀ q, .registered q id ∈ acts → q = a := fun q hq => hid q (List.mem_append_left _ hq)
  have hrepeats := step_repeats h hid' hs
  have hreplays : Replays heard (samplesTo b id (acts ++ out)) := by
    rw [samplesTo_append]
    rcases hrepeats with hnone | ⟨n, snap, hsnap, hsid, hsame⟩
    · rw [hnone, List.append_nil]
      exact h.replays
    · rw [hsame]
      exact h.showing snap hsnap hsid n
  have hkept : ∀ snap, last a = some snap → snap.netEntityId = id →
      Showing heard (samplesTo b id (acts ++ out)) (reported snap) := by
    intro snap hsnap hsid
    rw [samplesTo_append]
    rcases hrepeats with hnone | ⟨n, snap', hsnap', -, hsame⟩
    · rw [hnone, List.append_nil]
      exact h.showing snap hsnap hsid
    · cases hsnap.symm.trans hsnap'
      rw [hsame]
      exact (h.showing snap hsnap hsid).read n
  refine ⟨step_holds h.table hs, step_seated h.seated hs, ?_, fun snap hsnap hsid => ?_⟩
  · simpa using hreplays.append (.done ((snapshotPacket a id e).map stateOf).toList)
  · rcases noteAccepted_cases hsnap with hacc | hlast
    · obtain ⟨data, hdata, hstate⟩ :=
        accepted_heard (fun q hq => hid' q (h.seated q id hq)) hacc hsid
      simp only [hdata, Option.map_some, Option.toList_some, hstate]
      exact hreplays.take (reported snap)
    · exact (hkept snap hlast hsid).extend _

/-- Along a run, what a pointer is told of a player replays what was heard of it. -/
theorem run_follows (es : List Event) {t : State} (h : Follows a b id s acts heard last)
    (hid : ∀ q, .registered q id ∈ acts ++ out → q = a) (hrun : run s es = some (t, out)) :
    Replays (heard ++ (es.filterMap (snapshotPacket a id)).map stateOf)
      (samplesTo b id (acts ++ out)) := by
  induction es generalizing s acts heard last out with
  | nil =>
    cases hrun
    simpa using h.replays
  | cons e es ih =>
    obtain ⟨s', first, rest, hs, hrest, rfl⟩ := EventRun.exec_cons_eq_some.mp hrun
    rw [← List.append_assoc] at hid ⊢
    have hstep := step_follows h (fun q hq => hid q (List.mem_append_left _ hq)) hs
    have hall := ih hstep hid hrest
    cases hpacket : snapshotPacket a id e with
    | none => simpa [hpacket] using hall
    | some data => simpa [hpacket] using hall

end Fnvmp.Server
