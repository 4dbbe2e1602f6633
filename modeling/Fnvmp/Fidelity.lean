import Fnvmp.Roster
import Fnvmp.Isolation
import Fnvmp.NetClient
import Mathlib.Data.Finset.Card

/-!
# World snapshots carry what was last accepted

`lastAccepted` reads off the history of a run which snapshot of a player is current:
the last one taken from its pointer since the pointer's CONNECT. The player table
holds exactly that data, and a recipient decodes exactly that data.
-/

namespace Fnvmp.Server

open PackedCodec Protocol Net

/-- The snapshot a packet from `p` carries, when it is complete and bears the id of `p`. -/
def accepted (players : Players) (p : Peer) (data : List UInt8) : Option MsgPlayerSnapshot :=
  if data.head?.bind MessageType.ofCode = some .playerSnapshot ∧
      msgPlayerSnapshot.size ≤ data.length ∧
      idsOf players p = some (msgPlayerSnapshot.decode data).netEntityId then
    some (msgPlayerSnapshot.decode data)
  else none

def acceptedFrom (players : Players) (p : Peer) : Event → Option MsgPlayerSnapshot
  | .receive q data _ => if q = p then accepted players p data else none
  | _ => none

/-- One event of the history: a CONNECT forgets, an accepted snapshot replaces. -/
def noteAccepted (players : Players) (p : Peer) (e : Event) (last : Option MsgPlayerSnapshot) :
    Option MsgPlayerSnapshot :=
  match e with
  | .connect q _ => if q = p then none else last
  | e => (acceptedFrom players p e).or last

/-- The snapshot last accepted from `p` since its own CONNECT, along a run. -/
def lastAccepted (p : Peer) : State → List Event → Option MsgPlayerSnapshot →
    Option MsgPlayerSnapshot
  | _, [], last => last
  | s, e :: es, last =>
    match step s e with
    | none => last
    | some (s', _) => lastAccepted p s' es (noteAccepted s.players p e last)

/-- The entity state a snapshot describes, field by field. -/
def reported (snap : MsgPlayerSnapshot) : EntityState where
  netEntityId := snap.netEntityId
  cellId := snap.cellId
  posX := snap.posX
  posY := snap.posY
  posZ := snap.posZ
  rotZ := snap.rotZ
  moveDirection := snap.moveDirection
  isRunning := snap.isRunning
  isSneaking := snap.isSneaking
  isWeaponOut := snap.isWeaponOut
  actionState := snap.actionState

/-- A table entry holds the data of the snapshot last accepted, or says it has none. -/
def Holds (info : PlayerInfo) (last : Option MsgPlayerSnapshot) : Prop :=
  info.hasSnapshot = last.isSome ∧ ∀ snap, last = some snap → info.entityState = reported snap

theorem holds_accept {info : PlayerInfo} {snap : MsgPlayerSnapshot}
    (h : info.netEntityId = snap.netEntityId) : Holds (info.accept snap) (some snap) := by
  refine ⟨rfl, ?_⟩
  rintro _ ⟨⟩
  simp [PlayerInfo.accept, PlayerInfo.entityState, reported, h]

/-- Every entry of `players'` comes from one of `players`, and holds what was accepted
since if that one held what was accepted before. -/
def Carries (players players' : Players) (accepted : Peer → Option MsgPlayerSnapshot) : Prop :=
  ∀ q info', players'.find? q = some info' → ∃ info, players.find? q = some info ∧
    ∀ last, Holds info last → Holds info' ((accepted q).or last)

theorem Carries.refl {players : Players} {accepted : Peer → Option MsgPlayerSnapshot}
    (h : ∀ q, players.find? q ≠ none → accepted q = none) : Carries players players accepted := by
  intro q info hq
  refine ⟨info, hq, fun last hlast => ?_⟩
  rw [h q (by simp [hq]), Option.none_or]
  exact hlast

theorem Carries.erase (players : Players) (p : Peer) :
    Carries players (players.erase p) fun _ => none := by
  intro q info hq
  rw [OrderedMap.find?_erase] at hq
  split at hq
  · cases hq
  · exact ⟨info, hq, fun last hlast => by simpa using hlast⟩

theorem Carries.modify {players : Players} {p : Peer} {f : PlayerInfo → PlayerInfo}
    {accepted : Peer → Option MsgPlayerSnapshot} (hother : ∀ q, q ≠ p → accepted q = none)
    (hp : ∀ info, players.find? p = some info → ∀ last, Holds info last →
      Holds (f info) ((accepted p).or last)) : Carries players (players.modify p f) accepted := by
  intro q info' hq
  rw [OrderedMap.find?_modify] at hq
  split at hq
  · rename_i heq
    subst heq
    obtain ⟨info, hinfo, rfl⟩ := Option.map_eq_some_iff.mp hq
    exact ⟨info, hinfo, hp info hinfo⟩
  · rename_i hne
    exact ⟨info', hq, fun last hlast => by simpa [hother q hne] using hlast⟩

theorem Carries.trans {a b c : Players} (h : Carries a b fun _ => none)
    (h' : Carries b c fun _ => none) : Carries a c fun _ => none := by
  intro q info hq
  obtain ⟨mid, hmid, hlast'⟩ := h' q info hq
  obtain ⟨info₀, hinfo₀, hlast⟩ := h q mid hmid
  exact ⟨info₀, hinfo₀, fun last h₀ => hlast' last (hlast last h₀)⟩

theorem accepted_refused {players : Players} {p : Peer} {data : List UInt8}
    (h : Refused players p data) : accepted players p data = none := by
  refine if_neg fun hacc => ?_
  obtain ⟨ht, hlen, hid⟩ := hacc
  obtain ⟨info, hp, hid⟩ := Option.map_eq_some_iff.mp hid
  refine not_refused ht rfl hlen hp (fun id hcarried => ?_) h
  rw [carriedId, show packetType data = _ from ht] at hcarried
  cases hcarried
  exact hid.symm

theorem accepted_other {players : Players} {p : Peer} {data : List UInt8}
    (ht : packetType data ≠ some .playerSnapshot) : accepted players p data = none :=
  if_neg fun hacc => ht hacc.1

/-- A packet of which nothing is accepted brings no snapshot of anybody. -/
theorem acceptedFrom_none {players : Players} {p : Peer} {data : List UInt8} {now : ℚ}
    (h : accepted players p data = none) :
    (fun q => acceptedFrom players q (.receive p data now)) = fun _ => none := by
  funext q
  simp only [acceptedFrom]
  split
  · rename_i hpq
    rw [← hpq]
    exact h
  · rfl

theorem handleReceive_carries {now : ℚ} {p : Peer} {data : List UInt8} {players players' : Players}
    {acts : List Action} (hs : handleReceive now p data players = some (players', acts)) :
    Carries players players' fun q => acceptedFrom players q (.receive p data now) := by
  cases handleReceive_cases hs with
  | refused h =>
    rw [acceptedFrom_none (accepted_refused h)]
    exact .refl fun _ _ => rfl
  | heartbeat ht _ =>
    rw [acceptedFrom_none (accepted_other (by simp [ht]))]
    exact .modify (fun _ _ => rfl) fun info _ last hlast => hlast
  | disconnect ht _ =>
    rw [acceptedFrom_none (accepted_other (by simp [ht]))]
    exact .erase players p
  | snapshot ht hlen hp hid =>
    refine .modify (fun q hq => if_neg (Ne.symm hq)) fun info hinfo last _ => ?_
    cases hp.symm.trans hinfo
    have haccepted : accepted players p data = some (msgPlayerSnapshot.decode data) :=
      if_pos ⟨ht, hlen, by rw [idsOf_eq_some hp, hid]⟩
    rw [acceptedFrom, if_pos rfl, haccepted, Option.some_or]
    exact holds_accept hid.symm
  | fire ht _ _ _ =>
    rw [acceptedFrom_none (accepted_other (by simp [ht]))]
    exact .refl fun _ _ => rfl

theorem checkTimeoutsFrom_carries (now : ℚ) (keys : List Peer) (players : Players) :
    Carries players (checkTimeoutsFrom now keys players).1 fun _ => none :=
  checkTimeoutsFrom_rule (fun players r => Carries players r.1 fun _ => none)
    (fun _ => .refl fun _ _ => rfl) (fun players p _ _ _ hr => (Carries.erase players p).trans hr)
    now keys players

/-- One event keeps every entry at the snapshot last accepted. -/
theorem step_holds {s s' : State} {e : Event} {acts : List Action}
    {last : Peer → Option MsgPlayerSnapshot}
    (h : ∀ q info, s.players.find? q = some info → Holds info (last q))
    (hs : step s e = some (s', acts)) :
    ∀ q info, s'.players.find? q = some info →
      Holds info (noteAccepted s.players q e (last q)) := by
  have carried : (∀ p now, e ≠ .connect p now) →
      Carries s.players s'.players (fun q => acceptedFrom s.players q e) →
      ∀ q info, s'.players.find? q = some info →
        Holds info (noteAccepted s.players q e (last q)) := by
    intro hne hcarries q info' hq
    obtain ⟨info, hinfo, hlast⟩ := hcarries q info' hq
    cases e with
    | connect p now => exact absurd rfl (hne p now)
    | receive p data now => exact hlast _ (h q info hinfo)
    | disconnect p => exact hlast _ (h q info hinfo)
    | checkTimeouts now => exact hlast _ (h q info hinfo)
    | broadcast now => exact hlast _ (h q info hinfo)
  cases e with
  | connect p now =>
    cases hs
    intro q info hq
    change (s.players.insert p { netEntityId := s.nextEntityId, lastHeartbeat := now }).find? q =
      some info at hq
    rw [OrderedMap.find?_insert] at hq
    simp only [noteAccepted]
    by_cases hqp : q = p
    · rw [if_pos hqp, Option.some.injEq] at hq
      rw [if_pos hqp.symm, ← hq]
      exact ⟨rfl, by simp⟩
    · rw [if_neg hqp] at hq
      rw [if_neg (Ne.symm hqp)]
      exact h q info hq
  | receive p data now =>
    obtain ⟨players', hr, rfl⟩ := step_receive hs
    exact carried (by simp) (handleReceive_carries hr)
  | disconnect p =>
    cases hs
    refine carried (by simp) ?_
    simp only [handlePeerGone]
    split
    · exact .refl fun _ _ => rfl
    · exact .erase s.players p
  | checkTimeouts now =>
    cases hs
    exact carried (by simp) (checkTimeoutsFrom_carries now s.players.keys s.players)
  | broadcast now =>
    obtain ⟨n, accum, rest, -, rfl⟩ := step_broadcast hs
    exact carried (by simp) (.refl fun _ _ => rfl)

theorem run_holds (es : List Event) {s t : State} {acts : List Action}
    {last : Peer → Option MsgPlayerSnapshot}
    (h : ∀ q info, s.players.find? q = some info → Holds info (last q))
    (hrun : run s es = some (t, acts)) :
    ∀ q info, t.players.find? q = some info → Holds info (lastAccepted q s es (last q)) := by
  induction es generalizing s last acts with
  | nil =>
    cases hrun
    exact h
  | cons e es ih =>
    obtain ⟨s', out, rest, hs, hrest, rfl⟩ := EventRun.exec_cons_eq_some.mp hrun
    intro q info hq
    have hnext := ih (step_holds h hs) hrest q info hq
    simpa only [lastAccepted, hs] using hnext

/-- What a recipient is to be told: the last accepted snapshot of each other player of the
table that has one, in table order. -/
def told (players : Players) (last : Peer → Option MsgPlayerSnapshot) (recipient : Peer) :
    List EntityState :=
  (players.keys.filter (fun q => q ≠ recipient)).filterMap fun q => (last q).map reported

theorem visible_eq_told {entries : List (Peer × PlayerInfo)}
    {last : Peer → Option MsgPlayerSnapshot} (h : ∀ e ∈ entries, Holds e.2 (last e.1))
    (recipient : Peer) :
    visible entries recipient = ((entries.map Prod.fst).filter (fun q => q ≠ recipient)).filterMap
      fun q => (last q).map reported := by
  induction entries with
  | nil => rfl
  | cons e rest ih =>
    have hrest := ih fun e' he' => h e' (List.mem_cons_of_mem _ he')
    obtain ⟨hsnap, hdata⟩ := h e List.mem_cons_self
    by_cases hr : e.1 = recipient
    · rw [visible_cons_hidden (.inl hr), hrest]
      simp [hr]
    · cases hl : last e.1 with
      | none =>
        rw [visible_cons_hidden (.inr (by simpa [hl] using hsnap)), hrest]
        simp [hr, hl]
      | some snap =>
        rw [visible_cons_shown hr (by simpa [hl] using hsnap), hrest, hdata snap hl]
        simp [hr, hl]

/-! ## The host has one pointer for each player -/

/-- Pointers are only those the host handed out. -/
def Hosted (hosts : Finset Peer) (s : State) : Prop := ∀ q ∈ s.players.keys, q ∈ hosts

theorem Hosted.length_keys {hosts : Finset Peer} {s : State} (h : Hosted hosts s) :
    s.players.keys.length ≤ hosts.card := by
  rw [← List.toFinset_card_of_nodup s.players.keys_nodup]
  exact Finset.card_le_card fun q hq => h q (List.mem_toFinset.mp hq)

theorem length_visible {players : Players} {recipient : Peer} (hr : recipient ∈ players.keys) :
    (visible players.entries recipient).length ≤ players.keys.length - 1 := by
  have hothers : (visible players.entries recipient).length ≤
      (players.keys.filter fun q => q ≠ recipient).length := by
    rw [visible, List.length_map, OrderedMap.keys, List.filter_map, List.length_map]
    refine List.Sublist.length_le (List.monotone_filter_right _ fun e he => ?_)
    simp only [decide_eq_true_eq] at he
    simpa using he.1
  have hone : 0 < (players.keys.filter fun q => ¬ (q ≠ recipient)).length :=
    List.length_pos_of_mem (a := recipient) (by simp [hr])
  have hsplit := List.length_eq_length_filter_add (l := players.keys) fun q => q ≠ recipient
  simp only [ne_eq, decide_not, Bool.not_not] at *
  omega

theorem Hosted.broadcasts {hosts : Finset Peer} (hcard : hosts.card ≤ maxPlayers) {s : State}
    (h : Hosted hosts s) : broadcastWorldSnapshots s.players =
      some (s.players.keys.flatMap (packetFor s.players.entries)) := by
  rw [broadcastWorldSnapshots_eq, if_pos]
  intro r hr
  have hlen := length_visible hr
  have hkeys := h.length_keys
  omega

theorem broadcastLoop_isSome {players : Players} {out : List Action}
    (h : broadcastWorldSnapshots players = some out) (n : Nat) (accum : ℚ) :
    ∃ r, broadcastLoop players n accum = some r := by
  induction n generalizing accum with
  | zero => exact ⟨_, rfl⟩
  | succ n ih =>
    simp only [broadcastLoop]
    split
    · obtain ⟨r, hr⟩ := ih (accum - snapshotSendInterval)
      exact ⟨_, by rw [h, Option.bind_some, hr, Option.map_some]⟩
    · exact ⟨_, rfl⟩

/-- With at most `MAX_PLAYERS` pointers no step runs over a buffer. -/
theorem Hosted.step {hosts : Finset Peer} (hcard : hosts.card ≤ maxPlayers) {s : State}
    {e : Event} (h : Hosted hosts s) (he : ∀ p now, e = .connect p now → p ∈ hosts) :
    ∃ s' acts, Server.step s e = some (s', acts) ∧ Hosted hosts s' := by
  have moved : ∀ s' acts, (∀ p now, e ≠ .connect p now) → Server.step s e = some (s', acts) →
      ∃ s' acts, Server.step s e = some (s', acts) ∧ Hosted hosts s' := by
    intro s' acts hne hs
    exact ⟨s', acts, hs, fun q hq => h q ((step_moves hne hs).1.shrinks q hq)⟩
  cases e with
  | connect p now =>
    refine ⟨_, _, rfl, fun q hq => ?_⟩
    change q ∈ (s.players.insert p { netEntityId := s.nextEntityId, lastHeartbeat := now }).keys
      at hq
    rw [OrderedMap.mem_keys, OrderedMap.find?_insert] at hq
    split at hq
    · rename_i heq
      exact heq ▸ he p now rfl
    · exact h q ((OrderedMap.mem_keys _ _).mpr hq)
  | receive p data now =>
    obtain ⟨players', acts, hs, -⟩ := handleReceive_handled now s.players p data
    exact moved { s with players := players' } acts (by simp) (by simp [Server.step, hs])
  | disconnect p => exact moved _ _ (by simp) rfl
  | checkTimeouts now => exact moved _ _ (by simp) rfl
  | broadcast now =>
    obtain ⟨r, hr⟩ := broadcastLoop_isSome (h.broadcasts hcard)
      ⌊(s.broadcastAccum + (now - s.lastBroadcastTime)) / snapshotSendInterval⌋₊
      (s.broadcastAccum + (now - s.lastBroadcastTime))
    refine moved { s with lastBroadcastTime := now, broadcastAccum := r.1 } r.2 (by simp) ?_
    simp [Server.step, broadcastStep, hr]

theorem Hosted.run {hosts : Finset Peer} (hcard : hosts.card ≤ maxPlayers) {s : State}
    (h : Hosted hosts s) (es : List Event) (hhosts : ∀ p t, .connect p t ∈ es → p ∈ hosts) :
    ∃ s' acts, Server.run s es = some (s', acts) ∧ Hosted hosts s' :=
  EventRun.exec_isSome (Hosted hosts) es
    (fun _ _ he hs => hs.step hcard fun p t heq => hhosts p t (heq ▸ he)) h

/-- The broadcast loop sends the same round once for each of its passes. -/
theorem broadcastLoop_rounds {players : Players} {round : List Action}
    (hround : broadcastWorldSnapshots players = some round) (n : Nat) (accum : ℚ) :
    ∃ rest k, broadcastLoop players n accum = some (rest, (List.replicate k round).flatten) := by
  induction n generalizing accum with
  | zero => exact ⟨accum, 0, rfl⟩
  | succ n ih =>
    rw [broadcastLoop]
    split
    · obtain ⟨rest, k, hloop⟩ := ih (accum - snapshotSendInterval)
      refine ⟨rest, k + 1, ?_⟩
      rw [hround, Option.bind_some, hloop]
      rfl
    · exact ⟨accum, 0, rfl⟩

theorem run_broadcast {now : ℚ} {es : List Event} {s : State} {acts round : List Action}
    (hrun : run (start now) es = some (s, acts))
    (hround : broadcastWorldSnapshots s.players = some round) (t : ℚ) :
    ∃ s' k, run (start now) (es ++ [.broadcast t]) =
      some (s', acts ++ (List.replicate k round).flatten) := by
  obtain ⟨rest, k, hloop⟩ := broadcastLoop_rounds hround
    ⌊(s.broadcastAccum + (t - s.lastBroadcastTime)) / snapshotSendInterval⌋₊
    (s.broadcastAccum + (t - s.lastBroadcastTime))
  have hstep : step s (.broadcast t) = some
      ({ s with lastBroadcastTime := t, broadcastAccum := rest },
        (List.replicate k round).flatten) := by
    rw [step, broadcastStep, hloop]
    rfl
  have hone := EventRun.exec_cons_eq_some.mpr
    ⟨_, _, [], hstep, EventRun.exec_nil _, (List.append_nil _).symm⟩
  exact ⟨_, k, EventRun.exec_append.mpr ⟨s, acts, _, hrun, hone, rfl⟩⟩

/-- In every run on at most `MAX_PLAYERS` pointers no buffer is overrun, and a broadcast
after it sends each registered player exactly one packet, which decodes to the last
accepted snapshot of every other registered player that has one, or sends it nothing
when there is none. A broadcast event sends such rounds and nothing else. -/
theorem snapshots_faithful (hosts : Finset Peer) (hcard : hosts.card ≤ maxPlayers) (now : ℚ)
    (es : List Event) (hhosts : ∀ p t, .connect p t ∈ es → p ∈ hosts) :
    ∃ (s : State) (acts : List Action) (packet : Peer → List UInt8),
      run (start now) es = some (s, acts) ∧
      let toldTo := told s.players fun q => lastAccepted q (start now) es none
      let round := s.players.keys.flatMap fun r =>
        if toldTo r = [] then [] else [.send r .unreliable (packet r) .unsequenced]
      broadcastWorldSnapshots s.players = some round ∧
      (∀ t, ∃ s' k, run (start now) (es ++ [.broadcast t]) =
        some (s', acts ++ (List.replicate k round).flatten)) ∧
      ∀ r ∈ s.players.keys, (toldTo r).length ≤ maxPlayers - 1 ∧
        (packet r).length ≤ bufSize ∧
        ∀ c, Net.handleReceive c (packet r) =
          some ({ c with worldEntities := toldTo r, hasNewWorldSnapshot := true }, []) := by
  have hmax : maxPlayers = 8 := rfl
  have hbuf : bufSize = 235 := rfl
  have hempty : Hosted hosts (start now) := fun q hq => by simp [start, OrderedMap.mem_keys] at hq
  obtain ⟨s, acts, hrun, hhosted⟩ := hempty.run hcard es hhosts
  have hnone : ∀ q info, (start now).players.find? q = some info → Holds info none := by
    simp [start]
  have hholds := run_holds es hnone hrun
  have htold : ∀ r, visible s.players.entries r =
      told s.players (fun q => lastAccepted q (start now) es none) r := fun r =>
    visible_eq_told (fun e he => hholds e.1 e.2 ((s.players.find?_eq_some e.1 e.2).mpr he)) r
  have hround : broadcastWorldSnapshots s.players = some (s.players.keys.flatMap fun r =>
      if told s.players (fun q => lastAccepted q (start now) es none) r = [] then []
      else [.send r .unreliable (encodeWorld (visible s.players.entries r)) .unsequenced]) := by
    rw [hhosted.broadcasts hcard]
    simp only [← htold]
    rfl
  refine ⟨s, acts, fun r => encodeWorld (visible s.players.entries r), hrun, hround,
    fun t => run_broadcast hrun hround t, fun r hr => ?_⟩
  have hlen : (visible s.players.entries r).length ≤ maxPlayers - 1 := by
    have hvisible := length_visible hr
    have hkeys := hhosted.length_keys
    omega
  rw [← htold r]
  refine ⟨hlen, ?_, fun c => ?_⟩
  · rw [encodeWorld_length]
    omega
  · exact handleReceive_worldSnapshot c (visible s.players.entries r) (by omega)

/-- Three pointers, one of them used twice, with a broadcast for each occupant: the second one
has sent nothing yet. -/
def reusedPointer : List Event :=
  [.connect 1 0, .connect 2 0, .connect 3 0,
    .receive 1 (msgPlayerSnapshot.encode (.still 0 1 7)) 0,
    .receive 2 (msgPlayerSnapshot.encode (.still 0 2 9)) 0,
    .broadcast (1 / 10), .disconnect 1, .connect 1 1, .broadcast (2 / 10)]

theorem snapshots_faithful_reused :
    ∃ (s : State) (acts : List Action) (packet : Peer → List UInt8),
      run (start 0) reusedPointer = some (s, acts) ∧
      let toldTo := told s.players fun q => lastAccepted q (start 0) reusedPointer none
      let round := s.players.keys.flatMap fun r =>
        if toldTo r = [] then [] else [.send r .unreliable (packet r) .unsequenced]
      broadcastWorldSnapshots s.players = some round ∧
      (∀ t, ∃ s' k, run (start 0) (reusedPointer ++ [.broadcast t]) =
        some (s', acts ++ (List.replicate k round).flatten)) ∧
      (∀ r ∈ s.players.keys, (toldTo r).length ≤ maxPlayers - 1 ∧
        (packet r).length ≤ bufSize ∧
        ∀ c, Net.handleReceive c (packet r) =
          some ({ c with worldEntities := toldTo r, hasNewWorldSnapshot := true }, [])) ∧
      (toldTo 1).map EntityState.netEntityId = [2] ∧ toldTo 2 = [] := by
  have hhosts : ∀ p t, .connect p t ∈ reusedPointer → p ∈ ({1, 2, 3} : Finset Peer) := by
    intro p t hmem
    simp only [reusedPointer, List.mem_cons, Event.connect.injEq, reduceCtorEq, List.not_mem_nil,
      or_false, false_or] at hmem
    rcases hmem with ⟨rfl, -⟩ | ⟨rfl, -⟩ | ⟨rfl, -⟩ | ⟨rfl, -⟩ <;> decide
  obtain ⟨s, acts, packet, hrun, hround, hevents, hpackets⟩ :=
    snapshots_faithful {1, 2, 3} (by decide) 0 reusedPointer hhosts
  have htold : (run (start 0) reusedPointer).map (fun r =>
      let toldTo := told r.1.players fun q => lastAccepted q (start 0) reusedPointer none
      ((toldTo 1).map EntityState.netEntityId, toldTo 2)) = some ([2], []) := by
    decide +kernel
  rw [hrun, Option.map_some, Option.some.injEq, Prod.mk.injEq] at htold
  exact ⟨s, acts, packet, hrun, hround, hevents, hpackets, htold.1, htold.2⟩

end Fnvmp.Server
