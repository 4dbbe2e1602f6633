import Fnvmp.Server
import Mathlib.Data.List.TakeWhile

/-!
# The timeout sweep as a filter

The sweep erases from the table it walks, and each broadcast within it goes over the table
as swept so far. Followed entry by entry it keeps the entries passed over in front of those
still to come, so the survivors are a filter of the table and each farewell reaches whoever
is left.
-/

namespace Fnvmp.Server

open PackedCodec Protocol

/-- Not heard of for longer than the timeout, by the difference of two readings of the clock. -/
def Expired (now : ℚ) (info : PlayerInfo) : Prop :=
  Rounding.sub now info.lastHeartbeat > heartbeatTimeout

instance (now : ℚ) (info : PlayerInfo) : Decidable (Expired now info) :=
  inferInstanceAs (Decidable (Rounding.sub now info.lastHeartbeat > heartbeatTimeout))

/-- The entries that are to go, in the order of the table. -/
def timedOut (now : ℚ) (entries : List (Peer × PlayerInfo)) : List (Peer × PlayerInfo) :=
  entries.filter fun e => Expired now e.2

/-- `MSG_PLAYER_DISCONNECT` for an entry of the table. -/
def notice (q : Peer) (e : Peer × PlayerInfo) : Action :=
  .send q .gameEvents (msgEntity.encode ⟨MessageType.playerDisconnect.code, e.2.netEntityId⟩)
    .reliable

/-- What is sent to one peer, in order. -/
def sentTo (q : Peer) (acts : List Action) : List Action :=
  acts.filter fun
    | .send p _ _ _ => p = q
    | _ => false

/-- The entries erased from the table, in order. -/
def removals (acts : List Action) : List (Peer × UInt32) :=
  acts.filterMap fun
    | .removed p id => some (p, id)
    | _ => none

theorem sentTo_append (q : Peer) (acts acts' : List Action) :
    sentTo q (acts ++ acts') = sentTo q acts ++ sentTo q acts' :=
  List.filter_append ..

theorem removals_append (acts acts' : List Action) :
    removals (acts ++ acts') = removals acts ++ removals acts' :=
  List.filterMap_append

@[simp] theorem timedOut_nil (now : ℚ) : timedOut now [] = [] := rfl

theorem timedOut_cons_expired {now : ℚ} {e : Peer × PlayerInfo} (h : Expired now e.2)
    (rest : List (Peer × PlayerInfo)) : timedOut now (e :: rest) = e :: timedOut now rest :=
  List.filter_cons_of_pos (decide_eq_true h)

theorem timedOut_cons_alive {now : ℚ} {e : Peer × PlayerInfo} (h : ¬ Expired now e.2)
    (rest : List (Peer × PlayerInfo)) : timedOut now (e :: rest) = timedOut now rest :=
  List.filter_cons_of_neg (by simpa using h)

/-! ## One farewell -/

/-- What is done about one expired entry while the others are still in the table. -/
def farewell (others : List (Peer × PlayerInfo)) (e : Peer × PlayerInfo) : List Action :=
  others.map (fun x => notice x.1 e) ++ [.peerDisconnect e.1, .removed e.1 e.2.netEntityId]

theorem broadcast_others {players : Players} {kept rest : List (Peer × PlayerInfo)}
    {e : Peer × PlayerInfo} (h : players.entries = kept ++ e :: rest) :
    broadcastPlayerDisconnect players e.2.netEntityId e.1 =
      (kept ++ rest).map fun x => notice x.1 e := by
  rw [broadcastPlayerDisconnect, broadcastEntity, ← OrderedMap.keys_erase, OrderedMap.keys,
    OrderedMap.entries_erase h, List.map_map]
  rfl

/-- Everybody in the table is told once, and nobody else. -/
theorem sentTo_farewell {others : List (Peer × PlayerInfo)} (hnodup : (others.map Prod.fst).Nodup)
    (q : Peer) (e : Peer × PlayerInfo) :
    sentTo q (farewell others e) = if q ∈ others.map Prod.fst then [notice q e] else [] := by
  have hsent : sentTo q (farewell others e) =
      ((others.map Prod.fst).filter fun p => p = q).map fun p => notice p e := by
    rw [sentTo, farewell, List.filter_append, List.filter_map, List.filter_map, List.map_map]
    exact List.append_nil _
  rw [hsent, List.filter_eq, hnodup.count]
  split <;> rfl

theorem removals_farewell (others : List (Peer × PlayerInfo)) (e : Peer × PlayerInfo) :
    removals (farewell others e) = [(e.1, e.2.netEntityId)] := by
  have hnone : removals (others.map fun x => notice x.1 e) = [] := by
    simp [removals, notice]
  rw [removals] at hnone
  rw [removals, farewell, List.filterMap_append, hnone]
  rfl

theorem peerDisconnect_farewell (others : List (Peer × PlayerInfo)) (e : Peer × PlayerInfo)
    (p : Peer) : (farewell others e).count (.peerDisconnect p) = [e.1].count p := by
  have hnone : (others.map fun x => notice x.1 e).count (.peerDisconnect p) = 0 := by
    refine List.count_eq_zero_of_not_mem fun hmem => ?_
    obtain ⟨x, -, hx⟩ := List.mem_map.mp hmem
    cases hx
  rw [farewell, List.count_append, hnone, Nat.zero_add]
  simp [List.count_cons]

/-! ## The walk -/

section walk

variable {now : ℚ}
  (R : List (Peer × PlayerInfo) → List (Peer × PlayerInfo) → Players × List Action → Prop)
  (hend : ∀ players, R players.entries [] (players, []))
  (hstay : ∀ kept e rest r, ¬ Expired now e.2 → R (kept ++ [e]) rest r → R kept (e :: rest) r)
  (hout : ∀ kept e rest r, Expired now e.2 → ((kept ++ e :: rest).map Prod.fst).Nodup →
    R kept rest r → R kept (e :: rest) (r.1, farewell (kept ++ rest) e ++ r.2))

include hend hstay hout

theorem checkTimeoutsFrom_walk (rest : List (Peer × PlayerInfo))
    {kept : List (Peer × PlayerInfo)} {players : Players} (h : players.entries = kept ++ rest) :
    R kept rest (checkTimeoutsFrom now (rest.map Prod.fst) players) := by
  induction rest generalizing kept players with
  | nil =>
    rw [List.append_nil] at h
    exact h ▸ hend players
  | cons e rest ih =>
    have hfound : players.find? e.1 = some e.2 := by
      rw [OrderedMap.find?_eq_some, h]
      simp
    rw [List.map_cons, checkTimeoutsFrom, hfound]
    by_cases hexpired : Expired now e.2
    · have hnodup := players.keys_nodup
      rw [OrderedMap.keys, h] at hnodup
      have hnext := hout kept e rest _ hexpired hnodup (ih (OrderedMap.entries_erase h))
      rw [farewell, ← broadcast_others h] at hnext
      have hlate : Rounding.sub now e.2.lastHeartbeat > heartbeatTimeout := hexpired
      simpa only [if_pos hlate] using hnext
    · have hpassed : players.entries = (kept ++ [e]) ++ rest := by
        rw [h, List.append_assoc, List.singleton_append]
      have hnext := hstay kept e rest _ hexpired (ih hpassed)
      have hfresh : ¬ Rounding.sub now e.2.lastHeartbeat > heartbeatTimeout := hexpired
      simpa only [if_neg hfresh] using hnext

/-- The rule of the walk: an entry that stays is passed over, one that goes is taken out with
its farewell to all others still there. -/
theorem checkTimeouts_walk (players : Players) :
    R [] players.entries (checkTimeouts now players) :=
  checkTimeoutsFrom_walk R hend hstay hout players.entries rfl

end walk

theorem checkTimeouts_kept (now : ℚ) (players : Players) :
    (checkTimeouts now players).1.entries =
      players.entries.filter fun e => ¬ Expired now e.2 := by
  refine checkTimeouts_walk (fun kept rest r => r.1.entries =
    kept ++ rest.filter fun e => ¬ Expired now e.2) ?_ ?_ ?_ players
  · simp
  · intro kept e rest r halive hr
    rw [hr, List.append_assoc, List.singleton_append,
      List.filter_cons_of_pos (by simpa using halive)]
  · intro kept e rest r hexpired _ hr
    rw [List.filter_cons_of_neg (by simpa using hexpired)]
    exact hr

theorem checkTimeouts_removals (now : ℚ) (players : Players) :
    removals (checkTimeouts now players).2 =
      (timedOut now players.entries).map fun e => (e.1, e.2.netEntityId) := by
  refine checkTimeouts_walk (fun _ rest r => removals r.2 =
    (timedOut now rest).map fun e => (e.1, e.2.netEntityId)) ?_ ?_ ?_ players
  · exact fun _ => rfl
  · intro kept e rest r halive hr
    rw [timedOut_cons_alive halive, hr]
  · intro kept e rest r hexpired _ hr
    rw [removals_append, removals_farewell, hr, timedOut_cons_expired hexpired]
    rfl

theorem checkTimeouts_peerDisconnects (now : ℚ) (players : Players) (p : Peer) :
    (checkTimeouts now players).2.count (.peerDisconnect p) =
      ((timedOut now players.entries).map Prod.fst).count p := by
  refine checkTimeouts_walk (fun _ rest r => r.2.count (.peerDisconnect p) =
    ((timedOut now rest).map Prod.fst).count p) ?_ ?_ ?_ players
  · exact fun _ => rfl
  · intro kept e rest r halive hr
    rw [timedOut_cons_alive halive, hr]
  · intro kept e rest r hexpired _ hr
    rw [List.count_append, peerDisconnect_farewell, hr, timedOut_cons_expired hexpired]
    exact List.count_append.symm

/-- Whoever is in the table hears of those that go, up to its own removal. -/
theorem checkTimeouts_sentTo (now : ℚ) (players : Players) (q : Peer) :
    sentTo q (checkTimeouts now players).2 =
      if q ∈ players.keys then
        ((timedOut now players.entries).takeWhile fun e => e.1 ≠ q).map (notice q)
      else [] := by
  refine checkTimeouts_walk (fun kept rest r => sentTo q r.2 =
    if q ∈ (kept ++ rest).map Prod.fst then
      ((timedOut now rest).takeWhile fun e => e.1 ≠ q).map (notice q)
    else []) ?_ ?_ ?_ players
  · intro players
    rw [timedOut_nil, List.takeWhile_nil, List.map_nil, ite_self]
    rfl
  · intro kept e rest r halive hr
    rw [timedOut_cons_alive halive, hr, List.append_assoc, List.singleton_append]
  · intro kept e rest r hexpired hnodup hr
    have hsplit := List.nodup_middle.mp (by simpa using hnodup)
    rw [← List.map_append, List.nodup_cons] at hsplit
    rw [sentTo_append, sentTo_farewell hsplit.2, hr, timedOut_cons_expired hexpired]
    by_cases hq : e.1 = q
    · -- it is told nothing more: the broadcast leaves it out, and then it is gone
      subst hq
      rw [if_neg hsplit.1, if_neg hsplit.1, List.takeWhile_cons_of_neg (by simp), List.map_nil,
        ite_self]
      rfl
    · have hmem : q ∈ (kept ++ e :: rest).map Prod.fst ↔ q ∈ (kept ++ rest).map Prod.fst := by
        simp [Ne.symm hq]
      rw [List.takeWhile_cons_of_pos (by simpa using hq), List.map_cons]
      simp only [hmem]
      split <;> rfl

/-! ## The sweep -/

/-- A sweep as a filter of the table, with its farewells. -/
structure Sweeps (now : ℚ) (players : Players) (r : Players × List Action) : Prop where
  /-- Exactly the expired entries go, the others stay as they are. -/
  filtered : r.1.entries = players.entries.filter fun e => ¬ Expired now e.2
  /-- They go in the order of the table. -/
  erased : removals r.2 = (timedOut now players.entries).map fun e => (e.1, e.2.netEntityId)
  hungUp : ∀ p, r.2.count (.peerDisconnect p) =
    if p ∈ (timedOut now players.entries).map Prod.fst then 1 else 0
  /-- A survivor is told once of each player that goes. -/
  survivors : ∀ q ∈ r.1.keys, sentTo q r.2 = (timedOut now players.entries).map (notice q)
  /-- A player that goes was told of those that went before it, and of no other. -/
  leavers : ∀ before p info after, timedOut now players.entries = before ++ (p, info) :: after →
    sentTo p r.2 = before.map (notice p)
  strangers : ∀ q, q ∉ players.keys → sentTo q r.2 = []

theorem timedOut_keys_sublist (now : ℚ) (players : Players) :
    ((timedOut now players.entries).map Prod.fst).Sublist players.keys :=
  List.filter_sublist.map Prod.fst

/-- No other entry of a survivor's key is timed out. -/
theorem timedOut_spares {now : ℚ} {players : Players} {q : Peer} {info : PlayerInfo}
    (hentry : (q, info) ∈ players.entries) (halive : ¬ Expired now info) :
    ∀ e ∈ timedOut now players.entries, e.1 ≠ q := by
  rintro ⟨p, info'⟩ he rfl
  obtain ⟨he, hexpired⟩ := List.mem_filter.mp he
  obtain rfl := players.entries_unique he hentry
  exact halive (of_decide_eq_true hexpired)

theorem checkTimeouts_sweeps (now : ℚ) (players : Players) :
    Sweeps now players (checkTimeouts now players) := by
  have hsublist := timedOut_keys_sublist now players
  have hnodup := hsublist.nodup players.keys_nodup
  have hsent := checkTimeouts_sentTo now players
  refine ⟨checkTimeouts_kept now players, checkTimeouts_removals now players, fun p => ?_,
    fun q hq => ?_, fun before p info after hcut => ?_, fun q hq => ?_⟩
  · exact (checkTimeouts_peerDisconnects now players p).trans hnodup.count
  · obtain ⟨⟨q, info⟩, hkept, rfl⟩ := List.mem_map.mp hq
    rw [checkTimeouts_kept] at hkept
    obtain ⟨hentry, halive⟩ := List.mem_filter.mp hkept
    have hmem : q ∈ players.keys := List.mem_map_of_mem hentry
    have hspared := timedOut_spares hentry (of_decide_eq_true halive)
    rw [hsent, if_pos hmem, List.takeWhile_eq_self_iff.mpr fun e he =>
      decide_eq_true (hspared e he)]
  · have hmem : p ∈ (timedOut now players.entries).map Prod.fst := by
      rw [hcut]
      simp
    rw [hcut, List.map_append] at hnodup
    have hearlier : ∀ e ∈ before, decide (e.1 ≠ p) = true := fun e he =>
      decide_eq_true ((List.nodup_append.mp hnodup).2.2 e.1 (List.mem_map_of_mem he) p (by simp))
    rw [hsent, if_pos (hsublist.subset hmem), hcut, List.takeWhile_append_of_pos hearlier,
      List.takeWhile_cons_of_neg (by simp), List.append_nil]
  · rw [hsent, if_neg hq]

end Fnvmp.Server
