import Fnvmp.Server

/-!
# The packets of a world snapshot broadcast

What the two nested loops over the shared stack buffer put on the wire: for each
recipient the states of all other players with a snapshot, in table order, or no
packet at all. The loops run to their end exactly when the buffer is large enough.
-/

namespace Fnvmp.Server

open PackedCodec Protocol

/-- The players a recipient is told about, in table order. -/
def others (entries : List (Peer × PlayerInfo)) (recipient : Peer) : List (Peer × PlayerInfo) :=
  entries.filter fun e => e.1 ≠ recipient ∧ e.2.hasSnapshot = true

def visible (entries : List (Peer × PlayerInfo)) (recipient : Peer) : List EntityState :=
  (others entries recipient).map fun e => e.2.entityState

/-- The wire form of a world snapshot. -/
def encodeWorld (states : List EntityState) : List UInt8 :=
  header (UInt16.ofNat states.length) ++ entityState.encodeMany states

@[simp] theorem header_length (n : UInt16) : (header n).length = 3 := by simp [header]

@[simp] theorem encodeWorld_length (states : List EntityState) :
    (encodeWorld states).length = 3 + states.length * 29 := by
  simp [encodeWorld]

/-- A client reads back the states of a world snapshot. -/
theorem parse_encodeWorld {states : List EntityState} (h : states.length ≤ maxPlayers) :
    ServerMessage.parse (encodeWorld states) = some (.worldSnapshot states) := by
  have hmax : maxPlayers = 8 := rfl
  exact ServerMessage.parse_worldSnapshot states (by omega)

theorem visible_cons_hidden {e : Peer × PlayerInfo} {rest : List (Peer × PlayerInfo)}
    {recipient : Peer} (h : e.1 = recipient ∨ e.2.hasSnapshot = false) :
    visible (e :: rest) recipient = visible rest recipient := by
  rcases h with h | h <;> simp [visible, others, h]

theorem visible_cons_shown {e : Peer × PlayerInfo} {rest : List (Peer × PlayerInfo)}
    {recipient : Peer} (hne : e.1 ≠ recipient) (h : e.2.hasSnapshot = true) :
    visible (e :: rest) recipient = e.2.entityState :: visible rest recipient := by
  simp [visible, others, hne, h]

theorem count_toNat {n : Nat} (h : n ≤ maxPlayers) : (UInt16.ofNat n).toNat = n := by
  have hmax : maxPlayers = 8 := rfl
  simpa using Nat.mod_eq_of_lt (show n < 2 ^ 16 by omega)

theorem count_succ (states : List EntityState) (es : EntityState) :
    UInt16.ofNat states.length + 1 = UInt16.ofNat (states ++ [es]).length := by
  simp [UInt16.ofNat_add]

/-- Appending one state: it lands right behind those already there. -/
theorem append_state (done : List EntityState) (junk : List UInt8) (es : EntityState)
    (hdone : done.length < maxPlayers) (hlen : (encodeWorld done ++ junk).length = bufSize) :
    ((writeAt (encodeWorld done ++ junk)
      (msgWorldSnapshotHeader.size + (UInt16.ofNat done.length).toNat * entityState.size)
      (entityState.encode es)).bind fun buf =>
        writeAt buf 0 (header (UInt16.ofNat done.length + 1))) =
      some (encodeWorld (done ++ [es]) ++ junk.drop entityState.size) := by
  have hmax : maxPlayers = 8 := rfl
  have hbuf : bufSize = 235 := rfl
  have hjunk : 29 ≤ junk.length := by
    simp only [List.length_append, encodeWorld_length] at hlen
    omega
  have hoff : msgWorldSnapshotHeader.size + (UInt16.ofNat done.length).toNat * entityState.size =
      (encodeWorld done).length := by
    rw [count_toNat hdone.le, encodeWorld_length]
    rfl
  have hfirst := writeAt_append (encodeWorld done) (junk.take 29) (junk.drop 29)
    (entityState.encode es) (by simp [hjunk])
  have hsecond := writeAt_append [] (header (UInt16.ofNat done.length))
    (entityState.encodeMany done ++ entityState.encode es ++ junk.drop 29)
    (header (UInt16.ofNat done.length + 1)) (by simp)
  have hold : encodeWorld done ++ junk = encodeWorld done ++ junk.take 29 ++ junk.drop 29 := by
    rw [List.append_assoc, List.take_append_drop]
  have hmid : encodeWorld done ++ entityState.encode es ++ junk.drop 29 =
      [] ++ header (UInt16.ofNat done.length) ++
        (entityState.encodeMany done ++ entityState.encode es ++ junk.drop 29) := by
    simp [encodeWorld]
  have hnew : [] ++ header (UInt16.ofNat done.length + 1) ++
      (entityState.encodeMany done ++ entityState.encode es ++ junk.drop 29) =
      encodeWorld (done ++ [es]) ++ junk.drop entityState.size := by
    rw [count_succ done es]
    simp [encodeWorld, Codec.encodeMany_append]
  rw [hoff, hold, hfirst, Option.bind_some, hmid]
  exact hsecond.trans (congrArg some hnew)

theorem append_state_overrun (done : List EntityState) (junk : List UInt8) (es : EntityState)
    (hdone : done.length = maxPlayers) (hlen : (encodeWorld done ++ junk).length = bufSize) :
    writeAt (encodeWorld done ++ junk)
      (msgWorldSnapshotHeader.size + (UInt16.ofNat done.length).toNat * entityState.size)
      (entityState.encode es) = none := by
  have hmax : maxPlayers = 8 := rfl
  have hbuf : bufSize = 235 := rfl
  rw [count_toNat hdone.le, writeAt, if_neg]
  simp only [msgWorldSnapshotHeader_size, entityState_size, Codec.encode_length, hlen]
  omega

/-- The inner loop on any suffix of the table, with the states already written. -/
theorem fillStates_eq (recipient : Peer) (entries : List (Peer × PlayerInfo))
    (done : List EntityState) (junk : List UInt8) (hdone : done.length ≤ maxPlayers)
    (hlen : (encodeWorld done ++ junk).length = bufSize) :
    fillStates recipient entries (UInt16.ofNat done.length) (encodeWorld done ++ junk) =
      if (done ++ visible entries recipient).length ≤ maxPlayers then
        some (UInt16.ofNat (done ++ visible entries recipient).length,
          encodeWorld (done ++ visible entries recipient) ++
            junk.drop ((visible entries recipient).length * entityState.size))
      else none := by
  induction entries generalizing done junk with
  | nil => simp [fillStates, visible, others, hdone]
  | cons e rest ih =>
    obtain ⟨other, pi⟩ := e
    simp only [fillStates]
    split
    · rename_i heq
      rw [ih done junk hdone hlen, visible_cons_hidden (.inl heq)]
    · rename_i hne
      split
      · rename_i hsnap
        rw [ih done junk hdone hlen, visible_cons_hidden (.inr hsnap)]
      · rename_i hsnap
        have hsnap' : pi.hasSnapshot = true := by simpa using hsnap
        rw [visible_cons_shown hne hsnap']
        by_cases hfull : done.length < maxPlayers
        · have hlen' : (encodeWorld (done ++ [pi.entityState]) ++
              junk.drop entityState.size).length = bufSize := by
            have hbuf : bufSize = 235 := rfl
            have hmax : maxPlayers = 8 := rfl
            simp only [List.length_append, encodeWorld_length, List.length_drop, List.length_cons,
              List.length_nil, entityState_size] at hlen ⊢
            omega
          have hnext := ih (done ++ [pi.entityState]) (junk.drop entityState.size)
            (by simpa [Nat.succ_le_iff] using hfull) hlen'
          have hdrop : entityState.size + (visible rest recipient).length * entityState.size =
              (pi.entityState :: visible rest recipient).length * entityState.size := by
            rw [List.length_cons, Nat.succ_mul, Nat.add_comm]
          rw [← Option.bind_assoc, append_state done junk pi.entityState hfull hlen,
            Option.bind_some, count_succ done pi.entityState, hnext]
          simp only [List.append_assoc, List.singleton_append, List.drop_drop, hdrop]
        · have hmax : done.length = maxPlayers := le_antisymm hdone (not_lt.mp hfull)
          rw [append_state_overrun done junk pi.entityState hmax hlen, Option.bind_none, if_neg]
          simp only [List.length_append, List.length_cons]
          omega

/-- The packet a recipient gets, if any. -/
def packetFor (entries : List (Peer × PlayerInfo)) (recipient : Peer) : List Action :=
  if visible entries recipient = [] then []
  else [.send recipient .unreliable (encodeWorld (visible entries recipient)) .unsequenced]

/-- One recipient: its packet, and a buffer of unchanged size for the next one. -/
theorem snapshotFor_eq (players : Players) (recipient : Peer) (buf : List UInt8)
    (hbuf : buf.length = bufSize) :
    (∃ buf', buf'.length = bufSize ∧
      snapshotFor players recipient buf =
        if (visible players.entries recipient).length ≤ maxPlayers then
          some (packetFor players.entries recipient, buf')
        else none) := by
  have hsize : bufSize = 235 := rfl
  have hmax : maxPlayers = 8 := rfl
  have hstart : writeAt buf 0 (header 0) = some (encodeWorld [] ++ buf.drop 3) := by
    have h := writeAt_append [] (buf.take 3) (buf.drop 3) (header 0) (by simp; omega)
    simpa [encodeWorld] using h
  have hlen : (encodeWorld [] ++ buf.drop 3).length = bufSize := by
    simp
    omega
  have hfill := fillStates_eq recipient players.entries [] (buf.drop 3) (by simp) hlen
  simp only [List.nil_append, List.length_nil] at hfill
  have hzero : UInt16.ofNat 0 = 0 := rfl
  rw [hzero] at hfill
  by_cases hfit : (visible players.entries recipient).length ≤ maxPlayers
  · let buf' := encodeWorld (visible players.entries recipient) ++
      (buf.drop 3).drop ((visible players.entries recipient).length * entityState.size)
    refine ⟨buf', ?_, ?_⟩
    · simp only [buf', List.length_append, encodeWorld_length, List.length_drop, entityState_size]
      omega
    · have htake : buf'.take (msgWorldSnapshotHeader.size +
          (visible players.entries recipient).length * entityState.size) =
          encodeWorld (visible players.entries recipient) := by
        rw [List.take_append_of_le_length (by simp), List.take_of_length_le (by simp)]
      have hnone : UInt16.ofNat (visible players.entries recipient).length = 0 ↔
          visible players.entries recipient = [] := by
        rw [← UInt16.toNat_inj, count_toNat hfit]
        simp
      simp only [snapshotFor, hstart, Option.bind_some, hfill, hfit, ↓reduceIte, Option.map_some,
        hnone, packetFor, count_toNat hfit]
      split
      · rfl
      · rw [htake]
  · refine ⟨buf, hbuf, ?_⟩
    simp only [snapshotFor, hstart, Option.bind_some, hfill, hfit, ↓reduceIte, Option.map_none]

theorem snapshotLoop_eq (players : Players) (recipients : List Peer) (buf : List UInt8)
    (hbuf : buf.length = bufSize) :
    snapshotLoop players recipients buf =
      if ∀ r ∈ recipients, (visible players.entries r).length ≤ maxPlayers then
        some (recipients.flatMap (packetFor players.entries))
      else none := by
  induction recipients generalizing buf with
  | nil => simp [snapshotLoop]
  | cons r rest ih =>
    obtain ⟨buf', hlen, heq⟩ := snapshotFor_eq players r buf hbuf
    rw [snapshotLoop, heq]
    by_cases hfit : (visible players.entries r).length ≤ maxPlayers
    · simp only [hfit, ↓reduceIte, Option.bind_some, ih buf' hlen, List.mem_cons,
        forall_eq_or_imp, true_and]
      split <;> simp
    · simp [hfit]

/-- The whole broadcast: one packet for each recipient that has somebody to be told
about, unless some recipient would be told about more players than the buffer holds. -/
theorem broadcastWorldSnapshots_eq (players : Players) :
    broadcastWorldSnapshots players =
      if ∀ r ∈ players.keys, (visible players.entries r).length ≤ maxPlayers then
        some (players.keys.flatMap (packetFor players.entries))
      else none := by
  unfold broadcastWorldSnapshots
  split
  · rename_i hsize
    have hnone : ∀ r ∈ players.keys, visible players.entries r = [] := by
      intro r hr
      unfold OrderedMap.keys at hr
      unfold OrderedMap.size at hsize
      rcases hentries : players.entries with - | ⟨e, - | ⟨e', rest⟩⟩
      · rfl
      · rw [hentries] at hr
        have her : e.1 = r := by
          simp only [List.map_cons, List.map_nil, List.mem_singleton] at hr
          exact hr.symm
        exact visible_cons_hidden (.inl her)
      · simp only [hentries, List.length_cons] at hsize
        omega
    rw [if_pos fun r hr => by simp [hnone r hr]]
    refine congrArg some (List.flatMap_eq_nil_iff.mpr fun r hr => ?_).symm
    simp [packetFor, hnone r hr]
  · exact snapshotLoop_eq players players.keys _ (by simp)

end Fnvmp.Server
