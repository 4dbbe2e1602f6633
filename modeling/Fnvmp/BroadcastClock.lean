import Fnvmp.Cadence
import Fnvmp.Speech

/-!
# When the world is broadcast

The server makes up for every pass that came late. From one pass to another each player that
has somebody to be told about is sent exactly as many world snapshots as intervals have ended
since the server was started, and the clock of the broadcast does not drift. All this is in
exact arithmetic: over doubles a pass may find the accumulator just short of an interval.
-/

namespace Fnvmp.Server

open PackedCodec Protocol

/-- The intervals that have ended. -/
def due (start now : ℚ) : ℕ := ⌊(now - start) / snapshotSendInterval⌋₊

/-- The clock of the broadcast step never goes back. -/
def Clocked : ℚ → List Event → Prop
  | _, [] => True
  | last, .broadcast now :: es => last ≤ now ∧ Clocked now es
  | last, .connect _ _ :: es | last, .receive _ _ _ :: es | last, .disconnect _ :: es
  | last, .checkTimeouts _ :: es => Clocked last es

/-- In a broadcast step the player is in the table and has somebody to be told about. -/
def watches (r : Peer) (s : State) : Event → Bool
  | .broadcast _ => decide (r ∈ s.players.keys) && !(visible s.players.entries r).isEmpty
  | .connect _ _ | .receive _ _ _ | .disconnect _ | .checkTimeouts _ => true

def watching (r : Peer) : State → List Event → Bool
  | _, [] => true
  | s, e :: es =>
    watches r s e && match step s e with
    | some (s', _) => watching r s' es
    | none => true

/-- The world snapshots sent to a player. -/
def worldsTo (r : Peer) (acts : List Action) : ℕ :=
  acts.countP fun
    | .send q .unreliable _ _ => q = r
    | _ => false

section

variable {r : Peer} {acts acts' : List Action} {players : Players} {s s' : State}

@[simp] theorem worldsTo_nil : worldsTo r [] = 0 := rfl

@[simp] theorem worldsTo_append : worldsTo r (acts ++ acts') = worldsTo r acts + worldsTo r acts' :=
  List.countP_append

theorem broadcastEntity_worldless (t : MessageType) (players : Players) (id : UInt32)
    (exclude : Peer) : worldsTo r (broadcastEntity t players id exclude) = 0 := by
  simp [worldsTo, broadcastEntity, List.countP_eq_zero]

theorem checkTimeouts_worldless (now : ℚ) (players : Players) :
    worldsTo r (checkTimeouts now players).2 = 0 := by
  refine checkTimeoutsFrom_rule (fun _ out => worldsTo r out.2 = 0) (fun _ => rfl) ?_ now
    players.keys players
  intro players p info out _ ih
  simp only [worldsTo_append, ih, broadcastPlayerDisconnect, broadcastEntity_worldless]
  rfl

/-- Only a broadcast step sends a world snapshot. -/
theorem step_worldless {e : Event} (he : ∀ now, e ≠ .broadcast now)
    (hs : step s e = some (s', acts)) : worldsTo r acts = 0 := by
  cases e with
  | connect p now =>
    cases hs
    exact broadcastEntity_worldless .playerConnect _ _ _
  | receive p data now =>
    obtain ⟨players', hr, rfl⟩ := step_receive hs
    cases handleReceive_cases hr with
    | refused _ | heartbeat _ _ | snapshot _ _ _ _ => rfl
    | disconnect _ _ =>
      rw [worldsTo_append, broadcastPlayerDisconnect, broadcastEntity_worldless]
      rfl
    | fire _ _ _ _ => exact broadcastEntity_worldless .remoteFire _ _ _
  | disconnect p =>
    cases hs
    simp only [handlePeerGone]
    split
    · rfl
    · rw [worldsTo_append, broadcastPlayerDisconnect, broadcastEntity_worldless]
      rfl
  | checkTimeouts now =>
    cases hs
    exact checkTimeouts_worldless now s.players
  | broadcast now => exact absurd rfl (he now)

theorem packets_worldsTo {entries : List (Peer × PlayerInfo)} {keys : List Peer}
    (hnodup : keys.Nodup) : worldsTo r (keys.flatMap (packetFor entries)) =
      if r ∈ keys ∧ visible entries r ≠ [] then 1 else 0 := by
  have hown : ∀ q, worldsTo r (packetFor entries q) =
      if q = r ∧ visible entries r ≠ [] then 1 else 0 := by
    intro q
    unfold packetFor
    by_cases hq : q = r
    · subst hq
      by_cases hnone : visible entries q = [] <;> simp [hnone, worldsTo]
    · by_cases hnone : visible entries q = [] <;> simp [hnone, worldsTo, hq]
  induction keys with
  | nil => simp
  | cons q keys ih =>
    obtain ⟨hout, hnodup⟩ := List.nodup_cons.mp hnodup
    rw [List.flatMap_cons, worldsTo_append, hown, ih hnodup]
    by_cases hq : q = r
    · subst hq
      simp [hout]
    · simp [hq, Ne.symm hq]

/-- One broadcast sends a watching player one snapshot. -/
theorem broadcast_worldsTo (hr : r ∈ players.keys) (hseen : visible players.entries r ≠ [])
    (hs : broadcastWorldSnapshots players = some acts) : worldsTo r acts = 1 := by
  rw [broadcastWorldSnapshots_eq] at hs
  split at hs
  · cases hs
    rw [packets_worldsTo players.keys_nodup, if_pos ⟨hr, hseen⟩]
  · cases hs

theorem interval_pos : 0 < snapshotSendInterval := by decide +kernel

/-- The loop makes all its passes as long as an interval is left for each. -/
theorem broadcastLoop_passes {n : ℕ} {accum rest : ℚ} (hn : n * snapshotSendInterval ≤ accum)
    (hs : broadcastLoop players n accum = some (rest, acts)) :
    rest = accum - n * snapshotSendInterval ∧
      (r ∈ players.keys ∧ visible players.entries r ≠ [] → worldsTo r acts = n) := by
  induction n generalizing accum acts with
  | zero =>
    cases hs
    simp
  | succ n ih =>
    have hpos : 0 ≤ n * snapshotSendInterval := mul_nonneg n.cast_nonneg interval_pos.le
    push_cast at hn
    rw [broadcastLoop, if_pos (by linarith)] at hs
    obtain ⟨out, hout, hrest⟩ := Option.bind_eq_some_iff.mp hs
    obtain ⟨⟨left, more⟩, hmore, heq⟩ := Option.map_eq_some_iff.mp hrest
    cases heq
    obtain ⟨hleft, hcount⟩ := ih (by linarith) hmore
    refine ⟨?_, fun hwatching => ?_⟩
    · rw [hleft]
      push_cast
      ring
    · rw [worldsTo_append, broadcast_worldsTo hwatching.1 hwatching.2 hout, hcount hwatching,
        Nat.add_comm]

end

/-! ## The clock -/

/-- What the accumulator holds belongs to the interval that has begun. -/
structure OnTime (start : ℚ) (s : State) : Prop where
  begun : start ≤ s.lastBroadcastTime
  accum : s.broadcastAccum =
    s.lastBroadcastTime - start - due start s.lastBroadcastTime * snapshotSendInterval

section

variable {start now : ℚ} {r : Peer} {s s' : State} {acts : List Action} {es : List Event}

theorem due_mono {t t' : ℚ} (h : t ≤ t') : due start t ≤ due start t' :=
  Nat.floor_mono (div_le_div_of_nonneg_right (sub_le_sub_right h start) interval_pos.le)

/-- The passes of a step are the intervals that have ended since the last one. -/
theorem OnTime.passes (hs : OnTime start s) :
    ⌊(s.broadcastAccum + (now - s.lastBroadcastTime)) / snapshotSendInterval⌋₊ =
      due start now - due start s.lastBroadcastTime := by
  have hsplit : (s.broadcastAccum + (now - s.lastBroadcastTime)) / snapshotSendInterval =
      (now - start) / snapshotSendInterval - due start s.lastBroadcastTime := by
    have hne := interval_pos.ne'
    rw [div_eq_iff hne, sub_mul, div_mul_cancel₀ _ hne, hs.accum]
    ring
  rw [hsplit, Nat.floor_sub_natCast]
  rfl

theorem OnTime.broadcast (hs : OnTime start s) (hlate : s.lastBroadcastTime ≤ now)
    (hstep : step s (.broadcast now) = some (s', acts)) :
    s'.lastBroadcastTime = now ∧ OnTime start s' ∧
      (r ∈ s.players.keys ∧ visible s.players.entries r ≠ [] →
        worldsTo r acts = due start now - due start s.lastBroadcastTime) := by
  obtain ⟨⟨rest, acts'⟩, hloop, heq⟩ := Option.map_eq_some_iff.mp hstep
  cases heq
  have hmono : due start s.lastBroadcastTime ≤ due start now := due_mono hlate
  rw [hs.passes] at hloop
  have hroom : ((due start now - due start s.lastBroadcastTime : ℕ) : ℚ) * snapshotSendInterval ≤
      s.broadcastAccum + (now - s.lastBroadcastTime) := by
    have hfloor : (due start now : ℚ) * snapshotSendInterval ≤ now - start := by
      have hnonneg : 0 ≤ (now - start) / snapshotSendInterval :=
        div_nonneg (by linarith [hs.begun]) interval_pos.le
      exact (le_div_iff₀ interval_pos).mp (Nat.floor_le hnonneg)
    rw [Nat.cast_sub hmono, hs.accum]
    linarith
  obtain ⟨hrest, hcount⟩ := broadcastLoop_passes hroom hloop
  refine ⟨rfl, ⟨hs.begun.trans hlate, ?_⟩, hcount⟩
  change rest = _
  rw [hrest, Nat.cast_sub hmono, hs.accum]
  ring

/-- No other step touches the clock. -/
theorem step_clock {e : Event} (he : ∀ now, e ≠ .broadcast now)
    (hs : step s e = some (s', acts)) :
    s'.lastBroadcastTime = s.lastBroadcastTime ∧ s'.broadcastAccum = s.broadcastAccum := by
  cases e with
  | connect p now =>
    cases hs
    exact ⟨rfl, rfl⟩
  | receive p data now =>
    obtain ⟨players', -, rfl⟩ := step_receive hs
    exact ⟨rfl, rfl⟩
  | disconnect p =>
    cases hs
    exact ⟨rfl, rfl⟩
  | checkTimeouts now =>
    cases hs
    exact ⟨rfl, rfl⟩
  | broadcast now => exact absurd rfl (he now)

theorem Clocked.other {last : ℚ} {e : Event} (he : ∀ now, e ≠ .broadcast now)
    (h : Clocked last (e :: es)) : Clocked last es := by
  cases e with
  | broadcast now => exact absurd rfl (he now)
  | connect | receive | disconnect | checkTimeouts => exact h

theorem watching_cons {e : Event} (h : watching r s (e :: es) = true)
    (hs : step s e = some (s', acts)) :
    (∀ now, e = .broadcast now → r ∈ s.players.keys ∧ visible s.players.entries r ≠ []) ∧
      watching r s' es = true := by
  rw [watching, hs, Bool.and_eq_true] at h
  refine ⟨?_, h.2⟩
  rintro now rfl
  simpa [watches] using h.1

theorem OnTime.run (hs : OnTime start s) (hclock : Clocked s.lastBroadcastTime es)
    (hrun : run s es = some (s', acts)) :
    OnTime start s' ∧ s.lastBroadcastTime ≤ s'.lastBroadcastTime ∧
      (watching r s es = true →
        worldsTo r acts = due start s'.lastBroadcastTime - due start s.lastBroadcastTime) := by
  induction es generalizing s acts with
  | nil =>
    cases hrun
    exact ⟨hs, le_rfl, fun _ => (Nat.sub_self _).symm⟩
  | cons e es ih =>
    obtain ⟨mid, out, more, hstep, hmore, rfl⟩ := EventRun.exec_cons_eq_some.mp hrun
    by_cases he : ∃ now, e = .broadcast now
    · obtain ⟨now, rfl⟩ := he
      obtain ⟨hlate, hclock⟩ := hclock
      obtain ⟨hnow, hmid, hcount⟩ := hs.broadcast hlate hstep
      obtain ⟨hend, hle, hrest⟩ := ih hmid (hnow ▸ hclock) hmore
      rw [hnow] at hle hrest
      refine ⟨hend, hlate.trans hle, fun hwatching => ?_⟩
      have hfirst : due start s.lastBroadcastTime ≤ due start now := due_mono hlate
      have hlast : due start now ≤ due start s'.lastBroadcastTime := due_mono hle
      obtain ⟨hseen, hlater⟩ := watching_cons hwatching hstep
      rw [worldsTo_append, hcount (hseen now rfl), hrest hlater]
      omega
    · have hother : ∀ now, e ≠ .broadcast now := fun now heq => he ⟨now, heq⟩
      obtain ⟨htime, haccum⟩ := step_clock hother hstep
      have hmid : OnTime start mid := ⟨htime ▸ hs.begun, by rw [haccum, htime]; exact hs.accum⟩
      obtain ⟨hend, hle, hrest⟩ := ih hmid (htime ▸ hclock.other hother) hmore
      rw [htime] at hle hrest
      refine ⟨hend, hle, fun hwatching => ?_⟩
      rw [worldsTo_append, step_worldless hother hstep, Nat.zero_add]
      exact hrest (watching_cons hwatching hstep).2

theorem start_onTime (now : ℚ) : OnTime now (Server.start now) := by
  refine ⟨le_rfl, ?_⟩
  simp [Server.start, due]

theorem run_clocked {es' : List Event} (hclock : Clocked s.lastBroadcastTime (es ++ es'))
    (hrun : run s es = some (s', acts)) :
    Clocked s.lastBroadcastTime es ∧ Clocked s'.lastBroadcastTime es' := by
  induction es generalizing s acts with
  | nil =>
    cases hrun
    exact ⟨trivial, hclock⟩
  | cons e es ih =>
    obtain ⟨mid, out, more, hstep, hmore, rfl⟩ := EventRun.exec_cons_eq_some.mp hrun
    cases e with
    | broadcast now =>
      obtain ⟨hlate, hclock⟩ := hclock
      obtain ⟨_, _, _, _, rfl⟩ := step_broadcast hstep
      obtain ⟨hfirst, hlast⟩ := ih hclock hmore
      exact ⟨⟨hlate, hfirst⟩, hlast⟩
    | connect | receive | disconnect | checkTimeouts =>
      have htime := (step_clock (by simp) hstep).1
      obtain ⟨hfirst, hlast⟩ := ih (htime ▸ hclock) hmore
      exact ⟨htime ▸ hfirst, hlast⟩

end

/-- From any point of a run to any later one a player that is in the table and has somebody to
be told about, whenever the world is broadcast, is sent one world snapshot for each interval
since the start that ended in between, however late and unevenly the passes come, and every
pass ends with the loop's own condition. -/
theorem broadcasts_on_schedule {start : ℚ} {es es' : List Event} {s s' : State}
    {acts acts' : List Action} {r : Peer} (hclock : Clocked start (es ++ es'))
    (hrun : run (Server.start start) es = some (s, acts)) (hrun' : run s es' = some (s', acts'))
    (hwatching : watching r s es' = true) :
    worldsTo r acts' = due start s'.lastBroadcastTime - due start s.lastBroadcastTime ∧
      s'.broadcastAccum =
        s'.lastBroadcastTime - start - due start s'.lastBroadcastTime * snapshotSendInterval ∧
      ∀ now next out, step s' (.broadcast now) = some (next, out) →
        next.broadcastAccum < snapshotSendInterval := by
  obtain ⟨hfirst, hlast⟩ := run_clocked hclock hrun
  obtain ⟨hs, -, -⟩ := (start_onTime start).run (r := r) hfirst hrun
  obtain ⟨hs', -, hcount⟩ := hs.run hlast hrun'
  exact ⟨hcount hwatching, hs'.accum, fun now next out hnext => step_broadcast_accum hnext⟩

/-- Two players of whom one has reported itself. -/
def oneReport : List Event :=
  [.connect 1 0, .connect 2 0, .receive 1 (msgPlayerSnapshot.encode (.still 0 1 7)) 0]

/-- Passes after a twentieth and a tenth of a second: the three intervals of a thirtieth come to
one and two. -/
theorem broadcasts_on_schedule_uneven : ∃ s acts s' acts',
    run (start 0) (oneReport ++ [.broadcast (1 / 20)]) = some (s, acts) ∧
      run s [.broadcast (1 / 10)] = some (s', acts') ∧ worldsTo 2 acts' = 2 := by
  have hboth : ((run (start 0) (oneReport ++ [.broadcast (1 / 20)])).bind fun r =>
      (run r.1 [.broadcast (1 / 10)]).map fun r' =>
        (watching 2 r.1 [.broadcast (1 / 10)], due 0 r.1.lastBroadcastTime,
          due 0 r'.1.lastBroadcastTime)) = some (true, 1, 3) := by decide +kernel
  obtain ⟨⟨s, acts⟩, hrun, hrest⟩ := Option.bind_eq_some_iff.mp hboth
  obtain ⟨⟨s', acts'⟩, hrun', heq⟩ := Option.map_eq_some_iff.mp hrest
  obtain ⟨hwatching, hdue⟩ := Prod.mk.inj heq
  obtain ⟨hfirst, hlast⟩ := Prod.mk.inj hdue
  have hclock : Clocked 0 ((oneReport ++ [.broadcast (1 / 20)]) ++ [.broadcast (1 / 10)]) :=
    ⟨by decide +kernel, by decide +kernel, trivial⟩
  have hcount := (broadcasts_on_schedule hclock hrun hrun' hwatching).1
  rw [hfirst, hlast] at hcount
  exact ⟨s, acts, s', acts', hrun, hrun', hcount⟩

end Fnvmp.Server
