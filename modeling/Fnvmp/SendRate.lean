import Fnvmp.Avatars
import Fnvmp.Cadence
import Fnvmp.Detection

/-!
# The rate of the player snapshots

The accumulator of the sender keeps all the time that has passed. What a long frame has
left in it is sent out afterwards, one snapshot in each frame.
-/

namespace Fnvmp.Detection

open ExactFloat Engine Protocol Net

/-- The player snapshots among packets. -/
def snapshots (sent : List Sent) : Nat :=
  sent.countP fun p => decide (p.data.head? = some MessageType.playerSnapshot.code)

/-! ## What the parts of the loop send -/

theorem snapshots_heartbeat (net : NetClient) : snapshots (sendHeartbeat net) = 0 := by
  unfold sendHeartbeat send
  split <;> rfl

theorem snapshots_handleReceive {net net' : NetClient} {data : List UInt8} {sent : List Sent}
    (h : handleReceive net data = some (net', sent)) : snapshots sent = 0 := by
  rw [handleReceive_eq] at h
  cases hmsg : ServerMessage.parse data with
  | none =>
    rw [hmsg] at h
    cases h
    rfl
  | some msg =>
    rw [hmsg] at h
    cases msg with
    | connectAck id =>
      cases h
      exact snapshots_heartbeat _
    | disconnect | worldSnapshot | playerConnect | playerDisconnect | remoteFire =>
      cases h
      rfl

theorem snapshots_append (sent more : List Sent) :
    snapshots (sent ++ more) = snapshots sent + snapshots more := List.countP_append

theorem snapshots_drain {waiting : List Net.HostEvent} {net net' : NetClient} {sent : List Sent}
    (h : drain net waiting = some (net', sent)) : snapshots sent = 0 := by
  induction waiting generalizing net sent with
  | nil =>
    cases h
    rfl
  | cons e waiting ih =>
    obtain ⟨⟨mid, first⟩, hfirst, hrest⟩ := Option.bind_eq_some_iff.mp h
    obtain ⟨⟨last, rest⟩, hlast, heq⟩ := Option.map_eq_some_iff.mp hrest
    cases heq
    rw [snapshots_append, ih hlast, Nat.add_zero]
    cases e with
    | connect | disconnect =>
      cases hfirst
      rfl
    | receive data => exact snapshots_handleReceive hfirst

/-- Polling sends heartbeats only. -/
theorem snapshots_poll {net net' : NetClient} {dt : ℚ} {waiting : List Net.HostEvent}
    {sent : List Sent} (h : poll net dt waiting = some (net', sent)) : snapshots sent = 0 := by
  unfold poll at h
  split at h
  · cases h
    rfl
  · obtain ⟨⟨mid, first⟩, hdrain, heq⟩ := Option.map_eq_some_iff.mp h
    have hfirst := snapshots_drain hdrain
    dsimp only at heq
    split at heq
    · split at heq
      · cases heq
        rw [snapshots_append, hfirst, snapshots_heartbeat]
      · cases heq
        exact hfirst
    · cases heq
      exact hfirst

variable (x : Expressions) (net : NetClient) (w : World) (player : Player)

theorem detectAction_quiet (s : Sender) :
    snapshots (detectAction x net w player s).2 = 0 ∧
      (detectAction x net w player s).1.snapshotAccum = s.snapshotAccum := by
  unfold detectAction
  split
  · dsimp only
    refine ⟨?_, by split <;> split <;> rfl⟩
    unfold sendFireEvent send
    split
    · split
      · split <;> rfl
      · rfl
    · rfl
  · exact ⟨rfl, rfl⟩

/-- Connected, and a savegame is loaded. -/
def Loaded (net : NetClient) (w : World) : Prop :=
  net.connected = true ∧ w.thePlayer = true ∧ w.playerCell ≠ 0

theorem weaponFallback_accum (s : Sender) :
    (weaponFallback x player s).snapshotAccum = s.snapshotAccum := by
  unfold weaponFallback
  split <;> rfl

theorem snapshots_sendPlayerSnapshot (hconnected : net.connected = true)
    (snapshot : MsgPlayerSnapshot) :
    snapshots (sendPlayerSnapshot net snapshot).2 = if net.peer then 1 else 0 := by
  unfold sendPlayerSnapshot send
  rw [if_pos hconnected]
  dsimp only
  split <;> rfl

/-- With a savegame loaded the sender is an accumulator that fires snapshots. -/
theorem sendSnapshot_cadence (libm : Libm FloatVal) (dt : ℚ) (s : Sender)
    (hloaded : Loaded net w) :
    (sendSnapshot x net w player libm dt s).1.snapshotAccum =
      (Cadence.tick snapshotSendInterval s.snapshotAccum dt).1 ∧
    snapshots (sendSnapshot x net w player libm dt s).2.2 =
      if net.peer then (Cadence.tick snapshotSendInterval s.snapshotAccum dt).2 else 0 := by
  obtain ⟨hconnected, hplayer, hcell⟩ := hloaded
  rw [sendSnapshot, Cadence.tick, if_pos (by simp [hconnected, hplayer, hcell])]
  dsimp only
  split
  · refine ⟨?_, snapshots_sendPlayerSnapshot net hconnected _⟩
    simp only [weaponFallback_accum]
  · refine ⟨rfl, ?_⟩
    split <;> rfl

theorem sendSnapshot_idle (libm : Libm FloatVal) (dt : ℚ) (s : Sender)
    (hidle : ¬ Loaded net w) :
    sendSnapshot x net w player libm dt s = (s, net, []) := by
  rw [sendSnapshot, if_neg]
  simpa [Loaded, and_assoc] using hidle

/-! ## Frames of the sender -/

/-- With a savegame loaded a frame of the sender is a tick of the accumulator. -/
theorem sendFrame_loaded (libm : Libm FloatVal) (s : Sender) {t : Moment}
    (hloaded : Loaded net t.world) :
    (sendFrame x libm (net, s) t).1.2.snapshotAccum =
      (Cadence.tick snapshotSendInterval s.snapshotAccum t.dt).1 ∧
    snapshots (sendFrame x libm (net, s) t).2 =
      if net.peer then (Cadence.tick snapshotSendInterval s.snapshotAccum t.dt).2 else 0 := by
  obtain ⟨hfires, hkept⟩ := detectAction_quiet x net t.world t.player s
  have hsend := sendSnapshot_cadence x net t.world t.player libm t.dt
    (detectAction x net t.world t.player s).1 hloaded
  rw [hkept] at hsend
  rw [sendFrame]
  dsimp only
  rw [snapshots_append, hfires, Nat.zero_add]
  exact hsend

theorem sendFrame_idle (libm : Libm FloatVal) (s : Sender) {t : Moment}
    (hidle : ¬ Loaded net t.world) :
    (sendFrame x libm (net, s) t).1.2.snapshotAccum = s.snapshotAccum ∧
      snapshots (sendFrame x libm (net, s) t).2 = 0 := by
  obtain ⟨hfires, hkept⟩ := detectAction_quiet x net t.world t.player s
  rw [sendFrame]
  dsimp only
  rw [sendSnapshot_idle x net t.world t.player libm t.dt _ hidle, snapshots_append, hfires]
  exact ⟨hkept, rfl⟩

/-- Sending leaves the connection as it is. -/
theorem sendFrame_link (libm : Libm FloatVal) (s : Sender) (t : Moment) :
    (sendFrame x libm (net, s) t).1.1.connected = net.connected ∧
      (sendFrame x libm (net, s) t).1.1.peer = net.peer := by
  rw [sendFrame]
  dsimp only
  unfold sendSnapshot
  split
  · dsimp only
    split
    · unfold sendPlayerSnapshot
      split <;> exact ⟨rfl, rfl⟩
    · exact ⟨rfl, rfl⟩
  · exact ⟨rfl, rfl⟩

/-- What the sender sends over frames of its own. -/
def sendFrames (libm : Libm FloatVal) : NetClient × Sender → List Moment → List Sent
  | _, [] => []
  | s, t :: ts =>
    let r := sendFrame x libm s t
    r.2 ++ sendFrames libm r.1 ts

/-- With a savegame loaded all the time every interval fires. -/
theorem sendFrames_cadence (libm : Libm FloatVal) {net : NetClient}
    (hconnected : net.connected = true) (hpeer : net.peer = true) (s : Sender)
    {moments : List Moment}
    (hloaded : ∀ t ∈ moments, t.world.thePlayer = true ∧ t.world.playerCell ≠ 0) :
    snapshots (sendFrames x libm (net, s) moments) =
      (Cadence.run snapshotSendInterval s.snapshotAccum (moments.map Moment.dt)).2 := by
  induction moments generalizing net s with
  | nil => rfl
  | cons t ts ih =>
    obtain ⟨hleft, hsent⟩ := sendFrame_loaded x net libm s
      (t := t) ⟨hconnected, hloaded t List.mem_cons_self⟩
    obtain ⟨hconnected', hpeer'⟩ := sendFrame_link x net libm s t
    have hrest := ih (hconnected'.trans hconnected) (hpeer'.trans hpeer)
      (sendFrame x libm (net, s) t).1.2 fun t' ht' => hloaded t' (List.mem_cons_of_mem t ht')
    rw [sendFrames]
    rw [snapshots_append, hsent, if_pos hpeer, hrest, hleft, List.map_cons, Cadence.run]

/-! ## Runs of the main loop -/

/-- A run is a run of the accumulator over the frames with a savegame loaded. -/
theorem run_cadence {libm : Libm FloatVal} {g g' : Game} {ticks : List Tick} {sent : List Sent}
    (hrun : EventRun.exec (mainGameLoop x libm) g ticks = some (g', sent)) :
    ∃ dts, dts.Sublist (ticks.map fun t => t.frame.dt) ∧
      g'.sender.snapshotAccum =
        (Cadence.run snapshotSendInterval g.sender.snapshotAccum dts).1 ∧
      snapshots sent ≤ (Cadence.run snapshotSendInterval g.sender.snapshotAccum dts).2 := by
  induction ticks generalizing g sent with
  | nil =>
    cases hrun
    exact ⟨[], .slnil, rfl, le_rfl⟩
  | cons t ticks ih =>
    obtain ⟨mid, first, rest, hfirst, hrest, rfl⟩ := EventRun.exec_cons_eq_some.mp hrun
    obtain ⟨dts, hdts, haccum, hcount⟩ := ih hrest
    obtain ⟨plugin, received, hframe, hstate, rfl⟩ := mainGameLoop_cases x hfirst
    have hreceived : snapshots received = 0 := by
      obtain ⟨⟨net, sent⟩, hpoll, htick⟩ := Option.bind_eq_some_iff.mp hframe
      obtain ⟨manager, -, heq⟩ := Option.map_eq_some_iff.mp htick
      cases heq
      exact snapshots_poll hpoll
    have hsender : mid.sender = (sendFrame x libm (plugin.net, g.sender) t.moment).1.2 :=
      congrArg Prod.snd hstate
    rw [hsender] at haccum hcount
    rw [snapshots_append, snapshots_append, hreceived, Nat.zero_add]
    by_cases hloaded : Loaded plugin.net t.frame.world
    · obtain ⟨hleft, hsent⟩ := sendFrame_loaded x plugin.net libm g.sender (t := t.moment) hloaded
      rw [hleft] at haccum hcount
      refine ⟨t.frame.dt :: dts, hdts.cons_cons _, haccum, ?_⟩
      have hmost : snapshots (sendFrame x libm (plugin.net, g.sender) t.moment).2 ≤
          (Cadence.tick snapshotSendInterval g.sender.snapshotAccum t.moment.dt).2 := by
        rw [hsent]
        split <;> omega
      exact Nat.add_le_add hmost hcount
    · obtain ⟨hleft, hsent⟩ := sendFrame_idle x plugin.net libm g.sender (t := t.moment) hloaded
      rw [hleft] at haccum hcount
      rw [hsent, Nat.zero_add]
      exact ⟨dts, hdts.cons _, haccum, hcount⟩

theorem run_accum_nonneg {libm : Libm FloatVal} {g g' : Game} {ticks : List Tick}
    {sent : List Sent} (h : 0 ≤ g.sender.snapshotAccum) (hdt : ∀ t ∈ ticks, 0 ≤ t.frame.dt)
    (hrun : EventRun.exec (mainGameLoop x libm) g ticks = some (g', sent)) :
    0 ≤ g'.sender.snapshotAccum := by
  obtain ⟨dts, hdts, haccum, -⟩ := run_cadence x hrun
  rw [haccum]
  exact Cadence.run_nonneg h fun dt hmem => by
    obtain ⟨t, ht, rfl⟩ := List.mem_map.mp (hdts.subset hmem)
    exact hdt t ht

theorem interval_pos : 0 < snapshotSendInterval := by decide +kernel

/-- A window that begins with no more than two intervals in the accumulator. -/
theorem window_paced {libm : Libm FloatVal} {g g' : Game} {window : List Tick} {sent : List Sent}
    (hnonneg : 0 ≤ g.sender.snapshotAccum) (hdt : ∀ t ∈ window, 0 ≤ t.frame.dt)
    (hrun : EventRun.exec (mainGameLoop x libm) g window = some (g', sent))
    (haccum : g.sender.snapshotAccum ≤ 2 * snapshotSendInterval) :
    (snapshots sent : ℚ) ≤
      (window.map fun t => t.frame.dt).sum / snapshotSendInterval + 2 := by
  obtain ⟨dts, hdts, -, hcount⟩ := run_cadence x hrun
  have hall : ∀ dt ∈ window.map fun t => t.frame.dt, 0 ≤ dt := by
    intro dt hmem
    obtain ⟨t, ht, rfl⟩ := List.mem_map.mp hmem
    exact hdt t ht
  have hsum : dts.sum ≤ (window.map fun t => t.frame.dt).sum := hdts.sum_le_sum hall
  calc (snapshots sent : ℚ)
      ≤ ((Cadence.run snapshotSendInterval g.sender.snapshotAccum dts).2 : ℚ) := by
        exact_mod_cast hcount
    _ ≤ dts.sum / snapshotSendInterval + 2 :=
        Cadence.run_le interval_pos hnonneg (fun dt hmem => hall dt (hdts.subset hmem)) haccum
    _ ≤ (window.map fun t => t.frame.dt).sum / snapshotSendInterval + 2 := by
        have hle := div_le_div_of_nonneg_right hsum interval_pos.le
        linarith

/-- A player at the origin of its cell, all of whose polls are answered by 0. -/
def still : Player := ⟨0, 0, 0, 0, fun _ => some (.fin 0)⟩

/-- In a run of the main loop a window keeps to the send rate if it begins with no more than
two intervals in the accumulator. A sender that holds more does not keep to it. -/
theorem send_rate_iff (libm : Libm FloatVal) :
    (∀ (gameTime : ℚ) (script console compilesSpawn : Bool) (compiles : Script → Bool)
      (before window : List Tick) (g g' : Game) (sent sent' : List Sent),
      (∀ t ∈ before ++ window, 0 ≤ t.frame.dt) →
      EventRun.exec (mainGameLoop x libm)
        ⟨Client.start gameTime script console compilesSpawn compiles, {}⟩ before =
          some (g, sent) →
      EventRun.exec (mainGameLoop x libm) g window = some (g', sent') →
      g.sender.snapshotAccum ≤ 2 * snapshotSendInterval →
      (snapshots sent' : ℚ) ≤
        (window.map fun t => t.frame.dt).sum / snapshotSendInterval + 2) ∧
    ∀ (net : NetClient) (s : Sender), net.connected = true → net.peer = true →
      0 ≤ s.snapshotAccum →
      ((∀ moments : List Moment, (∀ t ∈ moments, 0 ≤ t.dt) →
        (∀ t ∈ moments, t.world.thePlayer = true ∧ t.world.playerCell ≠ 0) →
        (snapshots (sendFrames x libm (net, s) moments) : ℚ) ≤
          (moments.map Moment.dt).sum / snapshotSendInterval + 2) ↔
      s.snapshotAccum ≤ 2 * snapshotSendInterval) := by
  constructor
  · intro gameTime script console compilesSpawn compiles before window g g' sent sent' hdt hbefore
      hwindow haccum
    have hnonneg := run_accum_nonneg x le_rfl
      (fun t ht => hdt t (List.mem_append_left window ht)) hbefore
    exact window_paced x hnonneg (fun t ht => hdt t (List.mem_append_right before ht)) hwindow
      haccum
  · intro net s hconnected hpeer hnonneg
    have hiff := Cadence.run_bounded_iff interval_pos hnonneg 2
    rw [Nat.cast_ofNat] at hiff
    rw [← hiff]
    constructor
    · intro h dts hdts
      have hmoments := h (dts.map fun dt => ⟨EntityManager.quietWorld, still, dt⟩)
        (by simpa using hdts) (by simp [EntityManager.quietWorld])
      have htimes : (dts.map fun dt => (⟨EntityManager.quietWorld, still, dt⟩ : Moment)).map
          Moment.dt = dts := by
        rw [List.map_map]
        exact List.map_id dts
      rw [sendFrames_cadence x libm hconnected hpeer s (by simp [EntityManager.quietWorld]),
        htimes] at hmoments
      exact hmoments
    · intro h moments hdt hloaded
      rw [sendFrames_cadence x libm hconnected hpeer s hloaded]
      exact h _ fun dt hmem => by
        obtain ⟨t, ht, rfl⟩ := List.mem_map.mp hmem
        exact hdt t ht

/-- The C library at the points where a player that stands still needs it. -/
def stillLibm : Libm FloatVal := ⟨fun _ => .fin 0, fun _ _ => .fin 0⟩

/-- A frame without events, of a player that stands still. -/
def stillTick (dt : ℚ) (waiting : List Net.HostEvent) : Tick :=
  ⟨⟨dt, waiting, EntityManager.quietWorld, 0⟩, still⟩

/-- The client is greeted, and one frame takes ten seconds. -/
def stalled : List Tick :=
  [stillTick (1 / 100) [.receive (msgEntity.encode ⟨MessageType.connectAck.code, 2⟩)],
    stillTick 10 []]

/-- Ten frames of a millisecond after the stall send ten snapshots. -/
theorem send_rate_burst :
    ¬ ∀ (x : Expressions) (libm : Libm FloatVal) (gameTime : ℚ)
      (script console compilesSpawn : Bool) (compiles : Script → Bool)
      (before window : List Tick) (g g' : Game) (sent sent' : List Sent),
      (∀ t ∈ before ++ window, 0 ≤ t.frame.dt ∧ t.frame.world.thePlayer = true ∧
        t.frame.world.playerCell ≠ 0) →
      EventRun.exec (mainGameLoop x libm)
        ⟨Client.start gameTime script console compilesSpawn compiles, {}⟩ before =
          some (g, sent) →
      g.plugin.net.connected = true → (∀ t ∈ window, t.frame.waiting = []) →
      EventRun.exec (mainGameLoop x libm) g window = some (g', sent') →
      (snapshots sent' : ℚ) ≤
        (window.map fun t => t.frame.dt).sum / snapshotSendInterval + 2 := by
  intro h
  have hall : (EventRun.exec (mainGameLoop ⟨true, true, true, true, true, true⟩ stillLibm)
      ⟨Client.start 0 true true true fun _ => true, {}⟩ stalled).any fun r =>
        r.1.plugin.net.connected &&
          (EventRun.exec (mainGameLoop ⟨true, true, true, true, true, true⟩ stillLibm) r.1
            (List.replicate 10 (stillTick (1 / 1000) []))).any fun r' =>
              decide (snapshots r'.2 = 10) := by decide +kernel
  obtain ⟨⟨g, sent⟩, hbefore, hrest⟩ := (Option.any_eq_true _ _).mp hall
  obtain ⟨hconnected, hwindow⟩ := Bool.and_eq_true_iff.mp hrest
  obtain ⟨⟨g', sent'⟩, hrun, hcount⟩ := (Option.any_eq_true _ _).mp hwindow
  have hbound := h _ stillLibm 0 true true true (fun _ => true) stalled
    (List.replicate 10 (stillTick (1 / 1000) [])) g g' sent sent' (by decide +kernel) hbefore
    hconnected (by simp [stillTick]) hrun
  rw [of_decide_eq_true hcount] at hbound
  revert hbound
  decide +kernel

end Fnvmp.Detection
