import Fnvmp.MainLoop

/-!
# How late the periodic pass can come

The inner loop of `main` starts a fresh wait after every event, so traffic puts the
timeout sweep and the broadcast off. The pass is on time exactly when no chain of
arrivals less than one wait apart lasts too long; eight clients at their nominal rates
already produce such a chain.
-/

namespace Fnvmp.Server

open PackedCodec Protocol

/-- Two arrivals keep the rates of the clients: snapshots of one peer come at least
`SNAPSHOT_SEND_INTERVAL` apart, its heartbeats at least `HEARTBEAT_INTERVAL`. -/
def Spaced (a b : ℚ × HostEvent) : Prop :=
  match a.2, b.2 with
  | .receive p data, .receive q data' => p = q →
    (packetType data = some .playerSnapshot → packetType data' = some .playerSnapshot →
      snapshotSendInterval ≤ b.1 - a.1) ∧
    (packetType data = some .heartbeat → packetType data' = some .heartbeat →
      heartbeatInterval ≤ b.1 - a.1)
  | _, _ => True

instance : DecidableRel Spaced := fun a b => by
  unfold Spaced
  split <;> infer_instance

/-- The arrivals at most `MAX_PLAYERS` clients can produce after time `now`. -/
structure Schedule (hosts : Finset Peer) (now : ℚ) (incoming : List (ℚ × HostEvent)) : Prop where
  ordered : (now :: incoming.map Prod.fst).Pairwise (· ≤ ·)
  few : hosts.card ≤ maxPlayers
  hosted : ∀ p, .connect p ∈ incoming.map Prod.snd → p ∈ hosts
  order : HostOrder (fun _ => false) (incoming.map fun a => a.2.event a.1)
  spaced : incoming.Pairwise Spaced

/-- Eight clients, a 240th of a second out of step with each other, each sending one
snapshot every 30th of a second. -/
def eightSenders : List (ℚ × HostEvent) :=
  (List.range 8).map (fun i => ((0 : ℚ), HostEvent.connect i)) ++
  (List.range 17).map fun i => (((i + 5 : Nat) : ℚ) / 240, HostEvent.receive (i % 8)
    (msgPlayerSnapshot.encode (.still (UInt16.ofNat (i / 8)) (UInt32.ofNat (i % 8 + 1)) 7)))

theorem eightSenders_schedule : Schedule (Finset.range 8) 0 eightSenders where
  ordered := by decide +kernel
  few := by decide
  hosted := by
    intro p hp
    simp only [eightSenders, List.map_append, List.map_map, List.mem_append, List.mem_map,
      Function.comp_apply, HostEvent.connect.injEq, reduceCtorEq, and_false, exists_false,
      or_false, exists_eq_right, List.mem_range] at hp
    exact Finset.mem_range.mpr hp
  order := by decide +kernel
  spaced := by decide +kernel

/-- Two passes run before the packets start, and none until the 17th has come. -/
theorem eightSenders_late : (Loop.run 29 (.begin 0 eightSenders)).map
    (fun r => r.1.now - r.1.server.lastBroadcastTime) = some (21 / 240 - 2 / 100) := by
  decide +kernel

theorem periodic_pass_starved :
    ¬ ∀ hosts now incoming, Schedule hosts now incoming →
      ∀ n m acts, Loop.run n (.begin now incoming) = some (m, acts) →
        m.now - m.server.lastBroadcastTime ≤ 2 * snapshotSendInterval := by
  intro h
  obtain ⟨⟨m, acts⟩, hrun, hlate⟩ := Option.map_eq_some_iff.mp eightSenders_late
  have hbound := h _ 0 eightSenders eightSenders_schedule 29 m acts hrun
  simp only at hlate
  rw [hlate] at hbound
  revert hbound
  decide +kernel

/-- On at most `MAX_PLAYERS` pointers the loop never stops, and in every state it reaches
the last pass is at most two send intervals old, exactly when the arrivals come in short
bursts. -/
theorem periodic_pass_timely_iff (hosts : Finset Peer) (hcard : hosts.card ≤ maxPlayers) (now : ℚ)
    (incoming : List (ℚ × HostEvent))
    (hordered : (now :: incoming.map Prod.fst).Pairwise (· ≤ ·))
    (hhosts : ∀ p, .connect p ∈ incoming.map Prod.snd → p ∈ hosts) :
    (∀ n, ∃ m acts, Loop.run n (.begin now incoming) = some (m, acts) ∧
      m.now - m.server.lastBroadcastTime ≤ 2 * snapshotSendInterval) ↔
    DrainLoop.ShortBursts serviceWait (2 * snapshotSendInterval) 0 now
      (incoming.map Prod.fst) := by
  have hhosted : (Loop.begin now incoming).Hosted hosts :=
    ⟨fun q hq => by simp [Loop.begin, start, OrderedMap.mem_keys] at hq, hhosts⟩
  have hclock : (Loop.begin now incoming).clock =
      ⟨now, now - 0, incoming.map Prod.fst, false⟩ := by
    simp [Loop.clock, Loop.begin, start]
  rw [← DrainLoop.timely_iff (by decide +kernel) _ le_rfl hordered, ← hclock]
  refine forall_congr' fun n => ?_
  obtain ⟨m, acts, hrun, hm⟩ := Loop.run_clock hcard n hhosted
  rw [← hm]
  constructor
  · rintro ⟨m', acts', hrun', hle⟩
    rw [hrun] at hrun'
    cases hrun'
    exact hle
  · intro hle
    exact ⟨m, acts, hrun, hle⟩

/-- One client at the nominal rate. -/
def loneSender : List (ℚ × HostEvent) :=
  [(0, .connect 1), (1 / 30, .receive 1 [4]), (2 / 30, .receive 1 [4])]

/-- Every gap between its packets lets a pass through. -/
theorem periodic_pass_timely_alone :
    (0 :: loneSender.map Prod.fst).Pairwise (· ≤ ·) ∧
    ∀ n, ∃ m acts, Loop.run n (.begin 0 loneSender) = some (m, acts) ∧
      m.now - m.server.lastBroadcastTime ≤ 2 * snapshotSendInterval :=
  ⟨by decide +kernel, (periodic_pass_timely_iff {1} (by decide) 0 loneSender (by decide +kernel)
    (by simp [loneSender])).mpr (by decide +kernel)⟩

end Fnvmp.Server
