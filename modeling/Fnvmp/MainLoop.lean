import Fnvmp.Departures
import Fnvmp.DrainLoop
import Fnvmp.Fidelity

/-!
# The service loop of the server

`main` drains the host's events, each behind a wait of 10 ms, and runs one periodic
pass whenever a wait ends with nothing: a timeout sweep and the broadcast step. Time
moves only inside the wait. The clock of the loop is that of a draining loop.
-/

namespace Fnvmp.Server

open PackedCodec Protocol

/-- An event `enet_host_service` returns. -/
inductive HostEvent where
  | connect (peer : Peer)
  | receive (peer : Peer) (data : List UInt8)
  | disconnect (peer : Peer)
  deriving DecidableEq

def HostEvent.event (now : ℚ) : HostEvent → Event
  | .connect peer => .connect peer now
  | .receive peer data => .receive peer data now
  | .disconnect peer => .disconnect peer

/-- The timeout of `enet_host_service`, in seconds. -/
def serviceWait : ℚ := 10 / 1000

/-- `incoming` lists what is still to arrive, with its arrival time. `passDue` says that
`enet_host_service` has just returned 0. -/
structure Loop where
  now : ℚ
  server : State
  incoming : List (ℚ × HostEvent)
  passDue : Bool
  deriving DecidableEq

def Loop.begin (now : ℚ) (incoming : List (ℚ × HostEvent)) : Loop :=
  ⟨now, start now, incoming, false⟩

/-- The two calls after the inner loop. -/
def periodicPass (now : ℚ) (s : State) : Option (State × List Action) :=
  run s [.checkTimeouts now, .broadcast now]

/-- One call of `enet_host_service` and the handler of what it returned, or one pass. -/
def Loop.step (m : Loop) : Option (Loop × List Action) :=
  if m.passDue then
    (periodicPass m.now m.server).map fun r => ({ m with server := r.1, passDue := false }, r.2)
  else match m.incoming with
    | [] => some ({ m with now := m.now + serviceWait, passDue := true }, [])
    | (t, e) :: rest =>
      if t ≤ m.now + serviceWait then
        let now := max m.now t
        (Server.step m.server (e.event now)).map fun r =>
          ({ m with now := now, server := r.1, incoming := rest }, r.2)
      else some ({ m with now := m.now + serviceWait, passDue := true }, [])

/-- The first `n` steps of the loop. -/
def Loop.run (n : Nat) (m : Loop) : Option (Loop × List Action) :=
  EventRun.exec (fun m () => m.step) m (List.replicate n ())

theorem run_singleton {s s' : State} {e : Event} {acts : List Action}
    (hs : Server.step s e = some (s', acts)) : Server.run s [e] = some (s', acts) :=
  EventRun.exec_cons_eq_some.mpr ⟨s', acts, [], hs, rfl, (List.append_nil acts).symm⟩

/-! ## The clock of the loop -/

def Loop.clock (m : Loop) : DrainLoop.Clock ℚ :=
  ⟨m.now, m.server.lastBroadcastTime, m.incoming.map Prod.fst, m.passDue⟩

/-- Only the broadcast step touches the time of the last pass, and it sets it. -/
theorem step_lastBroadcastTime {s s' : State} {e : Event} {acts : List Action}
    (hs : Server.step s e = some (s', acts)) :
    s'.lastBroadcastTime = match e with
      | .broadcast now => now
      | _ => s.lastBroadcastTime := by
  cases e with
  | connect p now => cases hs; rfl
  | receive p data now =>
    obtain ⟨players', -, rfl⟩ := step_receive hs
    rfl
  | disconnect p => cases hs; rfl
  | checkTimeouts now => cases hs; rfl
  | broadcast now =>
    obtain ⟨n, accum, rest, -, rfl⟩ := step_broadcast hs
    rfl

theorem Loop.step_clock {m m' : Loop} {acts : List Action} (hs : m.step = some (m', acts)) :
    m'.clock = DrainLoop.service serviceWait m.clock := by
  obtain ⟨now, s, incoming, passDue⟩ := m
  cases passDue with
  | true =>
    obtain ⟨⟨s', out⟩, hpass, heq⟩ := Option.map_eq_some_iff.mp hs
    cases heq
    obtain ⟨mid, _, _, -, hb, -⟩ := EventRun.exec_cons_eq_some.mp hpass
    obtain ⟨last, _, _, hb', hnil, -⟩ := EventRun.exec_cons_eq_some.mp hb
    cases hnil
    simp [Loop.clock, DrainLoop.service, step_lastBroadcastTime hb']
  | false =>
    cases incoming with
    | nil =>
      cases hs
      rfl
    | cons a rest =>
      obtain ⟨t, e⟩ := a
      simp only [Loop.step, Bool.false_eq_true, ↓reduceIte] at hs
      by_cases hnear : t ≤ now + serviceWait
      · rw [if_pos hnear] at hs
        obtain ⟨⟨s', out⟩, hstep, heq⟩ := Option.map_eq_some_iff.mp hs
        cases heq
        have hlast : s'.lastBroadcastTime = s.lastBroadcastTime := by
          rw [step_lastBroadcastTime hstep]
          cases e <;> rfl
        simp [Loop.clock, DrainLoop.service, hnear, hlast]
      · rw [if_neg hnear] at hs
        cases hs
        simp [Loop.clock, DrainLoop.service, hnear]

/-! ## The loop never stops -/

/-- Only pointers the host hands out are seated or still to be connected. -/
def Loop.Hosted (hosts : Finset Peer) (m : Loop) : Prop :=
  Server.Hosted hosts m.server ∧ ∀ p, .connect p ∈ m.incoming.map Prod.snd → p ∈ hosts

theorem Loop.Hosted.step {hosts : Finset Peer} (hcard : hosts.card ≤ maxPlayers) {m : Loop}
    (h : m.Hosted hosts) : ∃ m' acts, m.step = some (m', acts) ∧ m'.Hosted hosts := by
  obtain ⟨hserver, hin⟩ := h
  unfold Loop.step
  split
  · obtain ⟨s', acts, hpass, hs'⟩ := hserver.run hcard
      [.checkTimeouts m.now, .broadcast m.now] (by simp)
    exact ⟨{ m with server := s', passDue := false }, acts, by simp [periodicPass, hpass], hs', hin⟩
  · split
    · rename_i hnil
      exact ⟨_, _, rfl, hserver, hin⟩
    · rename_i t e rest hcons
      rw [hcons] at hin
      split
      · have hconnect : ∀ p now, e.event (max m.now t) = .connect p now → p ∈ hosts := by
          intro p now heq
          refine hin p ?_
          cases e <;> simp_all [HostEvent.event]
        obtain ⟨s', acts, hs, hs'⟩ := hserver.step hcard hconnect
        refine ⟨⟨max m.now t, s', rest, m.passDue⟩, acts, by simp [hs], hs', fun p hp => hin p ?_⟩
        exact List.mem_cons_of_mem _ hp
      · refine ⟨_, _, rfl, hserver, ?_⟩
        rw [hcons]
        exact hin

theorem Loop.run_clock {hosts : Finset Peer} (hcard : hosts.card ≤ maxPlayers) (n : Nat)
    {m : Loop} (h : m.Hosted hosts) : ∃ m' acts, Loop.run n m = some (m', acts) ∧
      m'.clock = (DrainLoop.service serviceWait)^[n] m.clock := by
  induction n generalizing m with
  | zero => exact ⟨m, [], rfl, rfl⟩
  | succ n ih =>
    obtain ⟨mid, out, hs, hmid⟩ := h.step hcard
    obtain ⟨m', rest, hrest, hclock⟩ := ih hmid
    refine ⟨m', out ++ rest, EventRun.exec_cons_eq_some.mpr ⟨mid, out, rest, hs, hrest, rfl⟩, ?_⟩
    rw [hclock, Loop.step_clock hs, Function.iterate_succ_apply]

end Fnvmp.Server
