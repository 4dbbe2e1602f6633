import Fnvmp.ClientLoop
import Fnvmp.Server
import Mathlib.Data.List.Perm.Subperm

/-!
# What the transport promises

Packets of one connection: the reliable channels deliver in order and without gaps, the
unsequenced packets may be lost and may overtake each other, and nothing holds between
two channels.
-/

namespace Fnvmp.Delivery

open Protocol Server Net Client

/-- The packets the server handed to the host for a pointer, oldest first. -/
def packetsTo (p : Peer) (acts : List Action) : List (Channel × List UInt8) :=
  acts.filterMap fun
    | .send q channel data _ => if q = p then some (channel, data) else none
    | _ => none

/-- The packet of a RECEIVE event. -/
def packet : HostEvent → Option (List UInt8)
  | .receive data => some data
  | _ => none

/-- The packets waiting at the frames of a run, oldest first. -/
def packetsAt (frames : List Frame) : List (List UInt8) :=
  frames.flatMap fun f => f.waiting.filterMap packet

def on (channel : Channel) (packets : List (Channel × List UInt8)) : List (List UInt8) :=
  (packets.filter fun p => p.1 = channel).map Prod.snd

structure Delivers (sent got : List (Channel × List UInt8)) : Prop where
  reliable : ∀ channel, channel ≠ .unreliable → on channel got <+: on channel sent
  unreliable : (on .unreliable got).Subperm (on .unreliable sent)

@[simp] theorem packetsTo_append (p : Peer) (acts acts' : List Action) :
    packetsTo p (acts ++ acts') = packetsTo p acts ++ packetsTo p acts' := List.filterMap_append

@[simp] theorem on_append (channel : Channel) (packets packets' : List (Channel × List UInt8)) :
    on channel (packets ++ packets') = on channel packets ++ on channel packets' := by
  simp [on]

theorem mem_on {channel : Channel} {data : List UInt8} {packets : List (Channel × List UInt8)} :
    data ∈ on channel packets ↔ (channel, data) ∈ packets := by
  simp [on]

theorem mem_packetsTo {p : Peer} {acts : List Action} {channel : Channel} {data : List UInt8} :
    (channel, data) ∈ packetsTo p acts ↔ ∃ flag, .send p channel data flag ∈ acts := by
  constructor
  · intro hmem
    obtain ⟨act, hact, heq⟩ := List.mem_filterMap.mp hmem
    cases act with
    | send q channel' data' flag =>
      simp only at heq
      split at heq
      · rename_i hq
        cases heq
        exact ⟨flag, hq ▸ hact⟩
      · cases heq
    | registered q i => cases heq
    | removed q i => cases heq
    | peerDisconnect q => cases heq
  · rintro ⟨flag, hact⟩
    exact List.mem_filterMap.mpr ⟨_, hact, by simp⟩

/-- Nothing arrives that was not sent. -/
theorem Delivers.mem {sent got : List (Channel × List UInt8)} (h : Delivers sent got)
    {channel : Channel} {data : List UInt8} (hmem : (channel, data) ∈ got) :
    (channel, data) ∈ sent := by
  rw [← mem_on] at hmem ⊢
  by_cases hchannel : channel = .unreliable
  · subst hchannel
    exact h.unreliable.subset hmem
  · exact (h.reliable channel hchannel).subset hmem

end Fnvmp.Delivery
