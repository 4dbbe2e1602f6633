import Fnvmp.Speech
import Fnvmp.Sweep
import Mathlib.Tactic.Linarith

/-!
# What keeps a seat

The server never sends its clients away, and the sweep spares whoever was heard of within
the timeout, so a seat is lost only to the end of its session or to silence. The clock counts
whole ticks and its readings are doubles, so being heard of within the timeout takes one tick
to spare.
-/

namespace Fnvmp.Server

open PackedCodec Protocol

/-- No step of the server sends a MSG_DISCONNECT. -/
theorem step_keepsOpen {s s' : State} {e : Event} {acts : List Action}
    (hs : step s e = some (s', acts)) {q : Peer} {channel : Channel} {data : List UInt8}
    {flag : PacketFlag} (hsend : .send q channel data flag ∈ acts) :
    ServerMessage.parse data ≠ some .disconnect := by
  cases step_speaks hs _ hsend _ _ _ _ rfl with
  | ack id => simp [ServerMessage.parse_entity .connectAck id (by decide), ServerMessage.ofEntity]
  | joined id =>
    simp [ServerMessage.parse_entity .playerConnect id (by decide), ServerMessage.ofEntity]
  | left id =>
    simp [ServerMessage.parse_entity .playerDisconnect id (by decide), ServerMessage.ofEntity]
  | fire id _ _ =>
    simp [ServerMessage.parse_entity .remoteFire id (by decide), ServerMessage.ofEntity]
  | world hfit _ => simp [parse_encodeWorld hfit]

/-! ## The clock -/

theorem clock_bounds {t : ℚ} (ht : 0 ≤ t) : -1 ≤ clock t ∧ clock t < 2 ^ 31 := by
  unfold clock
  split
  · rename_i hfits
    have hnonneg : 0 ≤ ⌊t * clocksPerSec⌋ :=
      Int.floor_nonneg.mpr (mul_nonneg ht (by decide +kernel))
    exact ⟨by linarith, hfits⟩
  · decide

/-- No more ticks are counted than have passed, also once the counter has run out. -/
theorem clock_le_add {seen t : ℚ} (hseen : 0 ≤ seen) (hpast : seen ≤ t) {n : ℕ}
    (hticks : t * clocksPerSec ≤ seen * clocksPerSec + n) : clock t ≤ clock seen + n := by
  by_cases hfits : ⌊t * clocksPerSec⌋ < 2 ^ 31
  · have hearlier : ⌊seen * clocksPerSec⌋ ≤ ⌊t * clocksPerSec⌋ :=
      Int.floor_le_floor (mul_le_mul_of_nonneg_right hpast (by decide +kernel))
    rw [clock, clock, if_pos hfits, if_pos (hearlier.trans_lt hfits), ← Int.floor_add_natCast]
    exact Int.floor_le_floor hticks
  · rw [clock, if_neg hfits]
    have hlow := (clock_bounds hseen).1
    omega

/-- A reading of the clock is its ticks but for the rounding of the quotient. -/
theorem abs_sub_getTime_le {t : ℚ} (ht : 0 ≤ t) :
    |clock t / clocksPerSec - getTime t| ≤ 1 / 2 ^ 31 := by
  obtain ⟨hlow, hhigh⟩ := clock_bounds ht
  have hticks : |(clock t : ℚ)| ≤ 2 ^ 31 := by
    have hlow' : (-1 : ℚ) ≤ clock t := by exact_mod_cast hlow
    have hhigh' : (clock t : ℚ) < 2 ^ 31 := by exact_mod_cast hhigh
    rw [abs_le]
    constructor <;> linarith
  have hrate : 0 < clocksPerSec := by decide +kernel
  calc |clock t / clocksPerSec - getTime t|
      ≤ |clock t / clocksPerSec| / 2 ^ 53 := Rounding.abs_sub_round_le _ _
    _ = |(clock t : ℚ)| / (clocksPerSec * 2 ^ 53) := by
      rw [abs_div, div_div]
      rfl
    _ ≤ 2 ^ 31 / (clocksPerSec * 2 ^ 53) := by gcongr
    _ ≤ 1 / 2 ^ 31 := by decide +kernel

/-- Heard of within the timeout, with one tick to spare. -/
theorem not_expired {seen t : ℚ} {info : PlayerInfo} (hmark : info.lastHeartbeat = getTime seen)
    (hseen : 0 ≤ seen) (hpast : seen ≤ t)
    (halive : t + 1 / clocksPerSec ≤ seen + heartbeatTimeout) : ¬ Expired (getTime t) info := by
  have hrate : clocksPerSec = 1000 := rfl
  have htimeout : heartbeatTimeout = 10 := rfl
  have hticks : clock t ≤ clock seen + (9999 : ℕ) := by
    refine clock_le_add hseen hpast ?_
    rw [hrate, htimeout] at halive
    rw [hrate]
    push_cast
    linarith
  have hticks' : (clock t : ℚ) ≤ clock seen + 9999 := by exact_mod_cast hticks
  have hlow : (-1 : ℚ) ≤ clock t := by exact_mod_cast (clock_bounds (hseen.trans hpast)).1
  have hhigh : (clock seen : ℚ) ≤ 2 ^ 31 := by exact_mod_cast (clock_bounds hseen).2.le
  have hnow := abs_le.mp (abs_sub_getTime_le (hseen.trans hpast))
  have hthen := abs_le.mp (abs_sub_getTime_le hseen)
  rw [hrate] at hnow hthen
  have hrange : |getTime t - getTime seen| ≤ 2 ^ 22 := by
    rw [abs_le]
    constructor <;> linarith
  have hrounded := (abs_le.mp (Rounding.abs_sub_round_le 53 (getTime t - getTime seen))).1
  have herror : |getTime t - getTime seen| / 2 ^ 53 ≤ 2 ^ 22 / 2 ^ 53 := by gcongr
  rw [Expired, hmark, gt_iff_lt, not_lt, htimeout]
  change Rounding.round 53 (getTime t - getTime seen) ≤ 10
  linarith

/-! ## The seat of one player -/

/-- Who is not expired is left alone by the sweep. -/
theorem checkTimeouts_spares {now : ℚ} {p : Peer} {info : PlayerInfo}
    (hfresh : ¬ Expired now info) {players : Players} (hp : players.find? p = some info) :
    (checkTimeouts now players).1.find? p = some info ∧
      ∀ id, .removed p id ∉ (checkTimeouts now players).2 := by
  have hentry := (players.find?_eq_some p info).mp hp
  constructor
  · rw [OrderedMap.find?_eq_some, checkTimeouts_kept]
    exact List.mem_filter.mpr ⟨hentry, decide_eq_true hfresh⟩
  · intro id hmem
    have hgone : (p, id) ∈ removals (checkTimeouts now players).2 :=
      List.mem_filterMap.mpr ⟨_, hmem, rfl⟩
    rw [checkTimeouts_removals] at hgone
    obtain ⟨e, he, heq⟩ := List.mem_map.mp hgone
    exact timedOut_spares hentry hfresh e he (congrArg Prod.fst heq)

/-- An event at a clock reading of `t` that is not the end of the pointer's session. -/
def Event.Spares (p : Peer) (t : ℚ) : Event → Prop
  | .connect q now => q ≠ p ∧ now = t
  | .receive q data now => now = t ∧ (q = p → packetType data ≠ some .disconnect)
  | .disconnect q => q ≠ p
  | .checkTimeouts now => now = t
  | .broadcast now => now = t

/-- The seat is kept; it is marked with the reading if a heartbeat comes in. -/
theorem step_seat {s s' : State} {e : Event} {acts : List Action} {p : Peer} {t : ℚ}
    {info : PlayerInfo} (he : e.Spares p t) (hp : s.players.find? p = some info)
    (hfresh : ¬ Expired t info) (hs : step s e = some (s', acts)) :
    ∃ info', s'.players.find? p = some info' ∧ (info'.lastHeartbeat = t ∨
      info'.lastHeartbeat = info.lastHeartbeat ∧
        ∀ data now, e = .receive p data now → packetType data ≠ some .heartbeat) := by
  cases e with
  | connect q now =>
    cases hs
    refine ⟨info, ?_, .inr ⟨rfl, by simp⟩⟩
    change (s.players.insert q _).find? p = _
    rw [OrderedMap.find?_insert, if_neg he.1.symm, hp]
  | receive q data now =>
    obtain ⟨players', hr, rfl⟩ := step_receive hs
    obtain ⟨rfl, hopen⟩ := he
    have hhandled := handleReceive_cases hr
    by_cases hq : p = q
    · subst hq
      cases hhandled with
      | refused hrefused =>
        refine ⟨info, hp, .inr ⟨rfl, fun bytes now hbytes ht => ?_⟩⟩
        cases hbytes
        exact not_refused ht rfl (one_le_length ht) hp (by simp [carriedId, ht]) hrefused
      | heartbeat ht hp' =>
        exact ⟨{ info with lastHeartbeat := now }, by
          simp [handleHeartbeat, OrderedMap.find?_modify, hp], .inl rfl⟩
      | disconnect ht hp' => exact absurd ht (hopen rfl)
      | snapshot ht hlen hp' hid =>
        refine ⟨info.accept (msgPlayerSnapshot.decode data), by
          simp [OrderedMap.find?_modify, hp], .inr ⟨rfl, fun bytes now hbytes => ?_⟩⟩
        cases hbytes
        simp [ht]
      | fire ht hlen hp' hid =>
        refine ⟨info, hp, .inr ⟨rfl, fun bytes now hbytes => ?_⟩⟩
        cases hbytes
        simp [ht]
    · refine ⟨info, (hhandled.frame hq).trans hp, .inr ⟨rfl, fun bytes now hbytes => ?_⟩⟩
      cases hbytes
      exact absurd rfl hq
  | disconnect q =>
    cases hs
    refine ⟨info, ?_, .inr ⟨rfl, by simp⟩⟩
    simp only [handlePeerGone]
    split
    · exact hp
    · rw [OrderedMap.find?_erase, if_neg (Ne.symm he), hp]
  | checkTimeouts now =>
    cases hs
    obtain rfl : now = t := he
    exact ⟨info, (checkTimeouts_spares hfresh hp).1, .inr ⟨rfl, by simp⟩⟩
  | broadcast now =>
    obtain ⟨n, accum, rest, -, rfl⟩ := step_broadcast hs
    exact ⟨info, hp, .inr ⟨rfl, by simp⟩⟩

end Fnvmp.Server
