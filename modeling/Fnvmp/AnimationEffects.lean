import Fnvmp.Animation
import Fnvmp.CommandLog

/-!
# What each animation function can do

For each function the lines it can put on the NPC and the fields it leaves alone.
Polls put none. A run is any sequence of the two entry points on one NPC.
-/

namespace Fnvmp.Animation

open ExactFloat Engine Protocol CommandLog

/-- `sc'` follows `sc` with more polls of the NPC, and commands to it made of `P`s. -/
def Adds (P : Line → Prop) (npc : UInt32) (sc sc' : Scene) : Prop :=
  ∃ more, sc'.acts = sc.acts ++ more ∧ ∀ a ∈ more, DrivesBy P npc a

theorem Adds.none {P : Line → Prop} {npc : UInt32} {sc sc' : Scene} (h : sc'.acts = sc.acts) :
    Adds P npc sc sc' :=
  ⟨[], by simp [h], by simp⟩

theorem Adds.refl {P : Line → Prop} {npc : UInt32} (sc : Scene) : Adds P npc sc sc := .none rfl

theorem Adds.trans {P : Line → Prop} {npc : UInt32} {a b c : Scene} (h : Adds P npc a b)
    (h' : Adds P npc b c) : Adds P npc a c := by
  obtain ⟨more, hacts, hmore⟩ := h
  obtain ⟨more', hacts', hmore'⟩ := h'
  refine ⟨more ++ more', by rw [hacts', hacts, List.append_assoc], fun x hx => ?_⟩
  exact (List.mem_append.mp hx).elim (hmore x) (hmore' x)

theorem Adds.mono {P Q : Line → Prop} {npc : UInt32} {sc sc' : Scene} (h : Adds P npc sc sc')
    (hPQ : ∀ l, P l → Q l) : Adds Q npc sc sc' := by
  obtain ⟨more, hacts, hmore⟩ := h
  exact ⟨more, hacts, fun a ha => (hmore a ha).mono hPQ⟩

theorem Adds.lines {P : Line → Prop} {npc : UInt32} {sc sc' : Scene} (h : Adds P npc sc sc') :
    ∃ more, linesTo npc sc'.acts = linesTo npc sc.acts ++ more ∧ ∀ l ∈ more, P l := by
  obtain ⟨more, hacts, hmore⟩ := h
  exact ⟨linesTo npc more, by rw [hacts, linesTo_append], lines_of_drives hmore⟩

/-- Nothing but polls puts no line on the NPC. -/
theorem Adds.polls_lines {npc : UInt32} {sc sc' : Scene} (h : Adds (fun _ => False) npc sc sc') :
    linesTo npc sc'.acts = linesTo npc sc.acts := by
  obtain ⟨more, hlines, hmore⟩ := h.lines
  rw [hlines, List.eq_nil_iff_forall_not_mem.mpr hmore, List.append_nil]

/-- The lines a call put on the NPC. -/
def newLines (npc : UInt32) (sc sc' : Scene) : List Line :=
  (linesTo npc sc'.acts).drop (linesTo npc sc.acts).length

theorem Adds.newLines {P : Line → Prop} {npc : UInt32} {sc sc' : Scene} (h : Adds P npc sc sc') :
    ∀ l ∈ newLines npc sc sc', P l := by
  obtain ⟨more, hlines, hmore⟩ := h.lines
  simpa [Animation.newLines, hlines] using hmore

variable (m : Module) (w : World) (npc : UInt32)

theorem runCmd_adds {P : Line → Prop} (lines : List Line) (sc : Scene) (h : ∀ l ∈ lines, P l) :
    Adds P npc sc (runCmd npc lines sc) :=
  ⟨[.cmd npc lines], rfl, by simpa [DrivesBy] using h⟩

theorem pollNumber_adds {P : Line → Prop} (compiled : Bool) (script : Script) (sc : Scene) :
    Adds P npc sc (pollNumber m w npc compiled script sc).2 := by
  unfold pollNumber
  split
  · exact ⟨[.poll npc script (w.call sc.acts npc script)], rfl, by simp [DrivesBy]⟩
  · exact .refl sc

theorem pollAnimAction_adds {P : Line → Prop} (sc : Scene) :
    Adds P npc sc (pollAnimAction m w npc sc).2 := by
  unfold pollAnimAction
  split
  · exact pollNumber_adds m w npc _ _ sc
  · exact .refl sc

theorem refreshWeaponType_adds {P : Line → Prop} (sc : Scene) :
    Adds P npc sc (refreshWeaponType m w npc sc) := by
  unfold refreshWeaponType
  split
  · exact pollNumber_adds m w npc _ _ sc
  · exact .refl sc

/-! ## Runs -/

/-- One call on the NPC, with the engine as it is then. -/
inductive Call where
  | applyState (net : NetState) (currentTime : ℚ) (w : World)
  | applyFire (currentTime : ℚ)

def Call.run : Call → Scene → Scene
  | .applyState net currentTime w, sc => Animation.applyState m w npc net currentTime sc
  | .applyFire currentTime, sc => Animation.applyFire m npc currentTime sc

def Call.time : Call → ℚ
  | .applyState _ currentTime _ => currentTime
  | .applyFire currentTime => currentTime

/-- The calls are made at times that do not decrease. -/
def InOrder (calls : List Call) : Prop := calls.Pairwise fun c c' => c.time ≤ c'.time

instance (calls : List Call) : Decidable (InOrder calls) :=
  inferInstanceAs (Decidable (List.Pairwise _ _))

def play (calls : List Call) (sc : Scene) : Scene := calls.foldl (fun sc c => c.run m npc sc) sc

theorem play_invariant {m : Module} {npc : UInt32} (P : Scene → Prop)
    (hstep : ∀ c sc, P sc → P (Call.run m npc c sc)) (calls : List Call) {sc : Scene} (h : P sc) :
    P (play m npc calls sc) := by
  induction calls generalizing sc with
  | nil => exact h
  | cons c calls ih => exact ih (hstep c sc h)

/-! ## Polling -/

/-- What a poll of a pending operation leaves alone. -/
structure Watches (npc : UInt32) (sc sc' : Scene) : Prop where
  polls : Adds (fun _ => False) npc sc sc'
  isUnrestrained : sc'.st.isUnrestrained = sc.st.isUnrestrained
  unrestrainStartTime : sc'.st.unrestrainStartTime = sc.st.unrestrainStartTime
  prevIsSneaking : sc'.st.prevIsSneaking = sc.st.prevIsSneaking

/-- The state but for what a poll can write. -/
def EntityAnimState.unpolled (st : EntityAnimState) : EntityAnimState :=
  { st with
    pendingOps := {}
    weaponAnimSeen := false
    npcWeaponOut := false
    cachedWeaponType := -1 }

theorem Watches.of_unpolled {npc : UInt32} {sc sc' : Scene}
    (hpolls : Adds (fun _ => False) npc sc sc') (h : sc'.st.unpolled = sc.st.unpolled) :
    Watches npc sc sc' := by
  have hfree := congrArg EntityAnimState.isUnrestrained h
  have hstart := congrArg EntityAnimState.unrestrainStartTime h
  have hprev := congrArg EntityAnimState.prevIsSneaking h
  exact ⟨hpolls, hfree, hstart, hprev⟩

theorem refreshWeaponType_unpolled (sc : Scene) :
    (refreshWeaponType m w npc sc).st.unpolled = sc.st.unpolled := by
  obtain ⟨wtype, hst⟩ := refreshWeaponType_st m w npc sc
  rw [hst]
  rfl

theorem pollDraw_adds (sc : Scene) : Adds (fun _ => False) npc sc (pollDraw m w npc sc) := by
  have hpoll := pollAnimAction_adds (P := fun _ => False) m w npc sc
  unfold pollDraw
  split
  · dsimp only
    split <;> split
    · exact .trans hpoll (refreshWeaponType_adds m w npc _)
    · exact hpoll
    · exact .trans hpoll (refreshWeaponType_adds m w npc _)
    · exact hpoll
  · exact .refl sc

theorem pollDraw_unpolled (sc : Scene) :
    (pollDraw m w npc sc).st.unpolled = sc.st.unpolled := by
  unfold pollDraw
  split
  · dsimp only
    split <;> split
    · rw [refreshWeaponType_unpolled]
      simp [EntityAnimState.unpolled]
    · simp [EntityAnimState.unpolled]
    · rw [refreshWeaponType_unpolled]
      simp [EntityAnimState.unpolled]
    · simp
  · rfl

theorem pollHolster_adds (sc : Scene) : Adds (fun _ => False) npc sc (pollHolster m w npc sc) := by
  have hpoll := pollAnimAction_adds (P := fun _ => False) m w npc sc
  unfold pollHolster
  split
  · dsimp only
    split <;> split <;> exact hpoll
  · exact .refl sc

theorem pollHolster_unpolled (sc : Scene) :
    (pollHolster m w npc sc).st.unpolled = sc.st.unpolled := by
  unfold pollHolster
  split
  · dsimp only
    split <;> split <;> simp [EntityAnimState.unpolled]
  · rfl

theorem pollSneakEnter_adds (sc : Scene) :
    Adds (fun _ => False) npc sc (pollSneakEnter m w npc sc) := by
  have hpoll := pollNumber_adds (P := fun _ => False) m w npc m.exprIsSneaking .isSneaking sc
  unfold pollSneakEnter
  split
  · dsimp only
    split <;> exact hpoll
  · exact .refl sc

theorem pollSneakEnter_unpolled (sc : Scene) :
    (pollSneakEnter m w npc sc).st.unpolled = sc.st.unpolled := by
  unfold pollSneakEnter
  split
  · dsimp only
    split <;> simp [EntityAnimState.unpolled]
  · rfl

theorem pollSneakExit_adds (sc : Scene) :
    Adds (fun _ => False) npc sc (pollSneakExit m w npc sc) := by
  have hpoll := pollNumber_adds (P := fun _ => False) m w npc m.exprIsSneaking .isSneaking sc
  unfold pollSneakExit
  split
  · dsimp only
    split <;> exact hpoll
  · exact .refl sc

theorem pollSneakExit_unpolled (sc : Scene) :
    (pollSneakExit m w npc sc).st.unpolled = sc.st.unpolled := by
  unfold pollSneakExit
  split
  · dsimp only
    split <;> simp [EntityAnimState.unpolled]
  · rfl

theorem pollPending_unpolled (sc : Scene) :
    (pollPending m w npc sc).st.unpolled = sc.st.unpolled := by
  rw [pollPending, pollSneakExit_unpolled, pollSneakEnter_unpolled, pollHolster_unpolled,
    pollDraw_unpolled]

theorem pollPending_watches (sc : Scene) : Watches npc sc (pollPending m w npc sc) := by
  refine .of_unpolled ?_ (pollPending_unpolled m w npc sc)
  exact (pollDraw_adds m w npc sc).trans <| (pollHolster_adds m w npc _).trans <|
    (pollSneakEnter_adds m w npc _).trans (pollSneakExit_adds m w npc _)

/-- The ways `PollUnrestrain` ends: nothing to do, the timeout, operations still
pending, or the last of them done. -/
theorem pollUnrestrain_cases (currentTime : ℚ) (sc : Scene) :
    (sc.st.isUnrestrained = false ∧ pollUnrestrain m w npc currentTime sc = sc) ∨
    (sc.st.isUnrestrained = true ∧ unrestrainTimeout < currentTime - sc.st.unrestrainStartTime ∧
      pollUnrestrain m w npc currentTime sc =
        ⟨{ sc.st with isUnrestrained := false, pendingOps := {} },
          (runCmd npc [.setRestrained true] sc).acts⟩) ∨
    (sc.st.isUnrestrained = true ∧ currentTime - sc.st.unrestrainStartTime ≤ unrestrainTimeout ∧
      ∃ mid, mid = pollPending m w npc sc ∧
        ((mid.st.pendingOps ≠ {} ∧ pollUnrestrain m w npc currentTime sc = mid) ∨
        (mid.st.pendingOps = {} ∧ pollUnrestrain m w npc currentTime sc =
          ⟨{ mid.st with isUnrestrained := false, forceReapplyActions := true },
            (runCmd npc [.setRestrained true] mid).acts⟩))) := by
  unfold pollUnrestrain
  split
  · exact .inl ⟨by assumption, rfl⟩
  · rename_i hfree
    have hfree' : sc.st.isUnrestrained = true := by simpa using hfree
    split
    · rename_i hlate
      exact .inr (.inl ⟨hfree', hlate, rfl⟩)
    · rename_i hlate
      refine .inr (.inr ⟨hfree', not_lt.mp hlate, _, rfl, ?_⟩)
      unfold settle
      split
      · rename_i hnone
        exact .inr ⟨hnone, rfl⟩
      · rename_i hsome
        exact .inl ⟨hsome, rfl⟩

theorem pollUnrestrain_adds (currentTime : ℚ) (sc : Scene) :
    Adds (· = .setRestrained true) npc sc (pollUnrestrain m w npc currentTime sc) := by
  have settled : ∀ (sc : Scene) (st : EntityAnimState),
      Adds (· = .setRestrained true) npc sc ⟨st, (runCmd npc [.setRestrained true] sc).acts⟩ :=
    fun sc st => runCmd_adds npc [.setRestrained true] sc (by simp)
  have hpolled := (pollPending_watches m w npc sc).polls.mono
    (Q := (· = .setRestrained true)) fun _ => False.elim
  obtain ⟨-, h⟩ | ⟨-, -, h⟩ | ⟨-, -, mid, rfl, ⟨-, h⟩ | ⟨-, h⟩⟩ :=
    pollUnrestrain_cases m w npc currentTime sc <;> rw [h]
  · exact .refl sc
  · exact settled sc _
  · exact hpolled
  · exact hpolled.trans (settled _ _)

/-! ## Transitions -/

theorem unrestrain_adds (currentTime : ℚ) (sc : Scene) :
    Adds (· = .setRestrained false) npc sc (unrestrain npc currentTime sc) := by
  unfold unrestrain
  split
  · exact .refl sc
  · exact runCmd_adds npc [.setRestrained false] sc (by simp)

/-- `unrestrain` sets the flag and its time, and nothing else. -/
theorem unrestrain_st (currentTime : ℚ) (sc : Scene) :
    (unrestrain npc currentTime sc).st = { sc.st with
      isUnrestrained := true
      unrestrainStartTime :=
        if sc.st.isUnrestrained then sc.st.unrestrainStartTime else currentTime } := by
  unfold unrestrain
  by_cases h : sc.st.isUnrestrained = true
  · rw [if_pos h, if_pos h, ← h]
  · rw [if_neg h, if_neg h]
    rfl

theorem applySneak_adds (isSneaking : UInt8) (currentTime : ℚ) (sc : Scene) :
    Adds (fun l => l = .setRestrained false ∨ l = .setForceSneak (decide (isSneaking ≠ 0))) npc sc
      (applySneak npc isSneaking currentTime sc) := by
  have hfree := (unrestrain_adds npc currentTime sc).mono
    (Q := fun l => l = .setRestrained false ∨ l = .setForceSneak (decide (isSneaking ≠ 0)))
    fun l hl => .inl hl
  unfold applySneak
  split
  · exact .refl sc
  · split
    · rename_i hsneak
      exact hfree.trans (runCmd_adds npc [.setForceSneak true] _ (by simp [hsneak]))
    · rename_i hstand
      exact hfree.trans (runCmd_adds npc [.setForceSneak false] _ (by simp [not_not.mp hstand]))

theorem weaponFallback_unpolled (sc : Scene) :
    (weaponFallback m w npc sc).st.unpolled = sc.st.unpolled := by
  unfold weaponFallback
  split
  · dsimp only
    split
    · split
      · rw [refreshWeaponType_unpolled]
        simp [EntityAnimState.unpolled]
      · simp [EntityAnimState.unpolled]
    · simp
  · rfl

theorem weaponFallback_watches (sc : Scene) : Watches npc sc (weaponFallback m w npc sc) := by
  have hpoll := pollNumber_adds (P := fun _ => False) m w npc m.exprIsWeaponOut .isWeaponOut sc
  refine .of_unpolled ?_ (weaponFallback_unpolled m w npc sc)
  unfold weaponFallback
  split
  · dsimp only
    split
    · split
      · exact .trans hpoll (refreshWeaponType_adds m w npc _)
      · exact hpoll
    · exact hpoll
  · exact .refl sc

theorem weaponFallback_ops (sc : Scene) :
    (weaponFallback m w npc sc).st.pendingOps = sc.st.pendingOps := by
  unfold weaponFallback
  split
  · dsimp only
    split
    · split <;> simp
    · simp
  · rfl

/-- The lines of a weapon transition towards `out`. -/
def WeaponLine (out : Bool) (l : Line) : Prop :=
  l = .setRestrained false ∨ l = .setWeaponOut out ∨ l = .setAlert out

theorem drawWeapon_adds (currentTime : ℚ) (sc : Scene) :
    Adds (WeaponLine true) npc sc (drawWeapon npc currentTime sc) :=
  ((unrestrain_adds npc currentTime sc).mono fun _ hl => .inl hl).trans
    (runCmd_adds npc [.setWeaponOut true, .setAlert true] _ (by simp [WeaponLine]))

theorem holsterWeapon_adds (currentTime : ℚ) (sc : Scene) :
    Adds (WeaponLine false) npc sc (holsterWeapon npc currentTime sc) :=
  ((unrestrain_adds npc currentTime sc).mono fun _ hl => .inl hl).trans
    (runCmd_adds npc [.setWeaponOut false, .setAlert false] _ (by simp [WeaponLine]))

/-- The ways `ApplyWeapon` ends: an operation is pending, the weapon is as wanted, or one
of the two transitions is started. -/
theorem applyWeapon_cases (netIsWeaponOut : UInt8) (currentTime : ℚ) (sc : Scene) :
    ((sc.st.pendingOps.weaponDraw = true ∨ sc.st.pendingOps.weaponHolster = true) ∧
      applyWeapon m w npc netIsWeaponOut currentTime sc = sc) ∨
    (sc.st.pendingOps.weaponDraw = false ∧ sc.st.pendingOps.weaponHolster = false ∧
      ∃ mid, mid = weaponFallback m w npc sc ∧
        ((mid.st.npcWeaponOut = decide (netIsWeaponOut ≠ 0) ∧
          applyWeapon m w npc netIsWeaponOut currentTime sc = mid) ∨
        (mid.st.npcWeaponOut = false ∧ netIsWeaponOut ≠ 0 ∧
          applyWeapon m w npc netIsWeaponOut currentTime sc = drawWeapon npc currentTime mid) ∨
        (mid.st.npcWeaponOut = true ∧ netIsWeaponOut = 0 ∧
          applyWeapon m w npc netIsWeaponOut currentTime sc =
            holsterWeapon npc currentTime mid))) := by
  unfold applyWeapon
  split
  · rename_i hpending
    exact .inl ⟨by simpa using hpending, rfl⟩
  · rename_i hpending
    simp only [Bool.or_eq_true, not_or, Bool.not_eq_true] at hpending
    refine .inr ⟨hpending.1, hpending.2, _, rfl, ?_⟩
    dsimp only
    split
    · exact .inl ⟨by assumption, rfl⟩
    · rename_i hdiffer
      by_cases hout : netIsWeaponOut = 0
      · refine .inr (.inr ⟨by simpa [hout] using hdiffer, hout, ?_⟩)
        simp [hout]
      · refine .inr (.inl ⟨by simpa [hout] using hdiffer, hout, ?_⟩)
        simp [hout]

theorem applyWeapon_adds (netIsWeaponOut : UInt8) (currentTime : ℚ) (sc : Scene) :
    Adds (fun l => ∃ out, WeaponLine out l) npc sc
      (applyWeapon m w npc netIsWeaponOut currentTime sc) := by
  have hpolled : Adds (fun l => ∃ out, WeaponLine out l) npc sc (weaponFallback m w npc sc) :=
    (weaponFallback_watches m w npc sc).polls.mono fun _ => False.elim
  obtain ⟨-, h⟩ | ⟨-, -, mid, rfl, ⟨-, h⟩ | ⟨-, -, h⟩ | ⟨-, -, h⟩⟩ :=
    applyWeapon_cases m w npc netIsWeaponOut currentTime sc <;> rw [h]
  · exact .refl sc
  · exact hpolled
  · exact hpolled.trans ((drawWeapon_adds npc currentTime _).mono fun _ hl => ⟨true, hl⟩)
  · exact hpolled.trans ((holsterWeapon_adds npc currentTime _).mono fun _ hl => ⟨false, hl⟩)

/-! ## Animation groups -/

def Line.IsAnimation (l : Line) : Prop :=
  l = .playWeaponSound ∨ ∃ group flag, l = .playGroup group flag

theorem locomotion_animation {moveDir isRunning : UInt8} {lines : List Line}
    (h : locomotion moveDir isRunning = some lines) : ∀ l ∈ lines, Line.IsAnimation l := by
  unfold locomotion at h
  dsimp only at h
  split at h <;> cases h <;> simp [Line.IsAnimation]

theorem actionLines_animation {actionState isWeaponOut : UInt8} {lines : List Line}
    (h : actionLines actionState isWeaponOut = some lines) : ∀ l ∈ lines, Line.IsAnimation l := by
  unfold actionLines at h
  repeat' split at h
  all_goals cases h
  all_goals simp [Line.IsAnimation]

theorem applyLocomotion_adds (moveDir isRunning : UInt8) (currentTime : ℚ) (sc : Scene) :
    Adds Line.IsAnimation npc sc (applyLocomotion npc moveDir isRunning currentTime sc) := by
  unfold applyLocomotion
  split
  · exact .refl sc
  · split
    · exact .refl sc
    · split
      · rename_i lines hlines
        exact runCmd_adds npc lines sc (locomotion_animation hlines)
      · exact .refl sc

@[simp] theorem applyLocomotion_st (moveDir isRunning : UInt8) (currentTime : ℚ) (sc : Scene) :
    (applyLocomotion npc moveDir isRunning currentTime sc).st = sc.st := by
  unfold applyLocomotion
  split
  · rfl
  · split
    · rfl
    · split <;> rfl

theorem applyActions_adds (actionState isWeaponOut : UInt8) (currentTime : ℚ) (sc : Scene) :
    Adds Line.IsAnimation npc sc (applyActions npc actionState isWeaponOut currentTime sc) := by
  unfold applyActions
  split
  · exact .none rfl
  · dsimp only
    split
    · exact .none rfl
    · split
      · rename_i lines hlines
        exact runCmd_adds npc lines sc (actionLines_animation hlines)
      · exact .none rfl

/-- `ApplyActions` clears the request to reapply and may take over the action state. -/
theorem applyActions_st (actionState isWeaponOut : UInt8) (currentTime : ℚ) (sc : Scene) :
    (applyActions npc actionState isWeaponOut currentTime sc).st = { sc.st with
      forceReapplyActions := false
      prevActionState :=
        if currentTime < sc.st.attackAnimEndTime then actionState else sc.st.prevActionState } := by
  unfold applyActions
  split
  · rfl
  · dsimp only
    split
    · rfl
    · split <;> rfl

theorem applyFire_adds (currentTime : ℚ) (sc : Scene) :
    Adds Line.IsAnimation npc sc (applyFire m npc currentTime sc) := by
  have attack : ∀ (sc : Scene) lines, (∀ l ∈ lines, Line.IsAnimation l) →
      Adds Line.IsAnimation npc sc (runCmd npc lines sc) := fun sc lines => runCmd_adds npc lines sc
  unfold applyFire
  split
  · exact .refl sc
  · dsimp only
    split
    · split
      · exact (attack sc _ (by simp [Line.IsAnimation])).trans
          (attack _ _ (by simp [Line.IsAnimation]))
      · exact (attack sc _ (by simp [Line.IsAnimation])).trans
          (attack _ _ (by simp [Line.IsAnimation]))
    · split
      · exact attack sc _ (by simp [Line.IsAnimation])
      · split
        · exact attack sc _ (by simp [Line.IsAnimation])
        · exact attack sc _ (by simp [Line.IsAnimation])

/-- A fire event sets nothing but the end of the attack animation. -/
theorem applyFire_st (currentTime : ℚ) (sc : Scene) : ∃ t,
    (applyFire m npc currentTime sc).st = { sc.st with attackAnimEndTime := t } := by
  unfold applyFire
  split
  · exact ⟨sc.st.attackAnimEndTime, rfl⟩
  · dsimp only
    split
    · split <;> exact ⟨sc.st.attackAnimEndTime, rfl⟩
    · split
      · exact ⟨_, rfl⟩
      · split
        · exact ⟨_, rfl⟩
        · exact ⟨sc.st.attackAnimEndTime, rfl⟩

/-! ## A whole call -/

/-- Every line the two entry points can put on an NPC. -/
def StateLine (l : Line) : Prop :=
  Line.IsAnimation l ∨ ∃ b, l = .setRestrained b ∨ l = .setForceSneak b ∨
    l = .setWeaponOut b ∨ l = .setAlert b

theorem applyState_adds (net : NetState) (currentTime : ℚ) (sc : Scene) :
    Adds StateLine npc sc (applyState m w npc net currentTime sc) := by
  have hanim : ∀ l, Line.IsAnimation l → StateLine l := fun l hl => .inl hl
  unfold applyState
  split
  · exact .refl sc
  · refine ((pollUnrestrain_adds m w npc currentTime sc).mono ?_).trans <|
      ((applySneak_adds npc net.isSneaking currentTime _).mono ?_).trans <|
      ((applyWeapon_adds m w npc net.isWeaponOut currentTime _).mono ?_).trans <|
      ((applyLocomotion_adds npc net.moveDirection net.isRunning currentTime _).mono hanim).trans <|
      ((applyActions_adds npc net.actionState net.isWeaponOut currentTime _).mono hanim).trans
      (.none rfl)
    · rintro l rfl
      exact .inr ⟨true, .inl rfl⟩
    · rintro l (rfl | rfl)
      · exact .inr ⟨false, .inl rfl⟩
      · exact .inr ⟨_, .inr (.inl rfl)⟩
    · rintro l ⟨out, rfl | rfl | rfl⟩
      · exact .inr ⟨false, .inl rfl⟩
      · exact .inr ⟨out, .inr (.inr (.inl rfl))⟩
      · exact .inr ⟨out, .inr (.inr (.inr rfl))⟩

end Fnvmp.Animation
