import Fnvmp.SneakTransitions
import Fnvmp.WeaponHandshake

/-!
# What the polls of a call make of it

Which pending operations a call of `Animation_ApplyState` leaves pending is settled by the
state before it, its time, and what the engine answers to the polls it makes.
-/

namespace Fnvmp.Animation

open ExactFloat Engine Protocol CommandLog

variable (m : Module) (w : World) (npc : UInt32)

/-! ## The answers -/

/-- What a poll at this point of the trace is answered. A call that fails counts as 0, and so
does an expression that is not compiled. -/
def answer (compiled : Bool) (script : Script) (past : List Act) : FloatVal :=
  if compiled && m.script then (w.call past npc script).getD (.fin 0) else .fin 0

/-- `GetAnimAction` as an `int`, which is -1 without the expression. -/
def animAnswer (past : List Act) : Int :=
  if m.exprGetAnimAction then (answer m w npc true .getAnimAction past).toInt32 else -1

def sneakAnswer (past : List Act) : FloatVal := answer m w npc m.exprIsSneaking .isSneaking past

theorem pollNumber_answer (compiled : Bool) (script : Script) (sc : Scene) :
    (pollNumber m w npc compiled script sc).1 = answer m w npc compiled script sc.acts := by
  unfold pollNumber answer
  split <;> rfl

theorem pollAnimAction_answer (sc : Scene) :
    (pollAnimAction m w npc sc).1 = animAnswer m w npc sc.acts := by
  unfold pollAnimAction animAnswer
  split
  next hcompiled =>
    rw [hcompiled]
    exact congrArg FloatVal.toInt32 (pollNumber_answer m w npc true .getAnimAction sc)
  next => rfl

/-- The trace when `IsSneaking` is asked for a crouch that is pending. -/
def enterAsked (sc : Scene) : List Act := (pollHolster m w npc (pollDraw m w npc sc)).acts

/-- The trace when `IsSneaking` is asked for the end of sneaking. -/
def exitAsked (sc : Scene) : List Act :=
  (pollSneakEnter m w npc (pollHolster m w npc (pollDraw m w npc sc))).acts

/-! ## What stays pending -/

/-- The time in which pending operations are polled is not over. -/
def InTime (t : ℚ) (sc : Scene) : Prop := t - sc.st.unrestrainStartTime ≤ unrestrainTimeout

instance (t : ℚ) (sc : Scene) : Decidable (InTime t sc) :=
  inferInstanceAs (Decidable (_ ≤ unrestrainTimeout))

/-- The weapon animation was seen, and is not playing any more. -/
def WeaponEnds (out : Bool) (sc : Scene) : Prop :=
  sc.st.weaponAnimSeen = true ∧ animAnswer m w npc sc.acts ≠ animCode out

/-- The crouch was pending, and the NPC is not sneaking yet. -/
def StillEnters (t : ℚ) (sc : Scene) : Prop :=
  sc.st.pendingOps.sneakEnter = true ∧ InTime t sc ∧
    ¬ (sneakAnswer m w npc (enterAsked m w npc sc)).ge (.fin 1) = true

/-- The end of sneaking was pending, and the NPC is sneaking still. -/
def StillExits (t : ℚ) (sc : Scene) : Prop :=
  sc.st.pendingOps.sneakExit = true ∧ InTime t sc ∧
    ¬ sneakAnswer m w npc (exitAsked m w npc sc) < .fin 1

/-- Whatever was pending is carried out in time. -/
structure Completes (t : ℚ) (sc : Scene) : Prop where
  unrestrained : sc.st.isUnrestrained = true
  inTime : InTime t sc
  draw : sc.st.pendingOps.weaponDraw = true → WeaponEnds m w npc true sc
  holster : sc.st.pendingOps.weaponHolster = true → WeaponEnds m w npc false sc
  enter : ¬ StillEnters m w npc t sc
  exit : ¬ StillExits m w npc t sc

/-- With no weapon operation pending any more, the weapon is taken to be out. -/
def TakenOut (t : ℚ) (sc : Scene) : Prop :=
  if InTime t sc then
    if sc.st.pendingOps.weaponDraw then WeaponEnds m w npc true sc
    else sc.st.pendingOps.weaponHolster = false ∧ sc.st.npcWeaponOut = true
  else sc.st.npcWeaponOut = true

/-! ## One poll -/

/-- Every pending bit was pending before. -/
structure Fewer (st st' : EntityAnimState) : Prop where
  draw : st'.pendingOps.weaponDraw = true → st.pendingOps.weaponDraw = true
  holster : st'.pendingOps.weaponHolster = true → st.pendingOps.weaponHolster = true
  enter : st'.pendingOps.sneakEnter = true → st.pendingOps.sneakEnter = true
  exit : st'.pendingOps.sneakExit = true → st.pendingOps.sneakExit = true

theorem Fewer.same {st st' : EntityAnimState} (h : st'.pendingOps = st.pendingOps) :
    Fewer st st' := by
  constructor <;> rw [h] <;> exact id

theorem Fewer.trans {a b c : EntityAnimState} (h : Fewer a b) (h' : Fewer b c) : Fewer a c where
  draw := h.draw ∘ h'.draw
  holster := h.holster ∘ h'.holster
  enter := h.enter ∘ h'.enter
  exit := h.exit ∘ h'.exit

theorem pollDraw_fewer (sc : Scene) : Fewer sc.st (pollDraw m w npc sc).st := by
  unfold pollDraw
  split
  · dsimp only
    split <;> split <;> constructor <;> simp
  · exact .same rfl

theorem pollHolster_fewer (sc : Scene) : Fewer sc.st (pollHolster m w npc sc).st := by
  unfold pollHolster
  split
  · dsimp only
    split <;> split <;> constructor <;> simp
  · exact .same rfl

theorem pollSneakEnter_fewer (sc : Scene) : Fewer sc.st (pollSneakEnter m w npc sc).st := by
  unfold pollSneakEnter
  split
  · dsimp only
    split <;> constructor <;> simp
  · exact .same rfl

theorem pollSneakExit_fewer (sc : Scene) : Fewer sc.st (pollSneakExit m w npc sc).st := by
  unfold pollSneakExit
  split
  · dsimp only
    split <;> constructor <;> simp
  · exact .same rfl

theorem pollPending_fewer (sc : Scene) : Fewer sc.st (pollPending m w npc sc).st :=
  (pollDraw_fewer m w npc sc).trans <| (pollHolster_fewer m w npc _).trans <|
    (pollSneakEnter_fewer m w npc _).trans (pollSneakExit_fewer m w npc _)

theorem pollUnrestrain_fewer (currentTime : ℚ) (sc : Scene) :
    Fewer sc.st (pollUnrestrain m w npc currentTime sc).st := by
  obtain ⟨-, h⟩ | ⟨-, -, h⟩ | ⟨-, -, mid, rfl, ⟨-, h⟩ | ⟨-, h⟩⟩ :=
    pollUnrestrain_cases m w npc currentTime sc <;> rw [h]
  · exact .same rfl
  · constructor <;> simp
  · exact pollPending_fewer m w npc sc
  · exact (pollPending_fewer m w npc sc).trans (.same rfl)

/-- The two sneak bits. -/
def EntityAnimState.sneakBits (st : EntityAnimState) : Bool × Bool :=
  (st.pendingOps.sneakEnter, st.pendingOps.sneakExit)

theorem pollDraw_idle {sc : Scene} (h : sc.st.pendingOps.weaponDraw = false) :
    pollDraw m w npc sc = sc := by
  rw [pollDraw, if_neg (by simp [h])]

theorem pollHolster_idle {sc : Scene} (h : sc.st.pendingOps.weaponHolster = false) :
    pollHolster m w npc sc = sc := by
  rw [pollHolster, if_neg (by simp [h])]

theorem pollDraw_holster (sc : Scene) : (pollDraw m w npc sc).st.pendingOps.weaponHolster =
    sc.st.pendingOps.weaponHolster := by
  unfold pollDraw
  split
  · dsimp only
    split <;> split <;> simp
  · rfl

theorem pollDraw_sneakBits (sc : Scene) :
    (pollDraw m w npc sc).st.sneakBits = sc.st.sneakBits := by
  unfold pollDraw
  split
  · dsimp only
    split <;> split <;> simp [EntityAnimState.sneakBits]
  · rfl

theorem pollHolster_sneakBits (sc : Scene) :
    (pollHolster m w npc sc).st.sneakBits = sc.st.sneakBits := by
  unfold pollHolster
  split
  · dsimp only
    split <;> split <;> simp [EntityAnimState.sneakBits]
  · rfl

theorem pollSneakEnter_exit (sc : Scene) : (pollSneakEnter m w npc sc).st.pendingOps.sneakExit =
    sc.st.pendingOps.sneakExit := by
  unfold pollSneakEnter
  split
  · dsimp only
    split <;> simp
  · rfl

theorem pollDraw_draw (sc : Scene) : (pollDraw m w npc sc).st.pendingOps.weaponDraw = true ↔
    sc.st.pendingOps.weaponDraw = true ∧ ¬ WeaponEnds m w npc true sc := by
  unfold pollDraw WeaponEnds
  rw [show animCode true = 0 from rfl, ← pollAnimAction_answer]
  split
  next hdraw =>
    dsimp only
    by_cases hseen : sc.st.weaponAnimSeen = true <;>
      by_cases hanim : (pollAnimAction m w npc sc).1 = 0 <;> simp [hseen, hanim, hdraw]
  next hidle => simp [hidle]

/-- A draw that has ended leaves the weapon out. -/
theorem pollDraw_out {sc : Scene} (hdraw : sc.st.pendingOps.weaponDraw = true)
    (hends : WeaponEnds m w npc true sc) : (pollDraw m w npc sc).st.npcWeaponOut = true := by
  obtain ⟨hseen, hanim⟩ := hends
  rw [show animCode true = 0 from rfl, ← pollAnimAction_answer] at hanim
  rw [pollDraw, if_pos hdraw]
  dsimp only
  rw [if_neg hanim, pollAnimAction_st, if_pos ⟨hseen, hanim⟩]
  obtain ⟨wtype, hst⟩ := refreshWeaponType_st m w npc
    ⟨{ sc.st with
      pendingOps := { sc.st.pendingOps with weaponDraw := false }
      weaponAnimSeen := false
      npcWeaponOut := true }, (pollAnimAction m w npc sc).2.acts⟩
  rw [hst]

theorem pollHolster_holster (sc : Scene) :
    (pollHolster m w npc sc).st.pendingOps.weaponHolster = true ↔
      sc.st.pendingOps.weaponHolster = true ∧ ¬ WeaponEnds m w npc false sc := by
  unfold pollHolster WeaponEnds
  rw [show animCode false = 1 from rfl, ← pollAnimAction_answer]
  split
  next hholster =>
    dsimp only
    by_cases hseen : sc.st.weaponAnimSeen = true <;>
      by_cases hanim : (pollAnimAction m w npc sc).1 = 1 <;> simp [hseen, hanim, hholster]
  next hidle => simp [hidle]

/-- A holster that has ended leaves the weapon in. -/
theorem pollHolster_out {sc : Scene} (hholster : sc.st.pendingOps.weaponHolster = true)
    (hends : WeaponEnds m w npc false sc) : (pollHolster m w npc sc).st.npcWeaponOut = false := by
  obtain ⟨hseen, hanim⟩ := hends
  rw [show animCode false = 1 from rfl, ← pollAnimAction_answer] at hanim
  rw [pollHolster, if_pos hholster]
  dsimp only
  rw [if_neg hanim, pollAnimAction_st, if_pos ⟨hseen, hanim⟩]

theorem pollHolster_draw (sc : Scene) : (pollHolster m w npc sc).st.pendingOps.weaponDraw =
    sc.st.pendingOps.weaponDraw := by
  unfold pollHolster
  split
  · dsimp only
    split <;> split <;> simp
  · rfl

theorem pollSneakEnter_enter (sc : Scene) :
    (pollSneakEnter m w npc sc).st.pendingOps.sneakEnter = true ↔
      sc.st.pendingOps.sneakEnter = true ∧ ¬ (sneakAnswer m w npc sc.acts).ge (.fin 1) = true := by
  unfold pollSneakEnter sneakAnswer
  rw [← pollNumber_answer]
  split
  next henter =>
    dsimp only
    split <;> simp [*]
  next hidle => simp [hidle]

theorem pollSneakExit_exit (sc : Scene) :
    (pollSneakExit m w npc sc).st.pendingOps.sneakExit = true ↔
      sc.st.pendingOps.sneakExit = true ∧ ¬ sneakAnswer m w npc sc.acts < .fin 1 := by
  unfold pollSneakExit sneakAnswer
  rw [← pollNumber_answer]
  split
  next hexit =>
    dsimp only
    split <;> simp [*]
  next hidle => simp [hidle]

theorem pollSneakExit_enter (sc : Scene) : (pollSneakExit m w npc sc).st.pendingOps.sneakEnter =
    sc.st.pendingOps.sneakEnter := by
  unfold pollSneakExit
  split
  · dsimp only
    split <;> simp
  · rfl

/-! ## The four polls -/

/-- Neither weapon poll touches the sneak bits. -/
theorem pollWeapons_sneakBits (sc : Scene) :
    (pollHolster m w npc (pollDraw m w npc sc)).st.sneakBits = sc.st.sneakBits :=
  (pollHolster_sneakBits m w npc _).trans (pollDraw_sneakBits m w npc sc)

theorem pollPending_enter (sc : Scene) :
    (pollPending m w npc sc).st.pendingOps.sneakEnter = true ↔
      sc.st.pendingOps.sneakEnter = true ∧
        ¬ (sneakAnswer m w npc (enterAsked m w npc sc)).ge (.fin 1) = true := by
  have hbit : (pollHolster m w npc (pollDraw m w npc sc)).st.pendingOps.sneakEnter =
      sc.st.pendingOps.sneakEnter := congrArg Prod.fst (pollWeapons_sneakBits m w npc sc)
  rw [pollPending, pollSneakExit_enter, pollSneakEnter_enter, hbit]
  rfl

theorem pollPending_exit (sc : Scene) :
    (pollPending m w npc sc).st.pendingOps.sneakExit = true ↔
      sc.st.pendingOps.sneakExit = true ∧
        ¬ sneakAnswer m w npc (exitAsked m w npc sc) < .fin 1 := by
  have hbit : (pollHolster m w npc (pollDraw m w npc sc)).st.pendingOps.sneakExit =
      sc.st.pendingOps.sneakExit := congrArg Prod.snd (pollWeapons_sneakBits m w npc sc)
  rw [pollPending, pollSneakExit_exit, pollSneakEnter_exit, hbit]
  rfl

theorem pollPending_weapon (sc : Scene) : (pollPending m w npc sc).st.weapon =
    (pollHolster m w npc (pollDraw m w npc sc)).st.weapon :=
  (pollSneakExit_weapon m w npc _).trans (pollSneakEnter_weapon m w npc _)

theorem pollPending_draw (sc : Scene) :
    (pollPending m w npc sc).st.pendingOps.weaponDraw = true ↔
      sc.st.pendingOps.weaponDraw = true ∧ ¬ WeaponEnds m w npc true sc := by
  have hbit : (pollPending m w npc sc).st.pendingOps.weaponDraw =
      (pollHolster m w npc (pollDraw m w npc sc)).st.pendingOps.weaponDraw :=
    congrArg WeaponState.draw (pollPending_weapon m w npc sc)
  rw [hbit, pollHolster_draw, pollDraw_draw]

/-- At most one weapon operation is pending. -/
def OneWeapon (sc : Scene) : Prop :=
  ¬ (sc.st.pendingOps.weaponDraw = true ∧ sc.st.pendingOps.weaponHolster = true)

variable {m w npc}

theorem OneWeapon.no_draw {sc : Scene} (h : OneWeapon sc)
    (hholster : sc.st.pendingOps.weaponHolster = true) : sc.st.pendingOps.weaponDraw = false := by
  by_contra hdraw
  exact h ⟨by simpa using hdraw, hholster⟩

theorem OneWeapon.no_holster {sc : Scene} (h : OneWeapon sc)
    (hdraw : sc.st.pendingOps.weaponDraw = true) : sc.st.pendingOps.weaponHolster = false := by
  by_contra hholster
  exact h ⟨hdraw, by simpa using hholster⟩

theorem OneWeapon.polled_holster {sc : Scene} (h : OneWeapon sc) :
    (pollPending m w npc sc).st.pendingOps.weaponHolster = true ↔
      sc.st.pendingOps.weaponHolster = true ∧ ¬ WeaponEnds m w npc false sc := by
  have hbit : (pollPending m w npc sc).st.pendingOps.weaponHolster =
      (pollHolster m w npc (pollDraw m w npc sc)).st.pendingOps.weaponHolster :=
    congrArg WeaponState.holster (pollPending_weapon m w npc sc)
  rw [hbit]
  by_cases hholster : sc.st.pendingOps.weaponHolster = true
  · rw [pollDraw_idle m w npc (h.no_draw hholster), pollHolster_holster]
  · rw [pollHolster_holster, pollDraw_holster]
    simp [hholster]

/-- After the polls no weapon operation is pending and the weapon is out. -/
theorem OneWeapon.polled_out {sc : Scene} (h : OneWeapon sc) :
    ((pollPending m w npc sc).st.pendingOps.weaponDraw = false ∧
      (pollPending m w npc sc).st.pendingOps.weaponHolster = false ∧
      (pollPending m w npc sc).st.npcWeaponOut = true) ↔
    if sc.st.pendingOps.weaponDraw then WeaponEnds m w npc true sc
    else sc.st.pendingOps.weaponHolster = false ∧ sc.st.npcWeaponOut = true := by
  have hout := weapon_out (pollPending_weapon m w npc sc)
  have hdraws := pollPending_draw m w npc sc
  have hholsters : (pollPending m w npc sc).st.pendingOps.weaponHolster = true ↔
      sc.st.pendingOps.weaponHolster = true ∧ ¬ WeaponEnds m w npc false sc := h.polled_holster
  rw [hout, ← Bool.not_eq_true, ← Bool.not_eq_true, hdraws, hholsters]
  cases hdraw : sc.st.pendingOps.weaponDraw with
  | true =>
    have hholster := h.no_holster hdraw
    have hidle : pollHolster m w npc (pollDraw m w npc sc) = pollDraw m w npc sc :=
      pollHolster_idle m w npc (by rw [pollDraw_holster, hholster])
    rw [hidle, hholster]
    simp only [true_and, not_not, Bool.false_eq_true, false_and, not_false_eq_true, if_true]
    exact ⟨And.left, fun hends => ⟨hends, pollDraw_out m w npc hdraw hends⟩⟩
  | false =>
    rw [pollDraw_idle m w npc hdraw]
    cases hholster : sc.st.pendingOps.weaponHolster with
    | true =>
      simp only [Bool.false_eq_true, false_and, not_false_eq_true, true_and, not_not, if_false,
        Bool.true_eq_false, iff_false, not_and]
      intro hends
      rw [pollHolster_out m w npc hholster hends]
      decide
    | false =>
      rw [pollHolster_idle m w npc hholster]
      simp

/-! ## The call's poll -/

/-- Only an unrestrained NPC has an operation pending. -/
def Freed (sc : Scene) : Prop := sc.st.pendingOps ≠ {} → sc.st.isUnrestrained = true

/-- Where the polls are made their bits stay, and else none does. -/
theorem Freed.polled_ops {sc : Scene} (h : Freed sc) (t : ℚ) :
    (pollUnrestrain m w npc t sc).st.pendingOps =
      if sc.st.isUnrestrained = true ∧ InTime t sc then (pollPending m w npc sc).st.pendingOps
      else {} := by
  obtain ⟨hrestrained, heq⟩ | ⟨-, hlate, heq⟩ | ⟨hfree, hsoon, mid, rfl, ⟨-, heq⟩ | ⟨-, heq⟩⟩ :=
    pollUnrestrain_cases m w npc t sc <;> rw [heq]
  · rw [if_neg (by simp [hrestrained])]
    by_contra hsome
    exact absurd (h hsome) (by simp [hrestrained])
  · rw [if_neg fun hboth => absurd hboth.2 (not_le.mpr hlate)]
  · rw [if_pos ⟨hfree, hsoon⟩]
  · rw [if_pos ⟨hfree, hsoon⟩]

theorem Freed.of_bit {sc : Scene} (h : Freed sc) {f : PendingOps → Bool} (hnone : f {} = false)
    (hbit : f sc.st.pendingOps = true) : sc.st.isUnrestrained = true :=
  h fun hops => by rw [hops, hnone] at hbit; cases hbit

theorem Freed.polled_enter {sc : Scene} (h : Freed sc) (t : ℚ) :
    (pollUnrestrain m w npc t sc).st.pendingOps.sneakEnter = true ↔ StillEnters m w npc t sc := by
  rw [h.polled_ops]
  unfold StillEnters
  split
  next hpolled =>
    rw [pollPending_enter]
    exact ⟨fun hstill => ⟨hstill.1, hpolled.2, hstill.2⟩, fun hstill => ⟨hstill.1, hstill.2.2⟩⟩
  next hskipped =>
    refine iff_of_false Bool.false_ne_true fun hstill => hskipped ⟨?_, hstill.2.1⟩
    exact h.of_bit (f := PendingOps.sneakEnter) rfl hstill.1

theorem Freed.polled_exit {sc : Scene} (h : Freed sc) (t : ℚ) :
    (pollUnrestrain m w npc t sc).st.pendingOps.sneakExit = true ↔ StillExits m w npc t sc := by
  rw [h.polled_ops]
  unfold StillExits
  split
  next hpolled =>
    rw [pollPending_exit]
    exact ⟨fun hstill => ⟨hstill.1, hpolled.2, hstill.2⟩, fun hstill => ⟨hstill.1, hstill.2.2⟩⟩
  next hskipped =>
    refine iff_of_false Bool.false_ne_true fun hstill => hskipped ⟨?_, hstill.2.1⟩
    exact h.of_bit (f := PendingOps.sneakExit) rfl hstill.1

theorem ops_empty (ops : PendingOps) : ops = {} ↔ ¬ ops.weaponDraw = true ∧
    ¬ ops.weaponHolster = true ∧ ¬ ops.sneakEnter = true ∧ ¬ ops.sneakExit = true := by
  cases ops
  simp

/-- The NPC is restrained again when every pending operation was carried out in time. -/
theorem OneWeapon.completes_iff {sc : Scene} (hone : OneWeapon sc) (t : ℚ) :
    completes m w npc t sc = true ↔ Completes m w npc t sc := by
  have hfree := (pollPending_watches m w npc sc).isUnrestrained
  have hdone : completes m w npc t sc = true ↔ sc.st.isUnrestrained = true ∧ InTime t sc ∧
      (pollPending m w npc sc).st.pendingOps = {} := by
    unfold completes InTime
    obtain ⟨hrestrained, h⟩ | ⟨-, hlate, h⟩ | ⟨hbefore, hsoon, mid, rfl, ⟨hsome, h⟩ | ⟨hnone, h⟩⟩ :=
      pollUnrestrain_cases m w npc t sc
    · simp [hrestrained]
    · simp [not_le.mpr hlate]
    · rw [h, hfree, hbefore]
      simp [hsome]
    · rw [h]
      simp [hbefore, hsoon, hnone]
  rw [hdone, ops_empty, pollPending_draw, hone.polled_holster, pollPending_enter, pollPending_exit]
  constructor
  · rintro ⟨hunrestrained, htime, hdraw, hholster, henter, hexit⟩
    exact ⟨hunrestrained, htime, fun hbit => not_not.mp fun hno => hdraw ⟨hbit, hno⟩,
      fun hbit => not_not.mp fun hno => hholster ⟨hbit, hno⟩,
      fun hstill => henter ⟨hstill.1, hstill.2.2⟩, fun hstill => hexit ⟨hstill.1, hstill.2.2⟩⟩
  · rintro ⟨hunrestrained, htime, hdraw, hholster, henter, hexit⟩
    exact ⟨hunrestrained, htime, fun hbit => hbit.2 (hdraw hbit.1),
      fun hbit => hbit.2 (hholster hbit.1), fun hbit => henter ⟨hbit.1, htime, hbit.2⟩,
      fun hbit => hexit ⟨hbit.1, htime, hbit.2⟩⟩

/-- What the weapon is taken for after the polls of a call. -/
theorem Freed.takenOut_iff {sc : Scene} (h : Freed sc) (hone : OneWeapon sc) (t : ℚ) :
    ((pollUnrestrain m w npc t sc).st.pendingOps.weaponDraw = false ∧
      (pollUnrestrain m w npc t sc).st.pendingOps.weaponHolster = false ∧
      (pollUnrestrain m w npc t sc).st.npcWeaponOut = true) ↔ TakenOut m w npc t sc := by
  unfold TakenOut
  obtain ⟨hrestrained, heq⟩ | ⟨-, hlate, heq⟩ | ⟨-, hsoon, mid, rfl, ⟨-, heq⟩ | ⟨-, heq⟩⟩ :=
    pollUnrestrain_cases m w npc t sc <;> rw [heq]
  · have hnone : sc.st.pendingOps = {} := by
      by_contra hsome
      exact absurd (h hsome) (by simp [hrestrained])
    simp [hnone]
  · rw [if_neg (show ¬ InTime t sc from not_le.mpr hlate)]
    simp
  · rw [if_pos (show InTime t sc from hsoon)]
    exact hone.polled_out
  · rw [if_pos (show InTime t sc from hsoon)]
    exact hone.polled_out

/-! ## Over runs -/

variable (m w npc)

theorem OneWeapon.of_same {sc sc' : Scene} (h : OneWeapon sc)
    (hweapon : sc'.st.weapon = sc.st.weapon) : OneWeapon sc' := by
  have hdraw := awaits_eq hweapon true
  have hholster := awaits_eq hweapon false
  simp only [EntityAnimState.awaits, if_true, Bool.false_eq_true, if_false] at hdraw hholster
  rw [OneWeapon, hdraw, hholster]
  exact h

theorem applyWeapon_one {sc : Scene} (h : OneWeapon sc) (netIsWeaponOut : UInt8) (t : ℚ) :
    OneWeapon (applyWeapon m w npc netIsWeaponOut t sc) := by
  obtain ⟨-, heq⟩ | ⟨hdraw, hholster, mid, rfl, ⟨-, heq⟩ | ⟨-, -, heq⟩ | ⟨-, -, heq⟩⟩ :=
    applyWeapon_cases m w npc netIsWeaponOut t sc <;> rw [heq]
  · exact h
  · rw [OneWeapon, weaponFallback_ops]
    exact h
  · simp [OneWeapon, drawWeapon, runCmd, unrestrain_st, weaponFallback_ops, hholster]
  · simp [OneWeapon, holsterWeapon, runCmd, unrestrain_st, weaponFallback_ops, hdraw]

theorem call_one (c : Call) {sc : Scene} (h : OneWeapon sc) :
    OneWeapon (c.run m npc sc) := by
  cases c with
  | applyFire t => exact h.of_same (applyFire_apart m npc t sc).weapon
  | applyState net t w =>
    by_cases hconsole : m.console = true
    · have hpolled : OneWeapon (pollUnrestrain m w npc t sc) := fun hboth =>
        h ⟨(pollUnrestrain_fewer m w npc t sc).draw hboth.1,
          (pollUnrestrain_fewer m w npc t sc).holster hboth.2⟩
      have hsneaked := hpolled.of_same (applySneak_weapon npc net.isSneaking t _)
      exact (applyWeapon_one m w npc hsneaked net.isWeaponOut t).of_same
        (applyState_apart m w npc hconsole net t sc).weapon
    · rw [Call.run, applyState, if_pos (by simpa using hconsole)]
      exact h

theorem Freed.start {sc : Scene} (h : sc.st.isUnrestrained = true) : Freed sc := fun _ => h

theorem Freed.of_same {sc sc' : Scene} (h : Freed sc) (hops : sc'.st.pendingOps = sc.st.pendingOps)
    (hfree : sc'.st.isUnrestrained = sc.st.isUnrestrained) : Freed sc' := by
  rw [Freed, hops, hfree]
  exact h

theorem pollUnrestrain_freed {sc : Scene} (h : Freed sc) (t : ℚ) :
    Freed (pollUnrestrain m w npc t sc) := by
  have hfree := (pollPending_watches m w npc sc).isUnrestrained
  obtain ⟨-, heq⟩ | ⟨-, -, heq⟩ | ⟨hbefore, -, mid, rfl, ⟨-, heq⟩ | ⟨hnone, heq⟩⟩ :=
    pollUnrestrain_cases m w npc t sc <;> rw [heq]
  · exact h
  · exact fun hsome => absurd rfl hsome
  · exact .start (hfree.trans hbefore)
  · exact fun hsome => absurd hnone hsome

theorem applySneak_freed {sc : Scene} (h : Freed sc) (isSneaking : UInt8) (t : ℚ) :
    Freed (applySneak npc isSneaking t sc) := by
  unfold applySneak
  split
  · exact h
  · split <;> exact .start (by simp [runCmd, unrestrain_st])

theorem applyWeapon_freed {sc : Scene} (h : Freed sc) (netIsWeaponOut : UInt8) (t : ℚ) :
    Freed (applyWeapon m w npc netIsWeaponOut t sc) := by
  obtain ⟨-, heq⟩ | ⟨-, -, mid, rfl, ⟨-, heq⟩ | ⟨-, -, heq⟩ | ⟨-, -, heq⟩⟩ :=
    applyWeapon_cases m w npc netIsWeaponOut t sc <;> rw [heq]
  · exact h
  · exact h.of_same (weaponFallback_ops m w npc sc) (weaponFallback_watches m w npc sc).isUnrestrained
  · exact .start (by simp [drawWeapon, runCmd, unrestrain_st])
  · exact .start (by simp [holsterWeapon, runCmd, unrestrain_st])

theorem call_freed (c : Call) {sc : Scene} (h : Freed sc) : Freed (c.run m npc sc) := by
  cases c with
  | applyFire t =>
    obtain ⟨stop, hst⟩ := applyFire_st m npc t sc
    exact h.of_same (by rw [Call.run, hst]) (by rw [Call.run, hst])
  | applyState net t w =>
    by_cases hconsole : m.console = true
    · have hpolled := pollUnrestrain_freed m w npc h t
      have hsneaked := applySneak_freed npc hpolled net.isSneaking t
      have hweapon := applyWeapon_freed m w npc hsneaked net.isWeaponOut t
      rw [Call.run, applyState_eq m w npc hconsole]
      refine hweapon.of_same ?_ ?_ <;>
        simp only [storePrev, applyActions_st, applyLocomotion_st] <;> rfl
    · rw [Call.run, applyState, if_pos (by simpa using hconsole)]
      exact h

/-- In every run at most one weapon operation is pending, and only on an unrestrained NPC. -/
theorem play_handled (acts : List Act) (calls : List Call) :
    OneWeapon (play m npc calls ⟨{}, acts⟩) ∧ Freed (play m npc calls ⟨{}, acts⟩) :=
  ⟨play_invariant OneWeapon (fun c _ => call_one m npc c) calls (by simp [OneWeapon]),
    play_invariant Freed (fun c _ => call_freed m npc c) calls fun hsome => absurd rfl hsome⟩

end Fnvmp.Animation
