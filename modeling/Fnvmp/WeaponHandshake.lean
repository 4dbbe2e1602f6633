import Fnvmp.AnimationActs

/-!
# The weapon handshake

A draw or holster is ordered by `SetWeaponOut`, and is done when `GetAnimAction` has
shown the animation of that order and then something else. The trace since the order
tells what the pending operation has seen.
-/

namespace Fnvmp.Animation

open ExactFloat Engine Protocol CommandLog

/-! ## The weapon in the animation state -/

/-- The fields that belong to the weapon. -/
structure WeaponState where
  draw : Bool
  holster : Bool
  seen : Bool
  out : Bool
  wtype : Int
  deriving DecidableEq

def EntityAnimState.weapon (st : EntityAnimState) : WeaponState :=
  ⟨st.pendingOps.weaponDraw, st.pendingOps.weaponHolster, st.weaponAnimSeen, st.npcWeaponOut,
    st.cachedWeaponType⟩

/-- The operation towards `out` is pending: the draw or the holster. -/
def EntityAnimState.awaits (st : EntityAnimState) (out : Bool) : Bool :=
  if out then st.pendingOps.weaponDraw else st.pendingOps.weaponHolster

theorem awaits_eq {st st' : EntityAnimState} (h : st'.weapon = st.weapon) (out : Bool) :
    st'.awaits out = st.awaits out := by
  simp only [EntityAnimState.weapon, WeaponState.mk.injEq] at h
  obtain ⟨hdraw, hholster, -⟩ := h
  simp only [EntityAnimState.awaits, hdraw, hholster]

theorem weapon_seen {st st' : EntityAnimState} (h : st'.weapon = st.weapon) :
    st'.weaponAnimSeen = st.weaponAnimSeen := congrArg WeaponState.seen h

theorem weapon_wtype {st st' : EntityAnimState} (h : st'.weapon = st.weapon) :
    st'.cachedWeaponType = st.cachedWeaponType := congrArg WeaponState.wtype h

theorem weapon_out {st st' : EntityAnimState} (h : st'.weapon = st.weapon) :
    st'.npcWeaponOut = st.npcWeaponOut := congrArg WeaponState.out h

/-- `GetAnimAction` while the weapon is being drawn, or holstered. -/
def animCode (out : Bool) : Int := if out then 0 else 1

/-! ## The order in the trace -/

def Line.weaponOrder : Line → Option Bool
  | .setWeaponOut out => some out
  | _ => none

/-- The order a command gives the NPC. -/
def weaponOrder (npc : UInt32) : Act → Option Bool
  | .cmd r lines => if r = npc then latest Line.weaponOrder lines else none
  | _ => none

/-- The value of a poll of `GetAnimAction`, as an `int`. -/
def animPoll (npc : UInt32) : Act → Option Int
  | .poll r .getAnimAction answer => if r = npc then some (answer.getD (.fin 0)).toInt32 else none
  | _ => none

/-- The last weapon order given to an NPC and what `GetAnimAction` has returned since. -/
def sinceOrder (npc : UInt32) (acts : List Act) : Option (Bool × List Int) :=
  since (weaponOrder npc) (animPoll npc) acts

/-- The values of all `SetWeaponOut` lines put on an NPC, oldest first. -/
def orders (npc : UInt32) (acts : List Act) : List Bool :=
  acts.flatMap fun a => (a.linesTo npc).filterMap Line.weaponOrder

/-- The answers to all polls of `IsWeaponOut`, oldest first. -/
def outPolls (npc : UInt32) (acts : List Act) : List (Option FloatVal) :=
  acts.flatMap fun
    | .poll r .isWeaponOut answer => if r = npc then [answer] else []
    | _ => []

/-- The trace shows that the last order was carried out: its animation was polled after
it, and the newest poll is another one. -/
def CarriedOut (npc : UInt32) (out : Bool) (acts : List Act) : Prop :=
  ∃ polls v, sinceOrder npc acts = some (out, polls ++ [v]) ∧ animCode out ∈ polls ∧
    v ≠ animCode out

/-- What a pending operation knows stands in the trace. -/
def Tracks (npc : UInt32) (sc : Scene) : Prop :=
  ∀ out, sc.st.awaits out = true → ∃ polls, sinceOrder npc sc.acts = some (out, polls) ∧
    (sc.st.weaponAnimSeen = true → animCode out ∈ polls)

theorem Tracks.fresh {npc : UInt32} {sc : Scene} (h : ∀ out, sc.st.awaits out = false) :
    Tracks npc sc := by
  intro out hout
  rw [h out] at hout
  cases hout

/-- Only one operation is pending at a time. -/
theorem Tracks.unique {npc : UInt32} {sc : Scene} (h : Tracks npc sc) {out o : Bool}
    (hout : sc.st.awaits out = true) (ho : sc.st.awaits o = true) : o = out := by
  obtain ⟨polls, hsince, -⟩ := h out hout
  obtain ⟨polls', hsince', -⟩ := h o ho
  rw [hsince, Option.some.injEq, Prod.mk.injEq] at hsince'
  exact hsince'.1.symm

theorem Tracks.one {npc : UInt32} {sc : Scene} (h : Tracks npc sc) {out : Bool}
    (hout : sc.st.awaits out = true) : sc.st.awaits (!out) = false := by
  refine Bool.eq_false_iff.mpr fun hother => ?_
  have heq := h.unique hout hother
  cases out <;> cases heq

theorem Tracks.of_same {npc : UInt32} {sc sc' : Scene} (h : Tracks npc sc)
    (hweapon : sc'.st.weapon = sc.st.weapon)
    (hsince : sinceOrder npc sc'.acts = sinceOrder npc sc.acts) : Tracks npc sc' := by
  intro out hout
  rw [awaits_eq hweapon] at hout
  rw [hsince, weapon_seen hweapon]
  exact h out hout

/-! ## Functions that leave the weapon alone -/

variable (m : Module) (w : World) (npc : UInt32)

theorem unrestrain_weapon (currentTime : ℚ) (sc : Scene) :
    (unrestrain npc currentTime sc).st.weapon = sc.st.weapon := by
  rw [unrestrain_st]
  rfl

theorem applySneak_weapon (isSneaking : UInt8) (currentTime : ℚ) (sc : Scene) :
    (applySneak npc isSneaking currentTime sc).st.weapon = sc.st.weapon := by
  have hfree := unrestrain_weapon npc currentTime sc
  unfold applySneak
  split
  · rfl
  · split <;> exact hfree

theorem pollSneakEnter_weapon (sc : Scene) :
    (pollSneakEnter m w npc sc).st.weapon = sc.st.weapon := by
  unfold pollSneakEnter
  split
  · dsimp only
    split <;> simp [EntityAnimState.weapon]
  · rfl

theorem pollSneakExit_weapon (sc : Scene) :
    (pollSneakExit m w npc sc).st.weapon = sc.st.weapon := by
  unfold pollSneakExit
  split
  · dsimp only
    split <;> simp [EntityAnimState.weapon]
  · rfl

/-- What no order and no poll of `GetAnimAction` is. -/
theorem sinceOrder_does {P : Act → Prop} {sc sc' : Scene} (h : Does P sc sc')
    (hP : ∀ a, P a → weaponOrder npc a = none ∧ animPoll npc a = none) :
    sinceOrder npc sc'.acts = sinceOrder npc sc.acts := h.since hP

theorem sinceOrder_asks {S : Script → Prop} {sc sc' : Scene} (h : Does (Asks S npc) sc sc')
    (hS : ¬ S .getAnimAction) : sinceOrder npc sc'.acts = sinceOrder npc sc.acts := by
  apply sinceOrder_does npc h
  rintro a ⟨script, answer, hs, rfl⟩
  refine ⟨rfl, ?_⟩
  cases script with
  | getAnimAction => exact absurd hs hS
  | isWeaponOut | isSneaking | getEquippedWeaponType => rfl

theorem sinceOrder_tells {L : List Line → Prop} {sc sc' : Scene} (h : Does (Tells L npc) sc sc')
    (hL : ∀ lines, L lines → ∀ l ∈ lines, Line.weaponOrder l = none) :
    sinceOrder npc sc'.acts = sinceOrder npc sc.acts := by
  apply sinceOrder_does npc h
  rintro a ⟨lines, hlines, rfl⟩
  refine ⟨?_, rfl⟩
  have hnone : latest Line.weaponOrder lines = none := by
    simpa [latest] using latest_silent Line.weaponOrder [] lines (hL lines hlines)
  simp [weaponOrder, hnone]

theorem orders_asks {S : Script → Prop} {sc sc' : Scene} (h : Does (Asks S npc) sc sc') :
    orders npc sc'.acts = orders npc sc.acts := by
  apply h.flatMap
  rintro a ⟨script, answer, -, rfl⟩
  rfl

theorem orders_tells {L : List Line → Prop} {sc sc' : Scene} (h : Does (Tells L npc) sc sc')
    (hL : ∀ lines, L lines → ∀ l ∈ lines, Line.weaponOrder l = none) :
    orders npc sc'.acts = orders npc sc.acts := by
  apply h.flatMap
  rintro a ⟨lines, hlines, rfl⟩
  simpa [Act.linesTo, List.filterMap_eq_nil_iff] using hL lines hlines

theorem outPolls_asks {S : Script → Prop} {sc sc' : Scene} (h : Does (Asks S npc) sc sc')
    (hS : ¬ S .isWeaponOut) : outPolls npc sc'.acts = outPolls npc sc.acts := by
  apply h.flatMap
  rintro a ⟨script, answer, hs, rfl⟩
  cases script with
  | isWeaponOut => exact absurd hs hS
  | getAnimAction | isSneaking | getEquippedWeaponType => rfl

theorem outPolls_tells {L : List Line → Prop} {sc sc' : Scene} (h : Does (Tells L npc) sc sc') :
    outPolls npc sc'.acts = outPolls npc sc.acts := by
  apply h.flatMap
  rintro a ⟨lines, -, rfl⟩
  rfl

/-- A function that has nothing to do with the weapon. -/
structure Apart (npc : UInt32) (sc sc' : Scene) : Prop where
  weapon : sc'.st.weapon = sc.st.weapon
  since : sinceOrder npc sc'.acts = sinceOrder npc sc.acts
  orders : orders npc sc'.acts = orders npc sc.acts
  polls : outPolls npc sc'.acts = outPolls npc sc.acts

theorem Apart.trans {npc : UInt32} {a b c : Scene} (h : Apart npc a b) (h' : Apart npc b c) :
    Apart npc a c where
  weapon := h'.weapon.trans h.weapon
  since := h'.since.trans h.since
  orders := h'.orders.trans h.orders
  polls := h'.polls.trans h.polls

theorem Apart.of_tells {npc : UInt32} {L : List Line → Prop} {sc sc' : Scene}
    (hweapon : sc'.st.weapon = sc.st.weapon) (h : Does (Tells L npc) sc sc')
    (hL : ∀ lines, L lines → ∀ l ∈ lines, Line.weaponOrder l = none) : Apart npc sc sc' where
  weapon := hweapon
  since := sinceOrder_tells npc h hL
  orders := orders_tells npc h hL
  polls := outPolls_tells npc h

theorem animation_no_order {l : Line} (h : Line.IsAnimation l) : Line.weaponOrder l = none := by
  rcases h with rfl | ⟨group, flag, rfl⟩ <;> rfl

theorem unrestrain_apart (currentTime : ℚ) (sc : Scene) :
    Apart npc sc (unrestrain npc currentTime sc) :=
  .of_tells (unrestrain_weapon npc currentTime sc) (unrestrain_does npc currentTime sc)
    (by rintro lines rfl; decide)

theorem applySneak_apart (isSneaking : UInt8) (currentTime : ℚ) (sc : Scene) :
    Apart npc sc (applySneak npc isSneaking currentTime sc) := by
  refine .of_tells (applySneak_weapon npc isSneaking currentTime sc)
    (applySneak_does npc isSneaking currentTime sc) ?_
  rintro lines (rfl | ⟨on, rfl⟩) <;> simp [Line.weaponOrder]

theorem applyLocomotion_apart (moveDir isRunning : UInt8) (currentTime : ℚ) (sc : Scene) :
    Apart npc sc (applyLocomotion npc moveDir isRunning currentTime sc) :=
  .of_tells (by rw [applyLocomotion_st]) (applyLocomotion_does npc moveDir isRunning currentTime sc)
    fun _ hlines _ hl => animation_no_order (locomotion_animation hlines _ hl)

theorem applyActions_apart (actionState isWeaponOut : UInt8) (currentTime : ℚ) (sc : Scene) :
    Apart npc sc (applyActions npc actionState isWeaponOut currentTime sc) :=
  .of_tells (by rw [applyActions_st]; rfl)
    (applyActions_does npc actionState isWeaponOut currentTime sc)
    fun _ hlines _ hl => animation_no_order (actionLines_animation hlines _ hl)

/-! ## Polling a pending operation -/

/-- With the expression compiled, one poll whose value is the answer's. -/
theorem pollAnimAction_eq (hscript : m.script = true) (hcompiled : m.exprGetAnimAction = true)
    (sc : Scene) : ∃ answer : Option FloatVal, pollAnimAction m w npc sc =
      ((answer.getD (.fin 0)).toInt32,
        { sc with acts := sc.acts ++ [.poll npc .getAnimAction answer] }) := by
  refine ⟨w.call sc.acts npc .getAnimAction, ?_⟩
  rw [pollAnimAction, if_pos hcompiled, pollNumber, if_pos (by simp [hscript, hcompiled])]

theorem sinceOrder_poll {acts : List Act} {out : Bool} {polls : List Int}
    (h : sinceOrder npc acts = some (out, polls)) (answer : Option FloatVal) :
    sinceOrder npc (acts ++ [.poll npc .getAnimAction answer]) =
      some (out, polls ++ [(answer.getD (.fin 0)).toInt32]) := by
  rw [sinceOrder, since_note _ _ _ (c := (answer.getD (.fin 0)).toInt32) rfl (by simp [animPoll])]
  rw [sinceOrder] at h
  rw [h]
  rfl

/-- What polling can do to the operation towards `out`: nothing, or find it carried out. -/
inductive Turn (npc : UInt32) (out : Bool) (sc sc' : Scene) : Prop
  | waits (ops : ∀ o, sc'.st.awaits o = sc.st.awaits o)
      (tracked : sc'.st.npcWeaponOut = sc.st.npcWeaponOut)
      (wtype : sc'.st.cachedWeaponType = sc.st.cachedWeaponType)
  | done (awaited : sc.st.awaits out = true) (none : ∀ o, sc'.st.awaits o = false)
      (tracked : sc'.st.npcWeaponOut = out) (carried : CarriedOut npc out sc'.acts)

/-- A poll that leaves the operation pending. -/
theorem Tracks.wait {npc : UInt32} {sc sc' : Scene} (h : Tracks npc sc) {out : Bool}
    (hout : sc.st.awaits out = true) {polls : List Int} {v : Int}
    (hops : ∀ o, sc'.st.awaits o = sc.st.awaits o)
    (hsince : sinceOrder npc sc'.acts = some (out, polls ++ [v]))
    (hseen : sc'.st.weaponAnimSeen = true → animCode out ∈ polls ++ [v]) : Tracks npc sc' := by
  intro o ho
  obtain rfl := h.unique hout ((hops o).symm.trans ho)
  exact ⟨polls ++ [v], hsince, hseen⟩

theorem refreshWeaponType_since (sc : Scene) :
    sinceOrder npc (refreshWeaponType m w npc sc).acts = sinceOrder npc sc.acts :=
  sinceOrder_asks npc (refreshWeaponType_does m w npc sc) (by decide)

theorem pollDraw_turn (hscript : m.script = true) (hcompiled : m.exprGetAnimAction = true)
    {sc : Scene} (h : Tracks npc sc) :
    Tracks npc (pollDraw m w npc sc) ∧ Turn npc true sc (pollDraw m w npc sc) := by
  unfold pollDraw
  split
  next hdraw =>
    obtain ⟨answer, hpoll⟩ := pollAnimAction_eq m w npc hscript hcompiled sc
    have hawaits : sc.st.awaits true = true := hdraw
    obtain ⟨polls, hsince, hseen⟩ := h true hawaits
    have hsince' := sinceOrder_poll npc hsince answer
    have hnone : sc.st.pendingOps.weaponHolster = false := h.one hawaits
    rw [hpoll]
    dsimp only
    generalize (answer.getD (.fin 0)).toInt32 = v at hsince' ⊢
    by_cases hv : v = 0
    · -- the animation is running
      subst hv
      rw [if_pos rfl, if_neg (by simp)]
      refine ⟨h.wait hawaits (fun _ => rfl) hsince' fun _ => ?_, .waits (fun _ => rfl) rfl rfl⟩
      exact List.mem_append_right _ (List.mem_singleton_self 0)
    · rw [if_neg hv]
      split
      next hdone =>
        obtain ⟨wtype, hst⟩ := refreshWeaponType_st m w npc ⟨{ sc.st with
          pendingOps := { sc.st.pendingOps with weaponDraw := false }
          weaponAnimSeen := false
          npcWeaponOut := true }, sc.acts ++ [.poll npc .getAnimAction answer]⟩
        have hidle : ∀ o, (refreshWeaponType m w npc ⟨{ sc.st with
            pendingOps := { sc.st.pendingOps with weaponDraw := false }
            weaponAnimSeen := false
            npcWeaponOut := true },
              sc.acts ++ [.poll npc .getAnimAction answer]⟩).st.awaits o = false := by
          intro o
          rw [hst]
          cases o
          · exact hnone
          · rfl
        refine ⟨.fresh hidle, .done hawaits hidle (by rw [hst]) ⟨polls, v, ?_, hseen hdone.1, hv⟩⟩
        rw [refreshWeaponType_since]
        exact hsince'
      next hgoes =>
        refine ⟨h.wait hawaits (fun _ => rfl) hsince' fun hs => ?_, .waits (fun _ => rfl) rfl rfl⟩
        exact absurd ⟨hs, hv⟩ hgoes
  next => exact ⟨h, .waits (fun _ => rfl) rfl rfl⟩

theorem pollHolster_turn (hscript : m.script = true) (hcompiled : m.exprGetAnimAction = true)
    {sc : Scene} (h : Tracks npc sc) :
    Tracks npc (pollHolster m w npc sc) ∧ Turn npc false sc (pollHolster m w npc sc) := by
  unfold pollHolster
  split
  next hholster =>
    obtain ⟨answer, hpoll⟩ := pollAnimAction_eq m w npc hscript hcompiled sc
    have hawaits : sc.st.awaits false = true := hholster
    obtain ⟨polls, hsince, hseen⟩ := h false hawaits
    have hsince' := sinceOrder_poll npc hsince answer
    have hnone : sc.st.pendingOps.weaponDraw = false := h.one hawaits
    rw [hpoll]
    dsimp only
    generalize (answer.getD (.fin 0)).toInt32 = v at hsince' ⊢
    by_cases hv : v = 1
    · -- the animation is running
      subst hv
      rw [if_pos rfl, if_neg (by simp)]
      refine ⟨h.wait hawaits (fun _ => rfl) hsince' fun _ => ?_, .waits (fun _ => rfl) rfl rfl⟩
      exact List.mem_append_right _ (List.mem_singleton_self 1)
    · rw [if_neg hv]
      split
      next hdone =>
        have hidle : ∀ o, EntityAnimState.awaits { sc.st with
            pendingOps := { sc.st.pendingOps with weaponHolster := false }
            weaponAnimSeen := false
            npcWeaponOut := false } o = false := by
          intro o
          cases o
          · rfl
          · exact hnone
        exact ⟨.fresh hidle, .done hawaits hidle rfl ⟨polls, v, hsince', hseen hdone.1, hv⟩⟩
      next hgoes =>
        refine ⟨h.wait hawaits (fun _ => rfl) hsince' fun hs => ?_, .waits (fun _ => rfl) rfl rfl⟩
        exact absurd ⟨hs, hv⟩ hgoes
  next => exact ⟨h, .waits (fun _ => rfl) rfl rfl⟩

theorem Turn.of_same {npc : UInt32} {out : Bool} {sc mid sc' : Scene} (h : Turn npc out sc mid)
    (hweapon : sc'.st.weapon = mid.st.weapon)
    (hsince : sinceOrder npc sc'.acts = sinceOrder npc mid.acts) : Turn npc out sc sc' := by
  cases h with
  | waits ops tracked wtype =>
    refine .waits (fun o => ?_) ?_ ?_
    · rw [awaits_eq hweapon, ops]
    · rw [weapon_out hweapon, tracked]
    · rw [weapon_wtype hweapon, wtype]
  | done awaited none tracked carried =>
    refine .done awaited (fun o => ?_) ?_ ?_
    · rw [awaits_eq hweapon, none]
    · rw [weapon_out hweapon, tracked]
    · rw [CarriedOut, hsince]
      exact carried

/-- At most one operation is polled, and so at most one found carried out. -/
theorem pollPending_turn (hscript : m.script = true) (hcompiled : m.exprGetAnimAction = true)
    {sc : Scene} (h : Tracks npc sc) :
    Tracks npc (pollPending m w npc sc) ∧ ∃ out, Turn npc out sc (pollPending m w npc sc) := by
  have hweapon : ∀ sc, (pollSneakExit m w npc (pollSneakEnter m w npc sc)).st.weapon =
      sc.st.weapon := fun sc =>
    (pollSneakExit_weapon m w npc _).trans (pollSneakEnter_weapon m w npc sc)
  have hsince : ∀ sc, sinceOrder npc (pollSneakExit m w npc (pollSneakEnter m w npc sc)).acts =
      sinceOrder npc sc.acts := fun sc =>
    (sinceOrder_asks npc (pollSneakExit_does m w npc _) (by decide)).trans
      (sinceOrder_asks npc (pollSneakEnter_does m w npc sc) (by decide))
  obtain ⟨hdraw, hturn⟩ := pollDraw_turn m w npc hscript hcompiled h
  obtain ⟨hholster, hturn'⟩ := pollHolster_turn m w npc hscript hcompiled hdraw
  refine ⟨hholster.of_same (hweapon _) (hsince _), ?_⟩
  cases hturn with
  | done awaited none tracked carried =>
    have hskip : pollHolster m w npc (pollDraw m w npc sc) = pollDraw m w npc sc := by
      have hno : (pollDraw m w npc sc).st.pendingOps.weaponHolster = false := none false
      rw [pollHolster, if_neg (by simp [hno])]
    refine ⟨true, Turn.of_same ?_ (hweapon _) (hsince _)⟩
    rw [hskip]
    exact .done awaited none tracked carried
  | waits ops tracked wtype =>
    refine ⟨false, Turn.of_same ?_ (hweapon _) (hsince _)⟩
    cases hturn' with
    | waits ops' tracked' wtype' =>
      exact .waits (fun o => (ops' o).trans (ops o)) (tracked'.trans tracked)
        (wtype'.trans wtype)
    | done awaited none tracked' carried => exact .done (ops false ▸ awaited) none tracked' carried

/-- `PollUnrestrain` gives everything up, or finds an operation carried out, or neither. -/
theorem pollUnrestrain_turn (hscript : m.script = true) (hcompiled : m.exprGetAnimAction = true)
    (currentTime : ℚ) {sc : Scene} (h : Tracks npc sc) :
    Tracks npc (pollUnrestrain m w npc currentTime sc) ∧
      ((unrestrainTimeout < currentTime - sc.st.unrestrainStartTime ∧
        (∀ o, (pollUnrestrain m w npc currentTime sc).st.awaits o = false) ∧
        (pollUnrestrain m w npc currentTime sc).st.npcWeaponOut = sc.st.npcWeaponOut) ∨
      ∃ out, Turn npc out sc (pollUnrestrain m w npc currentTime sc)) := by
  obtain ⟨hpoll, out, hturn⟩ := pollPending_turn m w npc hscript hcompiled h
  obtain ⟨-, heq⟩ | ⟨-, hlate, heq⟩ | ⟨-, -, mid, rfl, ⟨-, heq⟩ | ⟨-, heq⟩⟩ :=
    pollUnrestrain_cases m w npc currentTime sc <;> rw [heq]
  · exact ⟨h, .inr ⟨out, .waits (fun _ => rfl) rfl rfl⟩⟩
  · have hnone : ∀ o, EntityAnimState.awaits
        { sc.st with isUnrestrained := false, pendingOps := {} } o = false := by
      intro o
      cases o <;> rfl
    exact ⟨.fresh hnone, .inl ⟨hlate, hnone, rfl⟩⟩
  · exact ⟨hpoll, .inr ⟨out, hturn⟩⟩
  · have hsince := sinceOrder_tells npc (L := (· = [.setRestrained true]))
      (.cmd (pollPending m w npc sc) ⟨_, rfl, rfl⟩) (by rintro lines rfl; decide)
    exact ⟨hpoll.of_same rfl hsince, .inr ⟨out, hturn.of_same rfl hsince⟩⟩

theorem pollUnrestrain_orders (currentTime : ℚ) (sc : Scene) :
    orders npc (pollUnrestrain m w npc currentTime sc).acts = orders npc sc.acts := by
  apply (pollUnrestrain_does m w npc currentTime sc).flatMap
  rintro a (⟨script, answer, -, rfl⟩ | ⟨lines, rfl, rfl⟩)
  · rfl
  · simp [Act.linesTo, Line.weaponOrder]

theorem pollUnrestrain_outPolls (currentTime : ℚ) (sc : Scene) :
    outPolls npc (pollUnrestrain m w npc currentTime sc).acts = outPolls npc sc.acts := by
  apply (pollUnrestrain_does m w npc currentTime sc).flatMap
  rintro a (⟨script, answer, hs, rfl⟩ | ⟨lines, -, rfl⟩)
  · cases script with
    | isWeaponOut => exact absurd rfl hs
    | getAnimAction | isSneaking | getEquippedWeaponType => rfl
  · rfl

/-! ## Giving an order -/

/-- What comes after an order towards `out`. -/
structure Ordered (npc : UInt32) (out : Bool) (sc sc' : Scene) : Prop where
  awaited : sc'.st.awaits out = true
  other : sc'.st.awaits (!out) = sc.st.awaits (!out)
  seen : sc'.st.weaponAnimSeen = false
  tracked : sc'.st.npcWeaponOut = sc.st.npcWeaponOut
  since : sinceOrder npc sc'.acts = some (out, [])
  orders : orders npc sc'.acts = orders npc sc.acts ++ [out]
  polls : outPolls npc sc'.acts = outPolls npc sc.acts

theorem drawWeapon_ordered (currentTime : ℚ) (sc : Scene) :
    Ordered npc true sc (drawWeapon npc currentTime sc) := by
  have hfree := unrestrain_apart npc currentTime sc
  constructor
  · rfl
  · exact awaits_eq hfree.weapon false
  · rfl
  · have htracked := weapon_out hfree.weapon
    exact htracked
  · exact since_open _ _ _ ((if_pos rfl).trans rfl)
  · rw [← hfree.orders]
    simp [drawWeapon, runCmd, runLine, orders, Act.linesTo, Line.weaponOrder]
  · rw [← hfree.polls]
    simp [drawWeapon, runCmd, runLine, outPolls]

theorem holsterWeapon_ordered (currentTime : ℚ) (sc : Scene) :
    Ordered npc false sc (holsterWeapon npc currentTime sc) := by
  have hfree := unrestrain_apart npc currentTime sc
  constructor
  · rfl
  · exact awaits_eq hfree.weapon true
  · rfl
  · have htracked := weapon_out hfree.weapon
    exact htracked
  · exact since_open _ _ _ ((if_pos rfl).trans rfl)
  · rw [← hfree.orders]
    simp [holsterWeapon, runCmd, runLine, orders, Act.linesTo, Line.weaponOrder]
  · rw [← hfree.polls]
    simp [holsterWeapon, runCmd, runLine, outPolls]

/-- The fallback makes the tracked state the polled one. -/
structure Corrected (npc : UInt32) (answer : Option FloatVal) (sc sc' : Scene) : Prop where
  ops : ∀ o, sc'.st.awaits o = sc.st.awaits o
  seen : sc'.st.weaponAnimSeen = sc.st.weaponAnimSeen
  tracked : sc'.st.npcWeaponOut = (answer.getD (.fin 0)).ge (.fin 1)
  since : sinceOrder npc sc'.acts = sinceOrder npc sc.acts
  orders : orders npc sc'.acts = orders npc sc.acts
  polls : outPolls npc sc'.acts = outPolls npc sc.acts ++ [answer]

theorem Corrected.refresh {m : Module} {w : World} {npc : UInt32} {answer : Option FloatVal}
    {sc sc' : Scene} (h : Corrected npc answer sc sc') :
    Corrected npc answer sc (refreshWeaponType m w npc sc') := by
  obtain ⟨wtype, hst⟩ := refreshWeaponType_st m w npc sc'
  have hdoes := refreshWeaponType_does m w npc sc'
  constructor
  · intro o
    rw [hst]
    exact h.ops o
  · rw [hst]
    exact h.seen
  · rw [hst]
    exact h.tracked
  · rw [refreshWeaponType_since]
    exact h.since
  · rw [orders_asks npc hdoes]
    exact h.orders
  · rw [outPolls_asks npc hdoes (by decide)]
    exact h.polls

theorem weaponFallback_corrected (hscript : m.script = true) (hcompiled : m.exprIsWeaponOut = true)
    (sc : Scene) : ∃ answer, Corrected npc answer sc (weaponFallback m w npc sc) := by
  refine ⟨w.call sc.acts npc .isWeaponOut, ?_⟩
  have hpoll : pollNumber m w npc m.exprIsWeaponOut .isWeaponOut sc =
      ((w.call sc.acts npc .isWeaponOut).getD (.fin 0),
        ⟨sc.st, sc.acts ++ [.poll npc .isWeaponOut (w.call sc.acts npc .isWeaponOut)]⟩) := by
    rw [pollNumber, if_pos (by simp [hscript, hcompiled])]
  generalize w.call sc.acts npc .isWeaponOut = answer at hpoll ⊢
  have hcorrected : ∀ st : EntityAnimState, (∀ o, st.awaits o = sc.st.awaits o) →
      st.weaponAnimSeen = sc.st.weaponAnimSeen →
      st.npcWeaponOut = (answer.getD (.fin 0)).ge (.fin 1) →
      Corrected npc answer sc ⟨st, sc.acts ++ [.poll npc .isWeaponOut answer]⟩ :=
    fun st hops hseen htracked => {
      ops := hops
      seen := hseen
      tracked := htracked
      since := since_silent _ _ _ _ (by simp [weaponOrder, animPoll])
      orders := by simp [orders, Act.linesTo]
      polls := by simp [outPolls] }
  rw [weaponFallback, if_pos hcompiled, hpoll]
  dsimp only
  by_cases hsame : (answer.getD (.fin 0)).ge (.fin 1) = sc.st.npcWeaponOut
  · rw [if_neg (not_not.mpr hsame)]
    exact hcorrected _ (fun _ => rfl) rfl hsame.symm
  · have hset := hcorrected
      { sc.st with npcWeaponOut := (answer.getD (.fin 0)).ge (.fin 1) } (fun _ => rfl) rfl rfl
    rw [if_pos hsame]
    split
    · exact hset.refresh
    · exact hset

theorem Ordered.tracks {npc : UInt32} {out : Bool} {sc sc' : Scene} (h : Ordered npc out sc sc')
    (hidle : ∀ o, sc.st.awaits o = false) : Tracks npc sc' := by
  intro o ho
  have heq : o = out := by
    by_contra hne
    have hflip : o = !out := by cases o <;> cases out <;> simp_all
    rw [hflip, h.other, hidle] at ho
    cases ho
  subst heq
  exact ⟨[], h.since, fun hseen => absurd (h.seen.symm.trans hseen) (by decide)⟩

theorem awaits_none {st : EntityAnimState} (h : ∀ o, st.awaits o = false) :
    (st.pendingOps.weaponDraw || st.pendingOps.weaponHolster) = false := by
  have hdraw : st.pendingOps.weaponDraw = false := h true
  have hholster : st.pendingOps.weaponHolster = false := h false
  rw [hdraw, hholster]
  rfl

/-- With an operation pending `ApplyWeapon` does nothing. -/
theorem applyWeapon_waits (isWeaponOut : UInt8) (currentTime : ℚ) {sc : Scene} {out : Bool}
    (h : sc.st.awaits out = true) : applyWeapon m w npc isWeaponOut currentTime sc = sc := by
  have hbusy : (sc.st.pendingOps.weaponDraw || sc.st.pendingOps.weaponHolster) = true := by
    cases out
    · exact Bool.or_eq_true_iff.mpr (.inr h)
    · exact Bool.or_eq_true_iff.mpr (.inl h)
  rw [applyWeapon, if_pos hbusy]

/-- With none pending it polls the NPC once, and gives an order if the answer is not what
the network asks for. -/
theorem applyWeapon_decides (hscript : m.script = true) (hcompiled : m.exprIsWeaponOut = true)
    (isWeaponOut : UInt8) (currentTime : ℚ) {sc : Scene} (h : ∀ o, sc.st.awaits o = false) :
    let sc' := applyWeapon m w npc isWeaponOut currentTime sc
    Tracks npc sc' ∧ ∃ answer : Option FloatVal,
      outPolls npc sc'.acts = outPolls npc sc.acts ++ [answer] ∧
      sc'.st.npcWeaponOut = (answer.getD (.fin 0)).ge (.fin 1) ∧
      orders npc sc'.acts = orders npc sc.acts ++
        if (answer.getD (.fin 0)).ge (.fin 1) = decide (isWeaponOut ≠ 0) then []
        else [decide (isWeaponOut ≠ 0)] := by
  obtain ⟨answer, hmid⟩ := weaponFallback_corrected m w npc hscript hcompiled sc
  have hidle : ∀ o, (weaponFallback m w npc sc).st.awaits o = false :=
    fun o => (hmid.ops o).trans (h o)
  obtain ⟨hbusy, -⟩ | ⟨-, -, mid, rfl, ⟨hsame, heq⟩ | ⟨hin, hout, heq⟩ | ⟨hin, hout, heq⟩⟩ :=
    applyWeapon_cases m w npc isWeaponOut currentTime sc
  · rw [← Bool.or_eq_true, awaits_none h] at hbusy
    cases hbusy
  · rw [heq]
    refine ⟨.fresh hidle, answer, hmid.polls, hmid.tracked, ?_⟩
    rw [if_pos (hmid.tracked.symm.trans hsame), List.append_nil]
    exact hmid.orders
  · have hordered := drawWeapon_ordered npc currentTime (weaponFallback m w npc sc)
    rw [heq]
    refine ⟨hordered.tracks hidle, answer, ?_, hordered.tracked.trans hmid.tracked, ?_⟩
    · rw [hordered.polls, hmid.polls]
    · rw [hordered.orders, hmid.orders, ← hmid.tracked, hin, if_neg (by simp [hout])]
      simp [hout]
  · have hordered := holsterWeapon_ordered npc currentTime (weaponFallback m w npc sc)
    rw [heq]
    refine ⟨hordered.tracks hidle, answer, ?_, hordered.tracked.trans hmid.tracked, ?_⟩
    · rw [hordered.polls, hmid.polls]
    · rw [hordered.orders, hmid.orders, ← hmid.tracked, hin, if_neg (by simp [hout])]
      simp [hout]

/-! ## Whole calls -/

/-- After `ApplyWeapon` a call has nothing more to do with the weapon. -/
theorem applyState_apart (hconsole : m.console = true) (net : NetState) (currentTime : ℚ)
    (sc : Scene) : Apart npc (applyWeapon m w npc net.isWeaponOut currentTime
      (applySneak npc net.isSneaking currentTime (pollUnrestrain m w npc currentTime sc)))
      (applyState m w npc net currentTime sc) := by
  have hmove := applyLocomotion_apart npc net.moveDirection net.isRunning currentTime
    (applyWeapon m w npc net.isWeaponOut currentTime
      (applySneak npc net.isSneaking currentTime (pollUnrestrain m w npc currentTime sc)))
  have hact := hmove.trans
    (applyActions_apart npc net.actionState net.isWeaponOut currentTime _)
  rw [applyState, if_neg (by simp [hconsole])]
  exact hact.trans ⟨rfl, rfl, rfl, rfl⟩

theorem applyFire_apart (currentTime : ℚ) (sc : Scene) :
    Apart npc sc (applyFire m npc currentTime sc) := by
  obtain ⟨t, hst⟩ := applyFire_st m npc currentTime sc
  refine .of_tells (by rw [hst]; rfl) (applyFire_does m npc currentTime sc) ?_
  rintro lines (rfl | rfl | rfl | rfl | rfl) <;> simp [Line.weaponOrder]

/-- A call while an operation stays pending gives no order. -/
theorem applyState_waits (hconsole : m.console = true) (net : NetState) (currentTime : ℚ)
    {sc : Scene} {out : Bool}
    (h : (pollUnrestrain m w npc currentTime sc).st.awaits out = true) :
    let sc' := applyState m w npc net currentTime sc
    orders npc sc'.acts = orders npc sc.acts ∧ sc'.st.awaits out = true := by
  have hsneak := applySneak_apart npc net.isSneaking currentTime
    (pollUnrestrain m w npc currentTime sc)
  have hrest := applyState_apart m w npc hconsole net currentTime sc
  rw [applyWeapon_waits m w npc net.isWeaponOut currentTime
    ((awaits_eq hsneak.weapon out).trans h)] at hrest
  refine ⟨?_, ?_⟩
  · rw [hrest.orders, hsneak.orders, pollUnrestrain_orders]
  · rw [awaits_eq hrest.weapon, awaits_eq hsneak.weapon, h]

/-- A call with none pending decides by one poll. -/
theorem applyState_decides (hconsole : m.console = true) (hscript : m.script = true)
    (hcompiled : m.exprIsWeaponOut = true) (net : NetState) (currentTime : ℚ) {sc : Scene}
    (h : ∀ o, (pollUnrestrain m w npc currentTime sc).st.awaits o = false) :
    let sc' := applyState m w npc net currentTime sc
    Tracks npc sc' ∧ ∃ answer : Option FloatVal,
      outPolls npc sc'.acts = outPolls npc sc.acts ++ [answer] ∧
      sc'.st.npcWeaponOut = (answer.getD (.fin 0)).ge (.fin 1) ∧
      orders npc sc'.acts = orders npc sc.acts ++
        if (answer.getD (.fin 0)).ge (.fin 1) = decide (net.isWeaponOut ≠ 0) then []
        else [decide (net.isWeaponOut ≠ 0)] := by
  have hsneak := applySneak_apart npc net.isSneaking currentTime
    (pollUnrestrain m w npc currentTime sc)
  have hrest := applyState_apart m w npc hconsole net currentTime sc
  obtain ⟨htracks, answer, hpolls, hout, horders⟩ := applyWeapon_decides m w npc hscript hcompiled
    net.isWeaponOut currentTime fun o => (awaits_eq hsneak.weapon o).trans (h o)
  refine ⟨htracks.of_same hrest.weapon hrest.since, answer, ?_, ?_, ?_⟩
  · rw [hrest.polls, hpolls, hsneak.polls, pollUnrestrain_outPolls]
  · rw [weapon_out hrest.weapon, hout]
  · rw [hrest.orders, horders, hsneak.orders, pollUnrestrain_orders]

/-- Every call keeps what the pending operation knows in step with the trace. -/
theorem call_tracks (hscript : m.script = true) (hout : m.exprIsWeaponOut = true)
    (hanim : m.exprGetAnimAction = true) (c : Call) {sc : Scene} (h : Tracks npc sc) :
    Tracks npc (c.run m npc sc) := by
  cases c with
  | applyFire currentTime =>
    have hapart := applyFire_apart m npc currentTime sc
    exact h.of_same hapart.weapon hapart.since
  | applyState net currentTime w =>
    change Tracks npc (applyState m w npc net currentTime sc)
    by_cases hconsole : m.console = true
    · obtain ⟨hpoll, -⟩ := pollUnrestrain_turn m w npc hscript hanim currentTime h
      by_cases hbusy : ∃ out, (pollUnrestrain m w npc currentTime sc).st.awaits out = true
      · obtain ⟨out, hbusy⟩ := hbusy
        have hsneak := applySneak_apart npc net.isSneaking currentTime
          (pollUnrestrain m w npc currentTime sc)
        have hrest := applyState_apart m w npc hconsole net currentTime sc
        rw [applyWeapon_waits m w npc net.isWeaponOut currentTime
          ((awaits_eq hsneak.weapon out).trans hbusy)] at hrest
        have hall := hsneak.trans hrest
        exact hpoll.of_same hall.weapon hall.since
      · refine (applyState_decides m w npc hconsole hscript hout net currentTime fun o => ?_).1
        exact Bool.eq_false_iff.mpr fun ho => hbusy ⟨o, ho⟩
    · rw [applyState, if_pos (by simpa using hconsole)]
      exact h

/-- In every run: no order is given while an operation is pending; a pending operation ends
by the timeout or carried out, and only the latter sets the tracked state; and a call with
none pending makes one poll, believes it, and orders what the network asks for exactly when
the poll differs. -/
theorem weapon_handshake (acts : List Act) (calls : List Call) (hconsole : m.console = true)
    (hscript : m.script = true) (hout : m.exprIsWeaponOut = true)
    (hanim : m.exprGetAnimAction = true) (net : NetState) (t : ℚ) :
    let sc := play m npc calls ⟨{}, acts⟩
    let mid := pollUnrestrain m w npc t sc
    let sc' := applyState m w npc net t sc
    orders npc mid.acts = orders npc sc.acts ∧
    (∀ out, mid.st.awaits out = true →
      orders npc sc'.acts = orders npc sc.acts ∧ sc'.st.awaits out = true) ∧
    (∀ out, sc.st.awaits out = true → mid.st.awaits out = false →
      unrestrainTimeout < t - sc.st.unrestrainStartTime ∨
        CarriedOut npc out mid.acts ∧ mid.st.npcWeaponOut = out) ∧
    (mid.st.npcWeaponOut ≠ sc.st.npcWeaponOut → sc.st.awaits mid.st.npcWeaponOut = true ∧
      mid.st.awaits mid.st.npcWeaponOut = false ∧ CarriedOut npc mid.st.npcWeaponOut mid.acts) ∧
    ((∀ out, mid.st.awaits out = false) → ∃ answer : Option FloatVal,
      outPolls npc sc'.acts = outPolls npc sc.acts ++ [answer] ∧
      sc'.st.npcWeaponOut = (answer.getD (.fin 0)).ge (.fin 1) ∧
      orders npc sc'.acts = orders npc sc.acts ++
        if (answer.getD (.fin 0)).ge (.fin 1) = decide (net.isWeaponOut ≠ 0) then []
        else [decide (net.isWeaponOut ≠ 0)]) := by
  intro sc mid sc'
  have hstart : Tracks npc ⟨{}, acts⟩ := .fresh fun o => by cases o <;> rfl
  have htracks : Tracks npc sc := play_invariant (Tracks npc)
    (fun c _ hsc => call_tracks m npc hscript hout hanim c hsc) calls hstart
  obtain ⟨-, hturn⟩ := pollUnrestrain_turn m w npc hscript hanim t htracks
  refine ⟨pollUnrestrain_orders m w npc t sc, fun out => applyState_waits m w npc hconsole net t,
    ?_, ?_, fun h => (applyState_decides m w npc hconsole hscript hout net t h).2⟩
  · intro out hbefore hafter
    rcases hturn with ⟨hlate, -⟩ | ⟨o, ⟨hops, -, -⟩ | ⟨hawaited, -, htracked, hcarried⟩⟩
    · exact .inl hlate
    · rw [hops, hbefore] at hafter
      cases hafter
    · obtain rfl := htracks.unique hawaited hbefore
      exact .inr ⟨hcarried, htracked⟩
  · intro hchanged
    rcases hturn with ⟨-, -, hsame⟩ | ⟨o, ⟨-, hsame, -⟩ | ⟨hawaited, hnone, htracked, hcarried⟩⟩
    · exact absurd hsame hchanged
    · exact absurd hsame hchanged
    · rw [htracked]
      exact ⟨hawaited, hnone o, hcarried⟩

/-- The engine of the run below: the weapon is in, and `GetAnimAction` shows the draw at its
first poll and nothing after that. -/
def drawing : World :=
  ⟨true, 1, fun _ _ => true, fun past _ script =>
    some (.fin (if script = .getAnimAction ∧ past.filterMap (animPoll 5) ≠ [] then -1 else 0)),
    fun _ => .failed⟩

/-- A draw that is polled twice is found carried out. -/
theorem weapon_handshake_draw :
    let m : Module := ⟨true, true, true, true, true, true⟩
    let sc := play m 5 [.applyState { isWeaponOut := 1 } 0 drawing,
      .applyState { isWeaponOut := 1 } 1 drawing] ⟨{}, [.cmd 5 [.setRestrained true]]⟩
    CarriedOut 5 true (pollUnrestrain m drawing 5 2 sc).acts :=
  ((weapon_handshake ⟨true, true, true, true, true, true⟩ drawing 5 [.cmd 5 [.setRestrained true]]
    [.applyState { isWeaponOut := 1 } 0 drawing, .applyState { isWeaponOut := 1 } 1 drawing]
    rfl rfl rfl rfl { isWeaponOut := 1 } 2).2.2.1 true (by decide +kernel)
    (by decide +kernel)).resolve_left (by decide +kernel) |>.1

end Fnvmp.Animation
