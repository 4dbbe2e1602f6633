import Fnvmp.ExactFloat
import Mathlib.Data.List.Basic

/-!
# The game engine as the client sees it

The client acts on the engine by script calls and by console commands on a reference.
What it did and what it was answered is kept as a trace, oldest first; the engine
itself is any function of that trace. Numbers in commands stand before the rounding to
two digits in their text.
-/

namespace Fnvmp.Engine

open ExactFloat

/-- The expressions compiled for polling an actor. -/
inductive Script where
  | isWeaponOut | isSneaking | getAnimAction | getEquippedWeaponType
  deriving DecidableEq, Repr

inductive AnimGroup where
  | idle | forward | backward | left | right
  | fastForward | fastBackward | fastLeft | fastRight
  | turnLeft | turnRight
  | reloadA | aimIS | aim
  | attackLeftIS | attackLeft | attackRight | attackThrow6
  deriving DecidableEq, Repr

inductive Axis where
  | x | y | z
  deriving DecidableEq, Repr

/-- One line of a console command. -/
inductive Line where
  | disable
  | markForDelete
  | setRestrained (on : Bool)
  | setCombatDisabled (on : Bool)
  | addToFaction (faction : UInt32) (rank : Nat)
  | setPlayerTeammate (on : Bool)
  | setPos (axis : Axis) (value : FloatVal)
  | setAngleZ (value : FloatVal)
  | setForceSneak (on : Bool)
  | setWeaponOut (on : Bool)
  | setAlert (on : Bool)
  | playGroup (group : AnimGroup) (flag : Nat)
  | playWeaponSound
  deriving DecidableEq

/-- The answer to `PlaceAtMe`: the call fails, or its result is no reference, or it is one. -/
inductive Placed where
  | failed
  | notARef
  | ref (refID : UInt32)
  deriving DecidableEq, Repr

/-- One interaction with the engine. `cmd` is a `RunScriptLine2`, `poll` a `CallFunction`
of a polling expression with its answer (`none` when the call failed), `place` the one
of the spawn expression. -/
inductive Act where
  | cmd (refID : UInt32) (lines : List Line)
  | poll (refID : UInt32) (script : Script) (answer : Option FloatVal)
  | place (answer : Placed)
  | suppressConsole
  | restoreConsole
  deriving DecidableEq

/-- The engine during one operation. `thePlayer` says that a game is loaded;
`playerCell` is the refID of the player's parent cell, 0 when it has none. -/
structure World where
  thePlayer : Bool
  playerCell : UInt32
  resolve : List Act → UInt32 → Bool
  call : List Act → UInt32 → Script → Option FloatVal
  placeAtMe : List Act → Placed

/-- `RunScriptLine2(cmd, ref, true)`. -/
def runLine (acts : List Act) (refID : UInt32) (lines : List Line) : List Act :=
  acts ++ [.cmd refID lines]

/-- The command lines an act puts on a reference. -/
def Act.linesTo (refID : UInt32) : Act → List Line
  | .cmd r lines => if r = refID then lines else []
  | _ => []

/-- All command lines put on a reference, oldest first. -/
def linesTo (refID : UInt32) (acts : List Act) : List Line := acts.flatMap (Act.linesTo refID)

@[simp] theorem linesTo_append (refID : UInt32) (acts acts' : List Act) :
    linesTo refID (acts ++ acts') = linesTo refID acts ++ linesTo refID acts' :=
  List.flatMap_append

@[simp] theorem linesTo_nil (refID : UInt32) : linesTo refID [] = [] := rfl

@[simp] theorem linesTo_cmd (refID r : UInt32) (lines : List Line) :
    linesTo refID [.cmd r lines] = if r = refID then lines else [] := by
  simp [linesTo, Act.linesTo]

theorem linesTo_runLine (refID r : UInt32) (acts : List Act) (lines : List Line) :
    linesTo refID (runLine acts r lines) =
      linesTo refID acts ++ if r = refID then lines else [] := by
  rw [runLine, linesTo_append, linesTo_cmd]

/-! ## Driving a reference -/

/-- What a function that drives one reference does: polls of it, and commands to it whose
lines are all a `P`. -/
def DrivesBy (P : Line → Prop) (refID : UInt32) : Act → Prop
  | .poll r _ _ => r = refID
  | .cmd r lines => r = refID ∧ ∀ l ∈ lines, P l
  | _ => False

theorem DrivesBy.mono {P Q : Line → Prop} {refID : UInt32} {a : Act} (h : DrivesBy P refID a)
    (hPQ : ∀ l, P l → Q l) : DrivesBy Q refID a := by
  cases a with
  | cmd r lines => exact ⟨h.1, fun l hl => hPQ l (h.2 l hl)⟩
  | poll r script answer => exact h
  | place answer => exact h
  | suppressConsole => exact h
  | restoreConsole => exact h

/-- The lines that driving a reference puts on it. -/
theorem lines_of_drives {P : Line → Prop} {refID : UInt32} {acts : List Act}
    (h : ∀ a ∈ acts, DrivesBy P refID a) : ∀ l ∈ linesTo refID acts, P l := by
  intro l hl
  obtain ⟨a, ha, hla⟩ := List.mem_flatMap.mp hl
  have hdrives := h a ha
  cases a with
  | cmd r lines =>
    simp only [Act.linesTo, hdrives.1, ↓reduceIte] at hla
    exact hdrives.2 l hla
  | poll r script answer => simp [Act.linesTo] at hla
  | place answer => simp [Act.linesTo] at hla
  | suppressConsole => simp [Act.linesTo] at hla
  | restoreConsole => simp [Act.linesTo] at hla

theorem linesTo_other {P : Line → Prop} {refID r : UInt32} {acts : List Act} (hr : r ≠ refID)
    (h : ∀ a ∈ acts, DrivesBy P refID a) : linesTo r acts = [] := by
  refine List.flatMap_eq_nil_iff.mpr fun a ha => ?_
  have hdrives := h a ha
  cases a with
  | cmd r' lines =>
    simp only [Act.linesTo, hdrives.1]
    rw [if_neg (Ne.symm hr)]
  | poll r' script answer => rfl
  | place answer => rfl
  | suppressConsole => rfl
  | restoreConsole => rfl

/-! ## References placed -/

def Act.placed : Act → Option UInt32
  | .place (.ref refID) => some refID
  | _ => none

/-- All references `PlaceAtMe` has returned, oldest first. -/
def placedRefs (acts : List Act) : List UInt32 := acts.filterMap Act.placed

@[simp] theorem placedRefs_nil : placedRefs [] = [] := rfl

@[simp] theorem placedRefs_append (acts acts' : List Act) :
    placedRefs (acts ++ acts') = placedRefs acts ++ placedRefs acts' := List.filterMap_append

theorem placedRefs_drives {P : Line → Prop} {refID : UInt32} {acts : List Act}
    (h : ∀ a ∈ acts, DrivesBy P refID a) : placedRefs acts = [] := by
  refine List.filterMap_eq_nil_iff.mpr fun a ha => ?_
  have hdrives := h a ha
  cases a with
  | place answer => exact hdrives.elim
  | cmd r lines => rfl
  | poll r script answer => rfl
  | suppressConsole => rfl
  | restoreConsole => rfl

/-- `PlaceAtMe` returns a reference that was not there before. -/
def World.Fresh (w : World) : Prop :=
  ∀ past refID, w.placeAtMe past = .ref refID → refID ≠ 0 ∧ refID ∉ placedRefs past

/-- What the client counts on: `PlaceAtMe` returns a reference that was not there before,
and a reference is found until it is deleted. -/
structure World.Honest (w : World) : Prop where
  fresh : ∀ past refID, w.placeAtMe past = .ref refID → refID ≠ 0 ∧ refID ∉ placedRefs past
  finds : ∀ past refID, refID ∈ placedRefs past → .markForDelete ∉ linesTo refID past →
    w.resolve past refID = true

end Fnvmp.Engine
