import Tabletop.Proofs.Dealing
import Tabletop.Proofs.FailsOnly

/-!
# Failures about form, and failures of the dice

A formula may be at fault by its form, whatever the dice show: brackets do not match, an operand is
missing, a list stands where a number belongs. All other failures are material: they come of the
numbers. Rolling a pool and changing one fail materially only, once the arguments are read.
-/

namespace Tabletop

open Rolling

/-- The formula is at fault, whatever the dice show: operands are missing or left over, brackets or
lists do not match, or something is used as what it is not. -/
def Error.isAboutForm : Error → Bool
  | missingOperand _ | missingInput _ | leftover _ => true
  | emptyList | unpaired .. | noOpener _ | wrongCloser .. | neverClosed _ | unexpectedToken _
  | unexpectedInPostfix _ => true
  | notPool _ | notNumber _ | notRolled _ => true
  | _ => false

/-- The failure comes of the numbers: of what the dice show, or of how many they are. -/
def Error.Material (e : Error) : Prop := e.isAboutForm = false

/-- The dice cannot be dealt as they should: they are too many, have no faces left to show, or would
never stop. -/
def Error.isOfDice : Error → Bool
  | poolTooLarge _ | everyFaceTriggers .. | neverSettled .. | outOfFaces _ => true
  | _ => false

theorem Error.isOfDice_of_isOfPools (e : Error) (h : e.isOfPools = true) : e.isOfDice = true := by
  cases e <;> first | rfl | cases h

theorem Error.material_of_isOfDice (e : Error) (h : e.isOfDice = true) : e.Material := by
  cases e <;> first | rfl | cases h

/-- What may fail as dice do fails no other way when it deals dice or changes them. -/
theorem Rolling.FailsOnly.compositional {E : Error → Prop} (hE : ∀ e, e.isOfDice = true → E e) :
    Compositional fun m => m.FailsOnly E where
  pure := .pure
  bind := .andThen
  draw := .draw fun _ => hE _ rfl
  refuse := fun e he => .throw (hE e (e.isOfDice_of_isOfPools he))
  giveUp := fun _ _ => .throw (hE _ rfl)

namespace Pool

variable {p : Pool} {faces : List Int}

theorem failsOnly_isOfDice : Compositional fun m => m.FailsOnly (·.isOfDice) :=
  FailsOnly.compositional fun _ he => he

theorem failsOnly_explodeRecursive (cap : Int) : (p.explodeRecursive faces cap).FailsOnly (·.isOfDice) :=
  failsOnly_isOfDice.explodeRecursive p faces cap

theorem failsOnly_explodeAdditive (cap : Int) : (p.explodeAdditive faces cap).FailsOnly (·.isOfDice) :=
  failsOnly_isOfDice.explodeAdditive p faces cap

theorem failsOnly_rerollRecursive (cap : Int) : (p.rerollRecursive faces cap).FailsOnly (·.isOfDice) :=
  failsOnly_isOfDice.rerollRecursive p faces cap

end Pool

end Tabletop
