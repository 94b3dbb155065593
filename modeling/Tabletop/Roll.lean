import Tabletop.Evaluation
import Tabletop.Text.CodeBlock

/-!
# Rolls

A finished roll remembers its formula, who made it, and every operation on the way to its result.
-/

namespace Tabletop

open Text

structure Roll (Owner : Type) where
  command : String
  comment : String
  operations : List Operation
  result : Value
  owner : Owner

/-- What to roll, what to call it, and whose it will be. -/
structure Order (Owner : Type) where
  command : String
  comment : String
  owner : Owner

variable {Owner : Type}

/-- Rolls an order once. -/
def Order.roll (o : Order Owner) : Rolling (Roll Owner) := do
  if (trim o.command.toList).isEmpty then throw .emptyFormula
  let (operations, final) ← evaluateText o.command maxGenerations
  let result ← final.toValue
  pure { o with operations, result }

/-- Rolls an order so many times; one failure fails all. -/
def Order.rollMany (o : Order Owner) (times : Nat) : Rolling (List (Roll Owner)) :=
  (List.replicate times o).mapM Order.roll

namespace Roll

/-- The order that rolls the same again. -/
def order (r : Roll Owner) : Order Owner := ⟨r.command, r.comment, r.owner⟩

/-- How many operations there were. -/
def operationCount (r : Roll Owner) : String :=
  let count := r.operations.length
  s!"({count} operation" ++ (if count = 1 then "" else "s") ++ ", use verbose for details)"

/-- The roll as it is shown, with all its operations if it is to be verbose. How a text is escaped
for those who see it is not for the roll to say. -/
def format (r : Roll Owner) (escape : String → String) (roller : String) (verbose : Bool) : String :=
  let who := if roller.isEmpty then "" else roller ++ " rolled "
  let label := if r.comment.isEmpty then "" else " (" ++ escape r.comment ++ ")"
  let head := who ++ code r.command ++ label ++ " ⇒ **" ++ r.result.text ++ "**"
  if r.operations.isEmpty then head
  else if verbose then
    head ++ "\n" ++ String.intercalate "\n" (r.operations.map fun op => "> " ++ op.text)
  else head ++ "  " ++ r.operationCount

end Roll

end Tabletop
