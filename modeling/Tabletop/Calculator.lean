import Tabletop.Evaluation
import Tabletop.Text.CodeBlock

/-!
# The calculator

Dice notation without dice: the same tokens, order and evaluation, restricted to numbers.
-/

namespace Tabletop.Calculator

open Text

/-- The value of an expression. No face is ever taken. -/
def evaluate (expression : String) : Except Error Float := do
  let tokens ← tokenize .math expression
  if tokens.isEmpty then throw .nothingToCalculate
  let postfixed ← toPostfix tokens
  let (_, final) ← ((Tabletop.evaluate postfixed maxGenerations).on (Faces.ofList [])).1
  final.toDecimal

/-- The answer to show. A mistake of the player becomes text, and any other failure remains one. -/
def answer (expression : String) : Except Error String :=
  match evaluate expression with
  | .ok x => .ok (code expression ++ " ⇒ **" ++ Number.displayed x ++ "**")
  | .error e =>
    if e.isForPlayers then .ok ("Calculation error.\n" ++ codeBlock e.message) else .error e

end Tabletop.Calculator
