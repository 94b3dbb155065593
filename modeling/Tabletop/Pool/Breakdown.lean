import Tabletop.Pool

/-!
# Breakdowns

A breakdown shows the players each die that took part in an operation: dice that were dropped are
struck out, and dice that were added are slanted.
-/

namespace Tabletop

structure Entry where
  die : Die
  dropped : Bool := false
  added : Bool := false
deriving DecidableEq

def Entry.text (e : Entry) : String :=
  let text := e.die.breakdown
  let text := if e.dropped then "~~" ++ text ++ "~~" else text
  if e.added then "_" ++ text ++ "_" else text

abbrev Breakdown := List Entry

namespace Breakdown

def text (b : Breakdown) : String := "[" ++ String.intercalate ", " (b.map Entry.text) ++ "]"

/-- The dice that are not struck out. -/
def kept (b : Breakdown) : List Die := (b.filter fun e => !e.dropped).map Entry.die

/-- The dice that were there before the operation. -/
def before (b : Breakdown) : List Die := (b.filter fun e => !e.added).map Entry.die

end Breakdown

/-- What an operator makes of a pool, and how it is shown. -/
structure Change where
  pool : Pool
  breakdown : Breakdown
deriving DecidableEq

namespace Pool

/-- The change to other dice in the same shapes. -/
def changeTo (p : Pool) (dice : List Die) (breakdown : Breakdown) : Except Error Change := do
  pure ⟨← p.withDice dice, breakdown⟩

/-- A die that takes the place of another one, and the entries that show how. -/
structure Replacement where
  die : Die
  entries : Breakdown
deriving DecidableEq

/-- The die stays as it is. -/
def Replacement.unchanged (d : Die) : Replacement := ⟨d, [{ die := d }]⟩

/-- The change in which every die is replaced, in order. -/
def replaceAll (p : Pool) (rs : List Replacement) : Except Error Change :=
  p.changeTo (rs.map Replacement.die) (rs.flatMap Replacement.entries)

end Pool

end Tabletop
