import Tabletop.Pool.Breakdown

/-!
# Counting successes

A threshold counts the dice on one side of it. A table gives each face its own count: the table of
successes ends at the highest face of the die, the table of botches begins at its lowest.
-/

namespace Tabletop

/-- Successes, or botches as negative successes, and how each die is shown. -/
structure Count where
  value : Int
  breakdown : Breakdown
deriving DecidableEq

namespace Die

/-- What the die counts by a table whose last entry belongs to the highest face. A result beyond
the last face counts like that face. -/
def successes (d : Die) (table : List Int) : Int :=
  let place := d.result - 1 - (d.sides - table.length)
  if place < 0 then 0 else table.getD (min place.toNat (table.length - 1)) 0

/-- What the die counts by a table whose first entry belongs to the face 1. -/
def botches (d : Die) (table : List Int) : Int :=
  let place := d.result - 1
  if place < 0 then 0 else table.getD place.toNat 0

end Die

/-- The two ways of turning a pool into a count. -/
inductive Conversion where
  | target
  | botch
deriving DecidableEq

namespace Conversion

def symbol : Conversion → String
  | target => "t"
  | botch => "b"

/-- What one die adds, before botches are counted negative. -/
def score (c : Conversion) (arg : Argument) (d : Die) : Int :=
  match c, arg with
  | target, .single n => if (n : Int) ≤ d.result then 1 else 0
  | target, .list ns => d.successes (ns.map Int.ofNat)
  | botch, .single n => if d.result ≤ (n : Int) then 1 else 0
  | botch, .list ns => d.botches (ns.map Int.ofNat)

/-- Botches take away from successes. -/
def sign : Conversion → Int
  | target => 1
  | botch => -1

/-- Counts the dice of a pool; dice that count nothing are struck out. -/
def count (c : Conversion) (p : Pool) (arg : Argument) : Count where
  value := c.sign * sum (p.dice.map (c.score arg))
  breakdown := p.dice.map fun die => { die, dropped := c.score arg die = 0 }

end Conversion

end Tabletop
