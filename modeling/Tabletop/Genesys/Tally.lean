import Tabletop.Genesys.Symbol

/-!
# Tallies

A tally is the net result of a narrative roll: how many of each symbol are left after cancelling.
-/

namespace Tabletop.Genesys

structure Tally where
  success : Nat
  advantage : Nat
  triumph : Nat
  failure : Nat
  threat : Nat
  despair : Nat
deriving DecidableEq

namespace Tally

def empty : Tally := ⟨0, 0, 0, 0, 0, 0⟩

def count (t : Tally) : Symbol → Nat
  | .success => t.success
  | .advantage => t.advantage
  | .triumph => t.triumph
  | .failure => t.failure
  | .threat => t.threat
  | .despair => t.despair
  | .blank => 0

/-- How often each symbol occurs in a list. -/
def ofCounts (symbols : List Symbol) : Tally where
  success := symbols.count .success
  advantage := symbols.count .advantage
  triumph := symbols.count .triumph
  failure := symbols.count .failure
  threat := symbols.count .threat
  despair := symbols.count .despair

/-- The net symbols of a roll. -/
def ofSymbols (symbols : List Symbol) : Tally := ofCounts (cancel symbols)

/-- The symbols in display order, each repeated as often as it counts. -/
def expand (t : Tally) : List Symbol := Symbol.all.flatMap fun s => List.replicate (t.count s) s

/-- Both tallies together, cancelled again. -/
def add (t u : Tally) : Tally := ofSymbols (t.expand ++ u.expand)

def isEmpty (t : Tally) : Bool := t.expand.isEmpty

def text (t : Tally) : String :=
  if t.isEmpty then "no net symbols"
  else
    let present := Symbol.all.filter fun s => 0 < t.count s
    String.intercalate ", " (present.map fun s => s!"{t.count s} {s.name}")

end Tally

end Tabletop.Genesys
