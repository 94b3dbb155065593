import Tabletop.Error
import Tabletop.Genesys.Tally

/-!
# Values of rolls

A roll comes to a number, a count of successes, or a tally of narrative symbols. Successes add up
with successes and turn into a number beside one; tallies add up only with tallies.
-/

namespace Tabletop

inductive Value where
  | decimal (x : Float)
  | successes (n : Int)
  | genesys (t : Genesys.Tally)

namespace Value

/-- The double as a value, if it is finite. -/
def ofFloat (x : Float) : Except Error Value :=
  if x.isFinite then .ok (decimal x) else .error .notReal

/-- The total of a pool. -/
def ofTotal (n : Int) : Value := decimal (Float.ofInt n)

def text : Value → String
  | decimal x => Number.displayed x
  | successes n => s!"{n} success" ++ (if n.natAbs = 1 then "" else "es")
  | genesys t => t.text

/-- A count as a double. -/
def doubleOfCount (n : Int) : Except Error Float :=
  match Number.ofInt? n with
  | some x => .ok x
  | none => .error .tooLargeForDouble

def toDecimal : Value → Except Error Float
  | decimal x => .ok x
  | successes n => doubleOfCount n
  | v@(genesys _) => .error (.notNumber v.text)

def add : Value → Value → Except Error Value
  | decimal x, w => do ofFloat (x + (← w.toDecimal))
  | successes n, successes m => .ok (successes (n + m))
  | successes n, w => do
    let y ← w.toDecimal
    ofFloat ((← doubleOfCount n) + y)
  | genesys t, genesys u => .ok (genesys (t.add u))
  | v@(genesys _), _ => .error (.notNumber v.text)

def negate : Value → Except Error Value
  | decimal x => ofFloat (-x)
  | successes n => .ok (successes (-n))
  | v@(genesys _) => .error (.notNumber v.text)

def subtract (v w : Value) : Except Error Value := do v.add (← w.negate)

/-- Values of different kinds are never equal. -/
def equal : Value → Value → Bool
  | decimal x, decimal y => x == y
  | successes n, successes m => n = m
  | genesys t, genesys u => t = u
  | _, _ => false

end Value

end Tabletop
