import Tabletop.Error
import Tabletop.Number.Dyadic

/-!
# Arithmetic

The operations on doubles that can fail. What is too large for a double fails later, unless it is a
power.
-/

namespace Tabletop

inductive Arithmetic where
  | multiply
  | divide
  | remainder
  | power
deriving DecidableEq

namespace Arithmetic

/-- A power is out of range if it overflows. It has no result if it divides by zero or is a root of
a negative number. -/
def powerOf (x y : Float) : Except ArithmeticFault Float :=
  let z := x.pow y
  if z.isFinite then .ok z
  else if z.isNaN || x == 0 then .error .domain
  else .error .range

def apply (a : Arithmetic) (x y : Float) : Except ArithmeticFault Float :=
  match a with
  | multiply => .ok (x * y)
  | divide => if y == 0 then .error .divisionByZero else .ok (x / y)
  | remainder => if y == 0 then .error .remainderByZero else .ok (Number.remainder x y)
  | power => powerOf x y

end Arithmetic

end Tabletop
