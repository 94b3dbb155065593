/-!
# Doubles as integers times powers of two

Every finite double is a whole number times a power of two, up to sign. Exact work on doubles goes
through this form.
-/

namespace Tabletop.Number

def twoTo (n : Nat) : Nat := Nat.pow 2 n

def fiveTo (n : Nat) : Nat := Nat.pow 5 n

def tenTo (n : Nat) : Nat := Nat.pow 10 n

/-- The number `mantissa * 2 ^ exponent`, or its opposite. -/
structure Dyadic where
  negative : Bool
  mantissa : Nat
  exponent : Int
deriving DecidableEq

namespace Dyadic

/-- The exact value of a double; none for infinities and for what is no number. -/
def ofFloat? (x : Float) : Option Dyadic :=
  let bits := x.toBits.toNat
  let negative := decide (twoTo 63 ≤ bits)
  let biased : Nat := bits / twoTo 52 % twoTo 11
  let fraction : Nat := bits % twoTo 52
  if biased = 2047 then none
  else if biased = 0 then some ⟨negative, fraction, -1074⟩
  else some ⟨negative, fraction + twoTo 52, (biased : Int) - 1075⟩

/-- The double nearest to the number. -/
def toFloat (d : Dyadic) : Float :=
  let size :=
    match d.exponent with
    | .ofNat e => Float.ofNat (d.mantissa * twoTo e)
    | .negSucc e => Float.ofScientific (d.mantissa * fiveTo (e + 1)) true (e + 1)
  if d.negative then -size else size

/-- The number itself, if it is whole. -/
def whole? (d : Dyadic) : Option Int :=
  let size? : Option Nat :=
    match d.exponent with
    | .ofNat e => some (d.mantissa * twoTo e)
    | .negSucc e =>
      if d.mantissa % twoTo (e + 1) = 0 then some (d.mantissa / twoTo (e + 1)) else none
  size?.map fun n => if d.negative then -(n : Int) else n

end Dyadic

/-- The whole number that a double is, if it is one. -/
def whole? (x : Float) : Option Int := (Dyadic.ofFloat? x).bind Dyadic.whole?

/-- The double nearest to a whole number, unless it lies beyond all doubles. -/
def ofInt? (n : Int) : Option Float :=
  let x := Float.ofInt n
  if x.isFinite then some x else none

/-- What is left of `x` after taking away `y` as often as fits, rounding the count down: it has
the sign of `y`. -/
def remainder (x y : Float) : Float :=
  match Dyadic.ofFloat? x, Dyadic.ofFloat? y with
  | some a, some b =>
    let e := min a.exponent b.exponent
    let left :=
      a.mantissa * twoTo (a.exponent - e).toNat % (b.mantissa * twoTo (b.exponent - e).toNat)
    if left = 0 then (if b.negative then -0.0 else 0.0)
    else
      let rest := Dyadic.toFloat ⟨a.negative, left, e⟩
      if a.negative = b.negative then rest else rest + y
  | _, _ => 0.0 / 0.0

end Tabletop.Number
