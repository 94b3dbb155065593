import Tabletop.Number.Dyadic

/-!
# The fewest digits that read back

Among the decimals that round to a given double, the ones on the coarsest grid of powers of ten
have the fewest digits; of two on that grid the nearer one is taken, and of two equally near the
even one. All arithmetic is exact.
-/

namespace Tabletop.Number

/-- The decimal `digits * 10 ^ exponent`. -/
structure Decimal where
  digits : Nat
  exponent : Int
deriving DecidableEq

/-- The reals that round to the double `mantissa * 2 ^ exponent`, as the numerators of its value
and of both ends over one denominator. The ends belong to the interval if `closed`. -/
structure Rounding where
  low : Nat
  value : Nat
  high : Nat
  denominator : Nat
  closed : Bool

/-- The half gaps on both sides of a double; below a power of two the gap is half as wide. -/
def Rounding.ofDouble (mantissa : Nat) (exponent : Int) : Rounding :=
  let up := twoTo exponent.toNat
  let below := if mantissa = twoTo 52 ∧ -1074 < exponent then 1 else 2
  { low := (4 * mantissa - below) * up
    value := 4 * mantissa * up
    high := (4 * mantissa + 2) * up
    denominator := 4 * twoTo (-exponent).toNat
    closed := mantissa % 2 = 0 }

namespace Rounding

/-- The multiple of `10 ^ e` nearest to the value, counted in that unit, if it or its neighbour on
the value's other side lies in the interval. -/
def onGrid? (r : Rounding) (e : Int) : Option Nat :=
  let unit := tenTo e.toNat * r.denominator
  let scale := tenTo (-e).toNat
  let value := r.value * scale
  let inside (c : Nat) : Bool :=
    if r.closed then r.low * scale ≤ c * unit && c * unit ≤ r.high * scale
    else r.low * scale < c * unit && c * unit < r.high * scale
  let c := value / unit
  match inside c, inside (c + 1) with
  | true, true =>
    let down := value - c * unit
    let up := (c + 1) * unit - value
    some (if down < up ∨ down = up ∧ c % 2 = 0 then c else c + 1)
  | true, false => some c
  | false, true => some (c + 1)
  | false, false => none

/-- Searches `steps` grids, from `10 ^ e` to finer ones. -/
def search (r : Rounding) : Nat → Int → Decimal
  | 0, e => ⟨r.value * tenTo (-e).toNat / (tenTo e.toNat * r.denominator), e⟩
  | steps + 1, e =>
    match r.onGrid? e with
    | some c => ⟨c, e⟩
    | none => search r steps (e - 1)

end Rounding

/-- The shortest decimal that reads back as the double `mantissa * 2 ^ exponent`. No double needs
more than 17 digits, and the first grid lies at most three powers of ten above the value. -/
def shortest (mantissa : Nat) (exponent : Int) : Decimal :=
  let top := (exponent + mantissa.log2 + 1) * 30103 / 100000 + 1
  (Rounding.ofDouble mantissa exponent).search 20 top

end Tabletop.Number
