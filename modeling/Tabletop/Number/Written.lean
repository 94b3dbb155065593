import Tabletop.Number.Dyadic
import Tabletop.Number.Shortest

/-!
# How doubles are written

`written` gives the shortest decimal that reads back, always with a point or an exponent.
`displayed` is the form that players see: a whole number shows all its digits and nothing else.
-/

namespace Tabletop.Number

def zeroDigits (n : Nat) : String := String.ofList (List.replicate n '0')

/-- The decimal with its point, or with an exponent of at least two digits where the first digit
stands for less than a ten-thousandth or for `10 ^ 16` or more. -/
def Decimal.written (d : Decimal) : String :=
  let digits := Nat.toDigits 10 d.digits
  let point := digits.length + d.exponent
  if -4 < point ∧ point ≤ 16 then
    if point ≤ 0 then "0." ++ zeroDigits (-point).toNat ++ String.ofList digits
    else if (digits.length : Int) ≤ point then
      String.ofList digits ++ zeroDigits (point - digits.length).toNat ++ ".0"
    else
      String.ofList (digits.take point.toNat) ++ "." ++ String.ofList (digits.drop point.toNat)
  else
    let tail := if digits.length ≤ 1 then "" else "." ++ String.ofList (digits.drop 1)
    let power := point - 1
    let sign := if power < 0 then "-" else "+"
    let pad := if power.natAbs < 10 then "0" else ""
    String.ofList (digits.take 1) ++ tail ++ "e" ++ sign ++ pad ++ toString power.natAbs

def written (x : Float) : String :=
  match Dyadic.ofFloat? x with
  | none => if x.isNaN then "nan" else if x < 0 then "-inf" else "inf"
  | some d =>
    let size := if d.mantissa = 0 then ⟨0, 0⟩ else shortest d.mantissa d.exponent
    (if d.negative then "-" else "") ++ size.written

def displayed (x : Float) : String :=
  match whole? x with
  | some n => toString n
  | none => written x

end Tabletop.Number
