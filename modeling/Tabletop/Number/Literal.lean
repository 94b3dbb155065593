import Tabletop.Error
import Tabletop.Text.Blank
import Tabletop.Text.Digit

/-!
# Reading numbers

Digits of any script are read. A whole number has a limited number of digits; a double is the one
nearest to the decimal, however long that is.
-/

namespace Tabletop.Number

open Text

/-- The number a run of digits writes, unless the run is too long. -/
def natural (ds : List Char) : Except Error Nat :=
  if ds.length ≤ maxNumeralDigits then .ok (numeral ds) else .error (.tooManyDigits ds.length)

/-- The double nearest to the digits of `whole`, a point, and those of `fraction`, times a power
of ten. -/
def nearest (whole fraction : List Char) (power : Int) : Float :=
  match power - fraction.length with
  | .ofNat e => Float.ofScientific (numeral (whole ++ fraction)) false e
  | .negSucc e => Float.ofScientific (numeral (whole ++ fraction)) true (e + 1)

/-- The text without the underscores that stand between two digits; none if one stands elsewhere.
The flag tells whether a digit comes right before. -/
def withoutGroups? : Bool → List Char → Option (List Char)
  | _, [] => some []
  | afterDigit, c :: cs =>
    if c = '_' then
      if afterDigit && (cs.head?.map isDigit).getD false then withoutGroups? false cs else none
    else (withoutGroups? (isDigit c) cs).map (c :: ·)

/-- A leading sign: whether it is a minus, and what follows. -/
def signed : List Char → Bool × List Char
  | '-' :: cs => (true, cs)
  | '+' :: cs => (false, cs)
  | cs => (false, cs)

/-- A whole number with an optional sign, digits, and underscores between digits. -/
def integer? (s : List Char) : Option Int := do
  let (negative, ds) := signed (← withoutGroups? false (trim s))
  if ds.isEmpty || !ds.all isDigit then none
  else
    match natural ds with
    | .ok n => some (if negative then -(n : Int) else n)
    | .error _ => none

/-- The power of ten that an exponent writes; no text writes the power zero. -/
def exponent? : List Char → Option Int
  | [] => some 0
  | c :: cs =>
    if c = 'e' || c = 'E' then
      let (negative, ds) := signed cs
      if ds.isEmpty || !ds.all isDigit then none
      else some (if negative then -(numeral ds : Int) else numeral ds)
    else none

/-- A decimal without sign, or one of the names of infinity and of what is no number. -/
def magnitude? (s : List Char) : Option Float :=
  let name := String.ofList (s.map Char.toLower)
  if name = "inf" || name = "infinity" then some (1.0 / 0.0)
  else if name = "nan" then some (0.0 / 0.0)
  else
    let whole := s.takeWhile isDigit
    let rest := s.dropWhile isDigit
    let (fraction, rest) :=
      match rest with
      | '.' :: cs => (cs.takeWhile isDigit, cs.dropWhile isDigit)
      | cs => ([], cs)
    if whole.isEmpty && fraction.isEmpty then none
    else (exponent? rest).map (nearest whole fraction)

/-- A decimal with an optional sign, fraction and exponent, and underscores between digits. -/
def real? (s : List Char) : Option Float := do
  let (negative, body) := signed (← withoutGroups? false (trim s))
  let size ← magnitude? body
  pure (if negative then -size else size)

end Tabletop.Number
