import Tabletop.Shorthand.Parts

/-!
# Exalted

Ten-sided dice succeed on 7 and above, and tens count twice. `tN` sets the target, `dN` counts dice
of `N` and above twice, `m` counts none twice, and what stands in braces is done to the dice before
they are counted.
-/

namespace Tabletop.Shorthand.Exalted

open Text

structure Options where
  target : Nat := 7
  /-- The lowest face that counts twice, if any does. -/
  double : Option Nat := some 10
  extra : List Char := []
deriving DecidableEq

def Options.take (o : Options) : Flag → Except Error Options
  | .numbered 'd' digits => do pure { o with double := some (← Flag.number 1 10 'd' digits) }
  | .numbered 't' digits => do pure { o with target := ← Flag.number 1 10 't' digits }
  | .plain 'm' => .ok { o with double := none }
  | .braced inside => .ok { o with extra := o.extra ++ trim inside }
  | f => f.refuse

def Options.ofFlags (flags : List Char) : Except Error Options :=
  (Flag.scan ['d', 't'] 0 flags).foldlM Options.take {}

/-- What the faces from the target to ten count. -/
def Options.table (o : Options) (double : Nat) : List Nat :=
  (List.range (11 - o.target)).map fun i => if double ≤ i + o.target then 2 else 1

def Options.render (o : Options) (dice bonus : List Char) : String :=
  let count :=
    match o.double with
    | none => toString o.target
    | some n => "[" ++ String.intercalate ", " ((o.table n).map toString) ++ "]"
  withBonus (tens dice ++ String.ofList o.extra ++ "t" ++ count) bonus

def toNotation (command : String) : Except Error String := do
  let parts ← Parts.ofCommand (lower (trim command.toList))
  let options ← Options.ofFlags parts.flags
  pure (options.render parts.dice parts.bonus)

end Tabletop.Shorthand.Exalted
