import Tabletop.Shorthand.Parts

/-!
# Chronicles of Darkness

Ten-sided dice succeed on 8 and above, and tens are rolled again. `aN` rolls dice of `N` and above
again, `m` rolls none again, and `r` first rolls every failure once more. `chance` is a single die
that succeeds on a ten.
-/

namespace Tabletop.Shorthand.Chronicles

open Text

/-- The lowest face that succeeds. -/
def target : Nat := 8

structure Options where
  /-- The lowest face that is rolled again, if any is. -/
  again : Option Nat := some 10
  rote : Bool := false
deriving DecidableEq

def Options.take (o : Options) : Flag → Except Error Options
  | .numbered letter digits => do
    pure { o with again := some (← Flag.number 2 10 letter digits) }
  | .plain 'm' => .ok { o with again := none }
  | .plain 'r' => .ok { o with rote := true }
  | f => f.refuse

def Options.ofFlags (flags : List Char) : Except Error Options :=
  (Flag.scan ['a'] 0 flags).foldlM Options.take {}

def Options.render (o : Options) (dice bonus : List Char) : String :=
  let rote := if o.rote then "ro" ++ faceRange 1 (target - 1) else ""
  let again :=
    match o.again with
    | some n => "er" ++ faceRange n 10
    | none => ""
  withBonus (tens dice ++ rote ++ again ++ s!"t{target}") bonus

def toNotation (command : String) : Except Error String := do
  let command := lower (trim command.toList)
  if command = "chance".toList then pure "1d10t10"
  else
    let parts ← Parts.ofCommand command
    let options ← Options.ofFlags parts.flags
    pure (options.render parts.dice parts.bonus)

end Tabletop.Shorthand.Chronicles
