import Tabletop.Shorthand.Parts

/-!
# Legend of the Five Rings

`6k3` rolls six ten-sided dice, adds further rolls onto tens, and keeps the best three. `u` adds
nothing onto tens, `e` first rolls every 1 once more, and a modifier may follow.
-/

namespace Tabletop.Shorthand.RollAndKeep

open Text

structure Form where
  rolled : List Char
  kept : List Char
  flags : List Char
  modifier : List Char
deriving DecidableEq

/-- A sign and digits, or nothing. -/
def isModifier : List Char → Bool
  | [] => true
  | c :: cs => (c = '+' || c = '-') && !cs.isEmpty && cs.all isDigit

def Form.ofText? (s : List Char) : Option Form :=
  let rolled := s.takeWhile isDigit
  match s.drop rolled.length with
  | 'k' :: rest =>
    let kept := rest.takeWhile isDigit
    let rest := rest.drop kept.length
    let flags := rest.takeWhile fun c => 'a' ≤ c && c ≤ 'z'
    let modifier := rest.drop flags.length
    if rolled.isEmpty || kept.isEmpty || !isModifier modifier then none
    else some ⟨rolled, kept, flags, modifier⟩
  | _ => none

structure Options where
  explode : Bool := true
  emphasis : Bool := false
deriving DecidableEq

def Options.take (o : Options) (flag : Char) : Except Error Options :=
  if flag = 'u' then .ok { o with explode := false }
  else if flag = 'e' then .ok { o with emphasis := true }
  else unknown [flag]

def toNotation (command : String) : Except Error String := do
  let command := squeeze (lower command.toList)
  match Form.ofText? command with
  | none => unknown command
  | some form =>
    let options ← form.flags.foldlM Options.take {}
    let rolled ← Number.natural form.rolled
    let kept ← Number.natural form.kept
    pure (s!"{rolled}d10" ++ (if options.emphasis then "ro1" else "") ++
      (if options.explode then "ea10" else "") ++ s!"k{kept}" ++ String.ofList form.modifier)

end Tabletop.Shorthand.RollAndKeep
