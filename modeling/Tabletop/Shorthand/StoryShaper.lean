import Tabletop.Shorthand.Parts
import Tabletop.Text.Word

/-!
# Story Shaper

Two ten-sided dice, with whatever modifiers follow.
-/

namespace Tabletop.Shorthand.StoryShaper

open Text

def base : String := "2d10"

/-- A character that may occur in modifiers. -/
def isModifierCharacter (c : Char) : Bool :=
  isWord c || isBlank c ||
    ['+', '-', '*', '/', '%', '^', '(', ')', '[', ']', ',', '.', '&'].contains c

def toNotation (command : String) : Except Error String :=
  let modifiers := squeeze (lower command.toList)
  match modifiers.find? fun c => !isModifierCharacter c with
  | some c => unknown [c]
  | none => .ok (base ++ String.ofList modifiers)

end Tabletop.Shorthand.StoryShaper
