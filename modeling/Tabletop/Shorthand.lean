import Tabletop.Shorthand.Chronicles
import Tabletop.Shorthand.Exalted
import Tabletop.Shorthand.Narrative
import Tabletop.Shorthand.RollAndKeep
import Tabletop.Shorthand.StoryShaper

/-!
# Shorthands of game systems

Each system has its own way of writing rolls, which stands for dice notation.
-/

namespace Tabletop

inductive GameSystem where
  | chronicles
  | exalted
  | narrative
  | storyShaper
  | rollAndKeep
deriving DecidableEq

/-- The dice notation that a shorthand stands for. -/
def GameSystem.toNotation : GameSystem → String → Except Error String
  | chronicles => Shorthand.Chronicles.toNotation
  | exalted => Shorthand.Exalted.toNotation
  | narrative => Shorthand.Narrative.toNotation
  | storyShaper => Shorthand.StoryShaper.toNotation
  | rollAndKeep => Shorthand.RollAndKeep.toNotation

end Tabletop
