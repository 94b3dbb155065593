import Tabletop.Pool.Explode
import Tabletop.Pool.Keep
import Tabletop.Pool.Reroll

/-!
# Pool operators

An operator that keeps, rerolls or explodes the dice of a pool is written as the letter of its
family and, unless the usual mode of the family is meant, the letter of its mode.
-/

namespace Tabletop

inductive KeepMode where
  | high
  | low
  | exact
deriving DecidableEq

inductive RerollMode where
  | once
  | better
  | worse
  | recursive
deriving DecidableEq

inductive ExplodeMode where
  | once
  | additive
  | recursive
deriving DecidableEq

/-- An operator as it is written; `none` leaves the letter of the mode out. -/
inductive PoolOperator where
  | keep (mode : Option KeepMode)
  | reroll (mode : Option RerollMode)
  | explode (mode : Option ExplodeMode)
deriving DecidableEq

def KeepMode.letter : KeepMode → String
  | high => "h"
  | low => "l"
  | exact => "e"

def RerollMode.letter : RerollMode → String
  | once => "o"
  | better => "b"
  | worse => "w"
  | recursive => "r"

def ExplodeMode.letter : ExplodeMode → String
  | once => "o"
  | additive => "a"
  | recursive => "r"

/-- What an operator does, however it is written. -/
inductive PoolMode where
  | keep (mode : KeepMode)
  | reroll (mode : RerollMode)
  | explode (mode : ExplodeMode)
deriving DecidableEq

namespace PoolMode

/-- The family and the mode, a letter each. -/
def letters : PoolMode → String
  | keep mode => "k" ++ mode.letter
  | reroll mode => "r" ++ mode.letter
  | explode mode => "e" ++ mode.letter

def label : PoolMode → String
  | keep .high => "keep highest"
  | keep .low => "keep lowest"
  | keep .exact => "keep exactly"
  | explode .once => "explode once"
  | explode .recursive => "explode"
  | explode .additive => "explode additively"
  | reroll .once => "reroll once"
  | reroll .recursive => "reroll recursively"
  | reroll .better => "reroll keeping better"
  | reroll .worse => "reroll keeping worse"

/-- Applies the operation to a pool. Only the highest and the lowest dice are kept by number; every
other operation takes its argument as a set of faces. -/
def apply (mode : PoolMode) (p : Pool) (arg : Argument) (cap : Int) : Rolling Change :=
  match mode with
  | keep .high => do p.keepHigh (← arg.scalar)
  | keep .low => do p.keepLow (← arg.scalar)
  | keep .exact => p.keepExact arg.faces
  | explode .once => p.explodeOnce arg.faces
  | explode .recursive => p.explodeRecursive arg.faces cap
  | explode .additive => p.explodeAdditive arg.faces cap
  | reroll .once => p.rerollOnce arg.faces
  | reroll .recursive => p.rerollRecursive arg.faces cap
  | reroll .better => p.rerollBetter arg.faces
  | reroll .worse => p.rerollWorse arg.faces

end PoolMode

namespace PoolOperator

/-- Without a letter the highest dice are kept, and dice are rerolled or explode once. -/
def mode : PoolOperator → PoolMode
  | keep m => .keep (m.getD .high)
  | reroll m => .reroll (m.getD .once)
  | explode m => .explode (m.getD .once)

def symbol : PoolOperator → String
  | keep m => "k" ++ (m.map KeepMode.letter).getD ""
  | reroll m => "r" ++ (m.map RerollMode.letter).getD ""
  | explode m => "e" ++ (m.map ExplodeMode.letter).getD ""

/-- All ways of writing an operator, the longer ones first. -/
def all : List PoolOperator :=
  [keep (some .high), keep (some .low), keep (some .exact), keep none,
   reroll (some .once), reroll (some .better), reroll (some .worse), reroll (some .recursive),
   reroll none, explode (some .once), explode (some .additive), explode (some .recursive),
   explode none]

def ofSymbol? (symbol : String) : Option PoolOperator := all.find? fun op => op.symbol = symbol

end PoolOperator

end Tabletop
