import Tabletop.Argument
import Tabletop.Die

/-!
# Pools

A pool is a row of dice together with the shapes it was rolled in. No pool holds more than
`maxPoolSize` dice.
-/

namespace Tabletop

/-- So many dice of one size. -/
structure Shape where
  count : Nat
  sides : Nat
deriving DecidableEq

/-- The size of each die. -/
def Shape.sizes (s : Shape) : List Nat := List.replicate s.count s.sides

def Shape.text (s : Shape) : String := s!"{s.count}d{s.sides}"

structure Pool where
  dice : List Die
  shapes : List Shape
deriving DecidableEq

namespace Pool

def checkSize (size : Nat) : Except Error Unit :=
  if size ≤ maxPoolSize then .ok () else .error (.poolTooLarge size)

/-- The pool of given dice, if they are not too many. -/
def ofDice (dice : List Die) (shapes : List Shape) : Except Error Pool := do
  checkSize dice.length
  pure ⟨dice, shapes⟩

/-- The pool with other dice in the same shapes. -/
def withDice (p : Pool) (dice : List Die) : Except Error Pool := ofDice dice p.shapes

/-- All dice of both pools, one pool after the other. -/
def merge (p q : Pool) : Except Error Pool := ofDice (p.dice ++ q.dice) (p.shapes ++ q.shapes)

def size (p : Pool) : Nat := p.dice.length

def results (p : Pool) : List Int := p.dice.map Die.result

def total (p : Pool) : Int := sum p.results

/-- The sizes of the dice, ascending, each once. -/
def sizes (p : Pool) : List Nat := (p.dice.map Die.sides).eraseDups.mergeSort

/-- The shapes that counts and sizes stand for. Two lists go in pairs, and a single number goes
with every entry of a list. -/
def shapesOf (counts sides : Argument) : Except Error (List Shape) :=
  match counts, sides with
  | .single n, .single s => .ok [⟨n, s⟩]
  | .single n, .list ss => .ok (ss.map (⟨n, ·⟩))
  | .list ns, .single s => .ok (ns.map (⟨·, s⟩))
  | .list ns, .list ss =>
    if ns.length = ss.length then .ok (List.zipWith Shape.mk ns ss)
    else .error (.unpaired counts.text sides.text)

/-- Rolls the dice of each shape in turn. -/
def roll (counts sides : Argument) : Rolling Pool := do
  let shapes ← shapesOf counts sides
  let sizes := shapes.flatMap Shape.sizes
  checkSize sizes.length
  ofDice (← sizes.mapM Die.roll) shapes

def shapeText (p : Pool) : String := String.intercalate "&" (p.shapes.map Shape.text)

def text (p : Pool) : String :=
  s!"{p.shapeText} -> [" ++ String.intercalate ", " (p.dice.map Die.text) ++ "]"

/-- Every die is valid and there are not too many. -/
def Valid (p : Pool) : Prop := (∀ d ∈ p.dice, d.Valid) ∧ p.size ≤ maxPoolSize

end Pool

end Tabletop
