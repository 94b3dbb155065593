import Tabletop.Faces
import Tabletop.Sum

/-!
# A die

A plain die shows a face. A compound die was built up by additive explosion: it shows the sum of
its parts, and the last part is the face that triggers operators. A die without sides is a blank
that shows 0.
-/

namespace Tabletop

inductive Die where
  | plain (sides : Nat) (shown : Int)
  | compound (sides : Nat) (parts : List Int)
deriving DecidableEq

namespace Die

def sides : Die → Nat
  | plain sides _ => sides
  | compound sides _ => sides

/-- What the die counts for. -/
def result : Die → Int
  | plain _ shown => shown
  | compound _ parts => sum parts

/-- The face rolled last, which is what triggers operators. -/
def face : Die → Int
  | plain _ shown => shown
  | compound _ parts => parts.getLastD 0

/-- The rolled faces that the result is the sum of. -/
def parts : Die → List Int
  | plain _ shown => [shown]
  | compound _ parts => parts

/-- The face itself if a die of that many sides has it, else the nearest it has. -/
def clamp (sides : Nat) (face : Int) : Int := min (max face 1) sides

/-- A plain die that shows a given face. -/
def ofFace (sides face : Int) : Except Error Die :=
  if sides = 0 then .ok (plain 0 0)
  else if face < 1 ∨ sides < face then .error (.cannotShow sides face)
  else .ok (plain sides.toNat face)

/-- The first part that a die of that many sides cannot show. Without sides any part will do. -/
def badPart? (sides : Int) (parts : List Int) : Option Int :=
  if sides = 0 then none else parts.find? fun part => part < 1 ∨ sides < part

/-- A compound die with given parts. -/
def ofParts (sides : Int) (parts : List Int) : Except Error Die :=
  if parts.isEmpty then .error .noParts
  else
    match badPart? sides parts with
    | some part => .error (.cannotShow sides part)
    | none => .ok (compound sides.toNat parts)

/-- A die without sides takes no face. -/
def roll (sides : Nat) : Rolling Die :=
  if sides = 0 then pure (plain 0 0)
  else do
    let face ← Rolling.draw
    pure (plain sides (clamp sides face))

/-- Rolls a die of any number of sides: fewer than none cannot show the face that was taken. -/
def rollAny : Int → Rolling Die
  | .ofNat sides => roll sides
  | .negSucc n => do
    let face ← Rolling.draw
    throw (.cannotShow (.negSucc n) (min (max face 1) (.negSucc n)))

/-- The die rolled again. A compound die becomes one part, and takes a face even without sides. -/
def reroll : Die → Rolling Die
  | plain sides _ => roll sides
  | compound sides _ => do
    let face ← Rolling.draw
    pure (compound sides [clamp sides face])

/-- The die rolled again, and by how much its result changed. -/
def rerolled : Die → Rolling (Die × Int)
  | plain sides shown =>
    if sides = 0 then pure (plain sides shown, 0)
    else do
      let face ← Rolling.draw
      pure (plain sides (clamp sides face), clamp sides face - shown)
  | compound sides parts => do
    let face ← Rolling.draw
    pure (compound sides [clamp sides face], clamp sides face - sum parts)

/-- The die turned to a face. -/
def turn (value : Int) : Die → Die
  | plain sides shown => if sides = 0 then plain sides shown else plain sides (clamp sides value)
  | compound sides _ => compound sides [clamp sides value]

/-- A fresh die of the same size. -/
def explode (d : Die) : Rolling Die := roll d.sides

/-- The die made anew. -/
def remade : Die → Except Error Die
  | plain sides shown => ofFace sides shown
  | compound sides parts => ofParts sides parts

/-- The compound die with the same parts. -/
def compounded (d : Die) : Except Error Die := ofParts d.sides d.parts

/-- The compound die with the same parts and the given ones after them. -/
def extend (d : Die) (more : List Int) : Die := compound d.sides (d.parts ++ more)

/-- The compound die with one part more, if the die can show it. -/
def withPart (d : Die) (part : Int) : Except Error Die := ofParts d.sides (d.parts ++ [part])

/-- Both dice have the same size and the same result, whatever their parts. -/
def same (d e : Die) : Bool := d.sides = e.sides && d.result = e.result

/-- The result alone. -/
def text (d : Die) : String := toString d.result

/-- The result, after the sum it comes from if that has several terms. -/
def breakdown : Die → String
  | d@(plain ..) => d.text
  | d@(compound _ parts) =>
    if parts.length = 1 then d.text
    else String.intercalate "+" (parts.map toString) ++ "=" ++ d.text

/-- A face that the die can show, and parts that it can show, at least one. -/
def Valid : Die → Prop
  | plain sides shown => (sides = 0 ∧ shown = 0) ∨ (1 ≤ shown ∧ shown ≤ sides)
  | compound sides parts => parts ≠ [] ∧ ∀ part ∈ parts, 1 ≤ part ∧ part ≤ sides

end Die

end Tabletop
