import Tabletop.Pool.Breakdown

/-!
# Exploding dice

A die that shows a trigger face has one more die rolled beside it. Explosions go by generations:
only the dice of the last generation can trigger the next one. A die and the dice that came of it
form a chain, and the extra dice of a generation are rolled in the order of their chains.
-/

namespace Tabletop.Pool

/-- All faces of such a die are in the set. -/
def covers (faces : List Int) (sides : Nat) : Bool :=
  (List.range sides).all fun i => faces.contains ((i : Int) + 1)

/-- Refuses a set that holds every face of some die of the pool, naming the smallest size. -/
def checkTermination (p : Pool) (faces : List Int) (what : String) : Except Error Unit :=
  match p.sizes.find? fun sides => 0 < sides && covers faces sides with
  | some sides => .error (.everyFaceTriggers sides what)
  | none => .ok ()

/-- A die of the pool and the extra dice that came of it, in the order they were rolled. -/
structure Chain where
  root : Die
  extras : List Die
deriving DecidableEq

namespace Chain

def start (d : Die) : Chain := ⟨d, []⟩

/-- The die rolled last. -/
def last (c : Chain) : Die := c.extras.getLastD c.root

def dice (c : Chain) : List Die := c.root :: c.extras

def isLive (faces : List Int) (c : Chain) : Bool := faces.contains c.last.face

/-- Rolls one more die if the last one triggers. -/
def grow (faces : List Int) (c : Chain) : Rolling Chain :=
  if c.isLive faces then do
    let extra ← c.last.explode
    pure { c with extras := c.extras ++ [extra] }
  else pure c

/-- The root, with the extra dice marked as added. -/
def entries (c : Chain) : Breakdown :=
  { die := c.root } :: c.extras.map fun die => { die, added := true }

/-- One die that shows the whole chain. -/
def sum (c : Chain) : Die :=
  if c.extras.isEmpty then c.root else c.root.extend (c.extras.map Die.result)

end Chain

def chains (p : Pool) : List Chain := p.dice.map Chain.start

/-- Rolls generation after generation until no chain is live. `left` more generations are allowed
out of `cap`, and `size` dice have been rolled so far. -/
def settle (faces : List Int) (cap : Int) : Nat → Nat → List Chain → Rolling (List Chain)
  | left, size, cs =>
    let live := cs.countP (Chain.isLive faces)
    if live = 0 then pure cs
    else
      match left with
      | 0 => throw (.neverSettled "explosion" cap)
      | left + 1 => do
        checkSize (size + live)
        let cs ← cs.mapM (Chain.grow faces)
        settle faces cap left (size + live) cs

/-- The chains of all dice once they have settled. -/
def explosion (p : Pool) (faces : List Int) (cap : Int) : Rolling (List Chain) := do
  p.checkTermination faces "explosion"
  settle faces cap cap.toNat p.size p.chains

/-- Lays the dice of the chains out chain by chain. -/
def lineUp (p : Pool) (cs : List Chain) : Except Error Change :=
  p.changeTo (cs.flatMap Chain.dice) (cs.flatMap Chain.entries)

/-- Explodes one generation. -/
def explodeOnce (p : Pool) (faces : List Int) : Rolling Change := do
  p.checkTermination faces "explosion"
  p.lineUp (← p.chains.mapM (Chain.grow faces))

/-- Explodes until no die triggers; the extra dice join the pool. -/
def explodeRecursive (p : Pool) (faces : List Int) (cap : Int) : Rolling Change := do
  p.lineUp (← p.explosion faces cap)

/-- Explodes until no die triggers; the extra dice are added onto the die they came of. -/
def explodeAdditive (p : Pool) (faces : List Int) (cap : Int) : Rolling Change := do
  let dice := (← p.explosion faces cap).map Chain.sum
  p.changeTo dice (dice.map fun die => { die })

end Tabletop.Pool
