import Tabletop.Pool.Explode

/-!
# Rolling dice again

A die whose last rolled face is in the set is rolled again, once or until it shows another face.
-/

namespace Tabletop.Pool

/-- Which of the old and the new die stays. -/
inductive Preference where
  | newer
  | higher
  | lower
deriving DecidableEq

/-- The new die takes the place of the old one; of equal dice the old one stays, unless the new one
is wanted anyway. -/
def Preference.takes (p : Preference) (old new : Die) : Bool :=
  match p with
  | newer => true
  | higher => old.result < new.result
  | lower => new.result < old.result

/-- Shows the old die and the new one, the loser struck out. -/
def Preference.replace (p : Preference) (old new : Die) : Replacement :=
  if p.takes old new then ⟨new, [{ die := old, dropped := true }, { die := new, added := true }]⟩
  else ⟨old, [{ die := old }, { die := new, dropped := true, added := true }]⟩

def rerollDie (preference : Preference) (faces : List Int) (d : Die) : Rolling Replacement :=
  if faces.contains d.face then do pure (preference.replace d (← d.reroll))
  else pure (.unchanged d)

/-- Rolls matching dice again, in pool order, and keeps the preferred die of each two. -/
def reroll (p : Pool) (preference : Preference) (faces : List Int) : Rolling Change := do
  p.replaceAll (← p.dice.mapM (rerollDie preference faces))

def rerollOnce (p : Pool) (faces : List Int) : Rolling Change := p.reroll .newer faces

def rerollBetter (p : Pool) (faces : List Int) : Rolling Change := p.reroll .higher faces

def rerollWorse (p : Pool) (faces : List Int) : Rolling Change := p.reroll .lower faces

/-- Rolls a die until it shows a face outside the set. `left` more rolls are allowed out of `cap`,
and `again` tells whether the die was rolled before. -/
def chase (faces : List Int) (cap : Int) : Nat → Bool → Die → Rolling Replacement
  | left, again, d =>
    if faces.contains d.face then
      match left with
      | 0 => throw (.neverSettled "reroll" cap)
      | left + 1 => do
        let r ← chase faces cap left true (← d.reroll)
        pure { r with entries := { die := d, dropped := true } :: r.entries }
    else pure ⟨d, [{ die := d, added := again }]⟩

/-- Rolls each matching die until it shows a face outside the set. -/
def rerollRecursive (p : Pool) (faces : List Int) (cap : Int) : Rolling Change := do
  p.checkTermination faces "reroll"
  p.replaceAll (← p.dice.mapM (chase faces cap cap.toNat false))

end Tabletop.Pool
