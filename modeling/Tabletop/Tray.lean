import Tabletop.Roll

/-!
# Trays

A tray remembers the latest rolls made in one place, so that they can be rolled again or revised.
A roll that fails leaves the tray as it was.
-/

namespace Tabletop

variable {Owner : Type}

/-- At most `capacity` rolls, the oldest first. -/
structure Tray (Owner : Type) where
  capacity : Nat
  rolls : List (Roll Owner)

namespace Tray

/-- An empty tray for at least one roll. -/
def ofCapacity (capacity : Int) : Except Error (Tray Owner) :=
  if capacity < 1 then .error (.badCapacity capacity) else .ok ⟨capacity.toNat, []⟩

def latest (t : Tray Owner) : Except Error (Roll Owner) :=
  match t.rolls.getLast? with
  | some r => .ok r
  | none => .error .noRolls

/-- Stores a roll; a full tray forgets its oldest ones. -/
def push (t : Tray Owner) (r : Roll Owner) : Tray Owner :=
  { t with rolls := t.rolls.drop (t.rolls.length + 1 - t.capacity) ++ [r] }

/-- Stores rolls one after the other. -/
def pushAll (t : Tray Owner) (rs : List (Roll Owner)) : Tray Owner := rs.foldl push t

/-- Rolls an order so many times, and then stores all the rolls. -/
def addMany (t : Tray Owner) (o : Order Owner) (times : Nat) :
    Rolling (List (Roll Owner) × Tray Owner) := do
  let rs ← o.rollMany times
  pure (rs, t.pushAll rs)

/-- Rolls an order and stores the roll. -/
def add (t : Tray Owner) (o : Order Owner) : Rolling (Roll Owner × Tray Owner) := do
  let r ← o.roll
  pure (r, t.push r)

/-- The order that rolls the latest roll again. -/
def rerollOrder (t : Tray Owner) : Except Error (Order Owner) := do
  pure (← t.latest).order

/-- The latest order with more text at its end, and with the new comment if there is one. Only the
owner may revise a roll. -/
def revisionOrder [DecidableEq Owner] (t : Tray Owner) (o : Order Owner) :
    Except Error (Order Owner) := do
  let old ← t.latest
  if o.owner = old.owner then
    pure ⟨old.command ++ o.command, if o.comment.isEmpty then old.comment else o.comment, old.owner⟩
  else throw .notOwner

def reroll (t : Tray Owner) : Rolling (Roll Owner × Tray Owner) := do
  t.add (← t.rerollOrder)

/-- Adds text to the latest roll and rolls the whole again. -/
def revise [DecidableEq Owner] (t : Tray Owner) (o : Order Owner) :
    Rolling (Roll Owner × Tray Owner) := do
  t.add (← t.revisionOrder o)

end Tray

end Tabletop
