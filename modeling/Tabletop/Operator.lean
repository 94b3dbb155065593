import Tabletop.Operator.Arithmetic

/-!
# Binary operators

An operator is an action together with the sign that it is written with.
-/

namespace Tabletop

/-- What a binary operator does. `merge` joins two pools, and adds values. -/
inductive Action where
  | merge
  | add
  | subtract
  | arithmetic (a : Arithmetic)
deriving DecidableEq

/-- The binary operators, by their signs. -/
inductive Operator where
  | ampersand
  | plus
  | minus
  | star
  | letterX
  | cross
  | slash
  | obelus
  | percent
  | caret
  | doubleStar
deriving DecidableEq

namespace Operator

def symbol : Operator → String
  | ampersand => "&"
  | plus => "+"
  | minus => "-"
  | star => "*"
  | letterX => "x"
  | cross => "×"
  | slash => "/"
  | obelus => "÷"
  | percent => "%"
  | caret => "^"
  | doubleStar => "**"

def action : Operator → Action
  | ampersand => .merge
  | plus => .add
  | minus => .subtract
  | star | letterX | cross => .arithmetic .multiply
  | slash | obelus => .arithmetic .divide
  | percent => .arithmetic .remainder
  | caret | doubleStar => .arithmetic .power

/-- How tightly the operator binds. -/
def precedence (op : Operator) : Nat :=
  match op.action with
  | .merge => 3
  | .add | .subtract => 4
  | .arithmetic .power => 6
  | .arithmetic _ => 5

/-- Only powers group to the right. -/
def groupsRight (op : Operator) : Bool := op.action = .arithmetic .power

end Operator

/-- How tightly a sign in front of an operand binds: like a power. -/
def signPrecedence : Nat := 6

end Tabletop
