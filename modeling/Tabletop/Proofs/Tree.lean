import Tabletop.Evaluation

/-!
# Trees of operations

A formula is a tree: its leaves are operands, and each inner node is an operation on one operand or
on two. `Tree.postorder` lists the tokens of a tree, every operation after its operands.
-/

namespace Tabletop

inductive Unary where
  | negate
  | function (f : MathFunction)
  | genesys (k : Genesys.Kind)
deriving DecidableEq

inductive Binary where
  | operator (op : Operator)
  | dice
  | pool (op : PoolOperator)
  | conversion (c : Conversion)
deriving DecidableEq

def Unary.token : Unary → Token
  | negate => .negate
  | function f => .function f
  | genesys k => .genesys k

def Binary.token : Binary → Token
  | operator op => .binary op
  | dice => .dice
  | pool op => .pool op
  | conversion c => .conversion c

inductive Tree (α : Type) where
  | leaf (a : α)
  | unary (u : Unary) (x : Tree α)
  | binary (b : Binary) (x y : Tree α)

/-- The tokens of a tree in postfix order; `word` tells the tokens of its leaves. -/
def Tree.postorder {α : Type} (word : α → Token) : Tree α → List Token
  | leaf a => [word a]
  | unary u x => x.postorder word ++ [u.token]
  | binary b x y => x.postorder word ++ y.postorder word ++ [b.token]

end Tabletop
