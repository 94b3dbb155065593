import Tabletop.Proofs.Tree

/-!
# Printing trees of operations

A tree of literals is printed with as few brackets as its places allow: each place asks its operand
to bind at least so tightly, and an operand that does not is put in round brackets. The printer
lists pieces. A piece is a lexeme together with the token that is meant by it, so that the text of a
tree and the tokens that should be read from it come from one list.
-/

namespace Tabletop

/-- The lexeme is a whole numeral, bracketed list or name of the circle constant. -/
def Lexeme.IsLiteral : Lexeme → Prop
  | list s => list? s = some (list s)
  | numeral s => numeral? s = some (numeral s)
  | pi s => s = ['p', 'i'] ∨ s = ['π']
  | word _ | stray _ => False

/-- A literal that can be read, as it is written, and its token. -/
structure Literal where
  lexeme : Lexeme
  token : Token
  isLiteral : lexeme.IsLiteral
  reads : lexeme.tokens .dice true = .ok [token]

/-- A lexeme of a printed text, and the token that is meant by it. -/
structure Piece where
  lexeme : Lexeme
  token : Token

namespace Piece

/-- A token that is a lexeme by itself. -/
def ofToken (t : Token) : Piece := ⟨.word t, t⟩

/-- The minus sign in front of an operand. -/
def sign : Piece := ⟨.word (.binary .minus), .negate⟩

def textOf (ps : List Piece) : List Char := ps.flatMap fun p => p.lexeme.text

@[simp] theorem textOf_nil : textOf [] = [] := rfl

@[simp] theorem textOf_cons (p : Piece) (ps : List Piece) :
    textOf (p :: ps) = p.lexeme.text ++ textOf ps := by
  simp [textOf]

end Piece

/-- How tightly a tree with the operation at its root binds. -/
def Unary.binding : Unary → Nat
  | negate => signPrecedence
  | function _ => 7
  | genesys _ => 10

def Binary.binding : Binary → Nat
  | operator op => op.precedence
  | dice | pool _ | conversion _ => 10

/-- How tightly an operand of the operation must bind to stand without brackets. The argument of a
function never does. -/
def Unary.needs : Unary → Nat
  | negate => signPrecedence
  | function _ => 12
  | genesys _ => 7

/-- How tightly the left operand must bind. On the side where an operator does not group, an operand
that binds as tightly as the operator is not enough; before an operator on dice only leaves,
operations on dice and functions are. -/
def Binary.needsLeft : Binary → Nat
  | operator op => if op.groupsRight then op.precedence + 1 else op.precedence
  | dice | pool _ | conversion _ => 7

/-- How tightly the right operand must bind; after an operator on dice only leaves do. -/
def Binary.needsRight : Binary → Nat
  | operator op => if op.groupsRight then op.precedence else op.precedence + 1
  | dice | pool _ | conversion _ => 11

theorem Operator.precedence_le (op : Operator) : op.precedence ≤ 6 := by cases op <;> decide

theorem Unary.binding_le (u : Unary) : u.binding ≤ 10 := by cases u <;> simp [binding, signPrecedence]

theorem Binary.binding_le (b : Binary) : b.binding ≤ 10 := by
  cases b with
  | operator op => exact Nat.le_trans op.precedence_le (by decide)
  | dice => exact Nat.le_refl 10
  | pool op => exact Nat.le_refl 10
  | conversion c => exact Nat.le_refl 10

namespace Tree

variable {α : Type}

/-- How tightly the root of a tree binds, a leaf most of all. -/
def binding : Tree α → Nat
  | leaf _ => 11
  | unary u _ => u.binding
  | binary b _ _ => b.binding

theorem binding_le (x : Tree α) : x.binding ≤ 11 := by
  cases x with
  | leaf a => exact Nat.le_refl 11
  | unary u x => exact Nat.le_succ_of_le u.binding_le
  | binary b x y => exact Nat.le_succ_of_le b.binding_le

/-- The pieces of an operand at a place that asks for such a binding. -/
def place (needed : Nat) (x : Tree α) (ps : List Piece) : List Piece :=
  if x.binding < needed then
    .ofToken (.opening .round) :: (ps ++ [.ofToken (.closing .round)])
  else ps

/-- The printed tree. Signs and functions stand before their operand, narrative kinds after it. -/
def pieces : Tree Literal → List Piece
  | leaf l => [⟨l.lexeme, l.token⟩]
  | unary .negate x => .sign :: x.place Unary.negate.needs x.pieces
  | unary (.function f) x => .ofToken (.function f) :: x.place (Unary.function f).needs x.pieces
  | unary (.genesys k) x => x.place (Unary.genesys k).needs x.pieces ++ [.ofToken (.genesys k)]
  | binary b x y =>
    x.place b.needsLeft x.pieces ++ .ofToken b.token :: y.place b.needsRight y.pieces

def text (x : Tree Literal) : String := String.ofList (Piece.textOf x.pieces)

end Tree

end Tabletop
