import Tabletop.Genesys.Kind
import Tabletop.Operator
import Tabletop.Operator.MathFunction
import Tabletop.Operator.PoolOperator
import Tabletop.Pool.Count
import Tabletop.Value

/-!
# Tokens

The words of dice notation, before anything is rolled.
-/

namespace Tabletop

/-- The two kinds of brackets that group. -/
inductive Bracket where
  | round
  | curly
deriving DecidableEq

namespace Bracket

def opener : Bracket → String
  | round => "("
  | curly => "\x7b"

def closer : Bracket → String
  | round => ")"
  | curly => "\x7d"

end Bracket

inductive Token where
  | argument (a : Argument)
  /-- A number too large or too fine for an argument, as it was written. -/
  | number (x : Float) (written : String)
  | opening (b : Bracket)
  | closing (b : Bracket)
  /-- A minus sign in front of an operand. -/
  | negate
  | binary (op : Operator)
  | function (f : MathFunction)
  | dice
  | pool (op : PoolOperator)
  | conversion (c : Conversion)
  | genesys (k : Genesys.Kind)
  /-- A token of no kind, which is refused wherever it stands. -/
  | blank

namespace Token

def text : Token → String
  | argument a => a.text
  | number _ written => written
  | opening b => b.opener
  | closing b => b.closer
  | negate => "-"
  | binary op => op.symbol
  | function f => f.name
  | dice => "d"
  | pool op => op.symbol
  | conversion c => c.symbol
  | genesys k => k.symbol
  | blank => ""

/-- The token stands for a value by itself. -/
def isOperand : Token → Bool
  | argument _ | number .. => true
  | _ => false

/-- The operators on dice, which apply from left to right whatever stands around them. -/
def isChaining : Token → Bool
  | dice | pool _ | conversion _ | genesys _ => true
  | _ => false

/-- An operand must come after this token before any operator can. -/
def wantsOperand : Token → Bool
  | opening _ | negate | binary _ | function _ => true
  | _ => false

/-- How tightly an operator binds; other tokens do not bind. -/
def precedence? : Token → Option Nat
  | binary op => some op.precedence
  | negate => some signPrecedence
  | function _ => some 7
  | dice | pool _ | conversion _ | genesys _ => some 10
  | _ => none

/-! ### Tokens that were not rolled -/

/-- What is missing before a token has a result. -/
def unrolled? : Token → Option String
  | function f => some f.name
  | dice => some "a dice pool"
  | pool op => some op.mode.label
  | conversion _ => some "a success count"
  | genesys k => some s!"{k.name} dice"
  | _ => none

/-- The value of a token that nothing was rolled for. -/
def toValue : Token → Except Error Value
  | argument a => do Value.ofFloat (Float.ofNat (← a.scalar))
  | number x _ => .ok (.decimal x)
  | t =>
    match t.unrolled? with
    | some what => .error (.notRolled what)
    | none => .error (.notNumber t.text)

/-- The token as an argument of an operator on dice. -/
def toArgument : Token → Except Error Argument
  | argument a => .ok a
  | t => do Argument.ofScalar (.real (← (← t.toValue).toDecimal))

/-- The pool of a token that nothing was rolled for: there is none. -/
def toPool (t : Token) : Except Error Pool :=
  match t with
  | function _ => .error (.notPool t.text)
  | t =>
    match t.unrolled? with
    | some what => .error (.notRolled what)
    | none => .error (.notPool t.text)

end Token

end Tabletop
