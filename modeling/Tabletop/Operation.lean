import Tabletop.Token

/-!
# Operations and their operands

An operation that ran is logged with what it made of its operands. What an operation on dice leaves
can be read as a pool, as a value, and as an operand of further operations.
-/

namespace Tabletop

/-- An operation on dice that ran. -/
inductive Throw where
  | rolled (pool : Pool)
  | changed (op : PoolOperator) (arg : Argument) (change : Change)
  /-- The pool was counted; `base` was counted before. -/
  | counted (c : Conversion) (arg : Argument) (pool : Pool) (base : Int)
  /-- The pool was read as narrative dice. -/
  | read (kind : Genesys.Kind) (pool : Pool)

namespace Throw

/-- The dice that lie on the table: those that were counted or read, or the outcome of a roll. -/
def pool : Throw → Pool
  | rolled pool => pool
  | changed _ _ change => change.pool
  | counted _ _ pool _ => pool
  | read _ pool => pool

/-- The signed successes counted so far. -/
def successes : Throw → Int
  | counted c arg pool base => base + (c.count pool arg).value
  | _ => 0

def value : Throw → Value
  | rolled pool => .ofTotal pool.total
  | changed _ _ change => .ofTotal change.pool.total
  | t@(counted ..) => .successes t.successes
  | read kind pool => .genesys (kind.tally pool)

/-- The dice were neither counted nor read. -/
def isRaw : Throw → Bool
  | rolled _ | changed .. => true
  | counted .. | read .. => false

def text : Throw → String
  | rolled pool => pool.text
  | changed op arg change =>
    s!"{op.symbol}{arg.text} -> {change.breakdown.text} = {change.pool.total}"
  | t@(counted c arg pool _) =>
    s!"{c.symbol}{arg.text} -> {(c.count pool arg).breakdown.text} = {t.value.text}"
  | read kind pool => s!"{kind.name} -> {kind.breakdown pool} = {(kind.tally pool).text}"

end Throw

/-- What an operation can be applied to. -/
inductive Operand where
  | argument (a : Argument)
  | number (v : Value) (written : String)
  | thrown (t : Throw)

namespace Operand

/-- The operand that a computed value becomes. -/
def ofValue (v : Value) : Operand := number v v.text

def text : Operand → String
  | argument a => a.text
  | number _ written => written
  | thrown t => t.text

def toValue : Operand → Except Error Value
  | argument a => do Value.ofFloat (Float.ofNat (← a.scalar))
  | number v _ => .ok v
  | thrown t => .ok t.value

/-- The value as a double. -/
def toDecimal (o : Operand) : Except Error Float := do (← o.toValue).toDecimal

/-- An argument as it stands, and any other operand by its value. -/
def toArgument : Operand → Except Error Argument
  | argument a => .ok a
  | o => do Argument.ofScalar (.real (← o.toDecimal))

def toPool : Operand → Except Error Pool
  | thrown t => .ok t.pool
  | o => .error (.notPool o.text)

/-- The pool of dice that were neither counted nor read. -/
def rawPool? : Operand → Option Pool
  | thrown t => if t.isRaw then some t.pool else none
  | _ => none

/-- The successes that were counted so far; what was never counted has none. -/
def successes : Operand → Int
  | thrown t => t.successes
  | _ => 0

end Operand

/-- An entry of the log of a roll. -/
inductive Operation where
  | negated (x result : Value)
  | combined (op : Operator) (x y result : Value)
  | merged (pool : Pool)
  | applied (f : MathFunction) (x result : Value)
  | thrown (t : Throw)

namespace Operation

def text : Operation → String
  | negated x result => s!"-({x.text}) = {result.text}"
  | combined op x y result => s!"{x.text} {op.symbol} {y.text} = {result.text}"
  | merged pool => s!"& {pool.text}"
  | applied f x result => s!"{f.name}({x.text}) = {result.text}"
  | thrown t => t.text

/-- What the operation leaves for further ones. -/
def operand : Operation → Operand
  | negated _ result | combined _ _ _ result | applied _ _ result => .ofValue result
  | merged pool => .thrown (.rolled pool)
  | thrown t => .thrown t

end Operation

end Tabletop
