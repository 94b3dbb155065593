import Tabletop.Lexeme.Tokens
import Tabletop.Operation
import Tabletop.Postfix

/-!
# Evaluation

A stack machine runs over tokens in postfix order. Operands are pushed; an operation takes its
operands from the stack, rolls what dice it needs, and is logged and pushed.
-/

namespace Tabletop

/-! ### Single operations -/

namespace Operand

/-- The opposite of a value. -/
def negated (o : Operand) : Except Error Operation := do
  let x ← o.toValue
  pure (.negated x (← x.negate))

/-- Two operands joined as values by an action other than arithmetic. -/
def joined (op : Operator) (f : Value → Value → Except Error Value) (l r : Operand) :
    Except Error Operation := do
  let x ← l.toValue
  let y ← r.toValue
  pure (.combined op x y (← f x y))

/-- Arithmetic on the operands as doubles. -/
def computed (op : Operator) (a : Arithmetic) (l r : Operand) : Except Error Operation := do
  let v ← l.toValue
  let x ← v.toDecimal
  let w ← r.toValue
  let y ← w.toDecimal
  match a.apply x y with
  | .ok z => pure (.combined op v w (← Value.ofFloat z))
  | .error fault => throw (.uncomputable x op.symbol y fault)

/-- A binary operator applied. Pools that were neither counted nor read can be merged; merging
anything else adds values. -/
def combined (op : Operator) (l r : Operand) : Except Error Operation :=
  match op.action with
  | .merge =>
    match l.rawPool?, r.rawPool? with
    | some p, some q => do pure (.merged (← p.merge q))
    | _, _ => joined op Value.add l r
  | .add => joined op Value.add l r
  | .subtract => joined op Value.subtract l r
  | .arithmetic a => computed op a l r

/-- A function applied to a value; a result that is not finite lies outside the domain. -/
def applied (f : MathFunction) (o : Operand) : Except Error Operation := do
  let v ← o.toValue
  let x ← v.toDecimal
  let y := f.apply x
  if y.isFinite then pure (.applied f v (.decimal y)) else throw (.outsideDomain f.name x)

/-- So many dice of such a size, rolled. -/
def rolled (count sides : Operand) : Rolling Operation := do
  let count ← count.toArgument
  let sides ← sides.toArgument
  pure (.thrown (.rolled (← Pool.roll count sides)))

/-- A pool operator applied to a pool. -/
def changed (op : PoolOperator) (cap : Int) (l r : Operand) : Rolling Operation := do
  let pool ← l.toPool
  let arg ← r.toArgument
  pure (.thrown (.changed op arg (← op.mode.apply pool arg cap)))

/-- A pool counted, onto what was counted of it before. -/
def counted (c : Conversion) (l r : Operand) : Except Error Operation := do
  let arg ← r.toArgument
  pure (.thrown (.counted c arg (← l.toPool) l.successes))

/-- A pool read as narrative dice. -/
def read (k : Genesys.Kind) (o : Operand) : Except Error Operation := do
  pure (.thrown (.read k (← o.toPool)))

end Operand

/-! ### The stack machine -/

/-- The operands, the latest first, and the log of what ran. -/
structure Machine where
  stack : List Operand := []
  log : List Operation := []

namespace Machine

def push (m : Machine) (o : Operand) : Machine := { m with stack := o :: m.stack }

/-- Runs an operation on the latest operand. -/
def unary (m : Machine) (missing : Error) (f : Operand → Rolling Operation) : Rolling Machine :=
  match m.stack with
  | o :: stack => do
    let op ← f o
    pure ⟨op.operand :: stack, m.log ++ [op]⟩
  | [] => throw missing

/-- Runs an operation on the two latest operands, the last of them on the right. -/
def binary (m : Machine) (missing : Error) (f : Operand → Operand → Rolling Operation) :
    Rolling Machine :=
  match m.stack with
  | r :: l :: stack => do
    let op ← f l r
    pure ⟨op.operand :: stack, m.log ++ [op]⟩
  | _ => throw missing

/-- Runs one token. Dice may explode or be rerolled `cap` times. -/
def step (cap : Int) (m : Machine) (t : Token) : Rolling Machine :=
  let missing := Error.missingOperand t.text
  match t with
  | .argument a => pure (m.push (.argument a))
  | .number x written => pure (m.push (.number (.decimal x) written))
  | .negate => m.unary missing fun o => liftM o.negated
  | .binary op => m.binary missing fun l r => liftM (l.combined op r)
  | .function f => m.unary (.missingInput f.name) fun o => liftM (o.applied f)
  | .dice => m.binary missing Operand.rolled
  | .pool op => m.binary missing (Operand.changed op cap)
  | .conversion c => m.binary missing fun l r => liftM (l.counted c r)
  | .genesys k => m.unary missing fun o => liftM (o.read k)
  | .opening _ | .closing _ | .blank => throw (.unexpectedInPostfix t.text)

end Machine

/-- Runs tokens in postfix order: the log, and the operand that is left. -/
def evaluate (tokens : List Token) (cap : Int) : Rolling (List Operation × Operand) := do
  let m ← tokens.foldlM (Machine.step cap) {}
  match m.stack with
  | [o] => pure (m.log, o)
  | stack => throw (.leftover stack.length)

/-- Runs a formula of dice notation. -/
def evaluateText (formula : String) (cap : Int) : Rolling (List Operation × Operand) := do
  let tokens ← tokenize .dice formula
  evaluate (← toPostfix tokens) cap

end Tabletop
