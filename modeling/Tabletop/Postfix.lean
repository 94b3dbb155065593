import Tabletop.Token

/-!
# Postfix order

In postfix order every operator comes right after its operands, and brackets are not needed.
Operators wait on a stack until one that binds less tightly comes, or the bracket around them
closes.
-/

namespace Tabletop

namespace Token

/-- A waiting token goes out before an incoming operator. -/
def goesBefore (op : Operator) (waiting : Token) : Bool :=
  match waiting.precedence? with
  | none => false
  | some p => if op.groupsRight then op.precedence < p else op.precedence ≤ p

def isOpening : Token → Bool
  | opening _ => true
  | _ => false

def isFunction : Token → Bool
  | function _ => true
  | _ => false

end Token

namespace Postfix

/-- What goes out once no more tokens come: every waiting token, if no bracket is open. -/
def drain : List Token → Except Error (List Token)
  | [] => .ok []
  | .opening b :: _ => .error (.neverClosed b.opener)
  | t :: ts => do pure (t :: (← drain ts))

/-- The tokens below the closed bracket: what goes out with it, and what waits on. A function goes
out with its argument. -/
def afterClosing : List Token → List Token × List Token
  | .function f :: waiting => ([.function f], waiting)
  | waiting => ([], waiting)

/-- Closes a bracket: what goes out, and what waits on. -/
def close (b : Bracket) (waiting : List Token) : Except Error (List Token × List Token) :=
  let inside := waiting.takeWhile fun t => !t.isOpening
  match waiting.drop inside.length with
  | .opening o :: below =>
    if o = b then
      let (out, below) := afterClosing below
      .ok (inside ++ out, below)
    else .error (.wrongCloser o.opener b.closer)
  | _ => .error (.noOpener b.closer)

/-- One token comes: what goes out, and what waits. -/
def step (t : Token) (waiting : List Token) : Except Error (List Token × List Token) :=
  match t with
  | .argument _ | .number .. => .ok ([t], waiting)
  | .function _ | .negate | .opening _ => .ok ([], t :: waiting)
  | .dice | .pool _ | .conversion _ | .genesys _ =>
    let out := waiting.takeWhile Token.isChaining
    .ok (out, t :: waiting.drop out.length)
  | .binary op =>
    let out := waiting.takeWhile (Token.goesBefore op)
    .ok (out, t :: waiting.drop out.length)
  | .closing b => close b waiting
  | .blank => .error (.unexpectedToken t.text)

/-- What goes out while tokens come, and after them. -/
def order : List Token → List Token → Except Error (List Token)
  | [], waiting => drain waiting
  | t :: ts, waiting => do
    let (out, waiting) ← step t waiting
    pure (out ++ (← order ts waiting))

end Postfix

/-- The tokens in postfix order, without brackets. -/
def toPostfix (tokens : List Token) : Except Error (List Token) := Postfix.order tokens []

end Tabletop
