import Tabletop.Number.Literal
import Tabletop.Text.Split

/-!
# Arguments of dice operators

An argument is one number or a bracketed list of numbers, each a whole number from 0 to
`maxArgument`. A `Scalar` is whatever may be offered where such a number belongs.
-/

namespace Tabletop

open Text

inductive Scalar where
  | integer (n : Int)
  | real (x : Float)
  | truth (b : Bool)
  | text (s : String)
  | nothing

namespace Scalar

/-- How the scalar is written in messages. -/
def written : Scalar → String
  | integer n => toString n
  | real x => Number.written x
  | truth b => if b then "True" else "False"
  | text s => s
  | nothing => "None"

/-- How the scalar is shown to players: a whole double shows its digits alone. -/
def displayed : Scalar → String
  | real x => Number.displayed x
  | s => s.written

/-- The whole number that the scalar is, if it is one. -/
def whole? : Scalar → Option Int
  | integer n => some n
  | real x => Number.whole? x
  | _ => none

/-- The scalar as a whole number from 0 to `maxArgument`. -/
def toArgument (description : String) (s : Scalar) : Except Error Nat :=
  let offered :=
    match s with
    | truth _ => s.written
    | _ => trimmed (description ++ " " ++ s.written)
  match s.whole? with
  | some n => if 0 ≤ n ∧ n ≤ maxArgument then .ok n.toNat else .error (.notArgument offered)
  | none => .error (.notArgument offered)

/-- Reads a whole number, or else any number; the text is given without blanks around it. -/
def ofText (s : List Char) : Except Error Scalar :=
  match Number.integer? s with
  | some n => .ok (integer n)
  | none =>
    match Number.real? s with
    | some x => .ok (real x)
    | none => .error (.notArgument (String.ofList s))

end Scalar

inductive Argument where
  | single (n : Nat)
  | list (ns : List Nat)
deriving DecidableEq

namespace Argument

def values : Argument → List Nat
  | single n => [n]
  | list ns => ns

def isList : Argument → Bool
  | single _ => false
  | list _ => true

/-- The faces that the argument names. -/
def faces (a : Argument) : List Int := a.values.map Int.ofNat

def text : Argument → String
  | single n => toString n
  | list ns => "[" ++ String.intercalate ", " (ns.map toString) ++ "]"

/-- The number, where a list will not do. -/
def scalar : Argument → Except Error Nat
  | single n => .ok n
  | a@(list _) => .error (.notNumber s!"the list {a.text}")

def ofScalar (s : Scalar) : Except Error Argument := do
  pure (single (← s.toArgument "argument"))

def ofScalars (ss : List Scalar) : Except Error Argument := do
  pure (list (← ss.mapM (Scalar.toArgument "argument")))

/-- Reads the parts of a list, each when it is its turn. -/
def ofParts (parts : List (List Char)) : Except Error Argument := do
  pure (list (← parts.mapM fun part => do (← Scalar.ofText part).toArgument "argument"))

/-- What stands between the brackets of a text that is bracketed. -/
def bracketed? (s : List Char) : Option (List Char) :=
  match s with
  | '[' :: inner => if inner.getLast? = some ']' then some inner.dropLast else none
  | _ => none

/-- Reads `3` or `[9, 10]`; empty parts of a list are passed over. -/
def parse (s : List Char) : Except Error Argument :=
  let s := trim s
  match bracketed? s with
  | some inner =>
    let parts := ((splitAt ',' inner).map trim).filter fun part => !part.isEmpty
    if parts.isEmpty then .error .emptyList else ofParts parts
  | none => do ofScalar (← Scalar.ofText s)

end Argument

end Tabletop
