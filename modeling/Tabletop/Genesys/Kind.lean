import Tabletop.Genesys.Tally
import Tabletop.Pool

/-!
# Kinds of narrative dice

Each kind has a size and shows some symbols on each face. A pool of any dice can be read as dice of
one kind; a result that the kind has no face for is blank.
-/

namespace Tabletop.Genesys

inductive Kind where
  | boost
  | setback
  | ability
  | difficulty
  | proficiency
  | challenge
deriving DecidableEq

namespace Kind

def all : List Kind := [boost, setback, ability, difficulty, proficiency, challenge]

def letter : Kind → Char
  | boost => 'b'
  | setback => 's'
  | ability => 'a'
  | difficulty => 'd'
  | proficiency => 'p'
  | challenge => 'c'

/-- How the kind is written as an operator. -/
def symbol (k : Kind) : String := String.ofList ['g', k.letter]

def name : Kind → String
  | boost => "boost"
  | setback => "setback"
  | ability => "ability"
  | difficulty => "difficulty"
  | proficiency => "proficiency"
  | challenge => "challenge"

def sides : Kind → Nat
  | boost | setback => 6
  | ability | difficulty => 8
  | proficiency | challenge => 12

def ofLetter? (c : Char) : Option Kind := all.find? fun k => k.letter = c

/-- The kind that a letter stands for. -/
def ofLetter (letter : String) : Except Error Kind :=
  match letter.toList with
  | [c] =>
    match ofLetter? c with
    | some k => .ok k
    | none => .error (.unknownSymbol ("g" ++ letter))
  | _ => .error (.unknownSymbol ("g" ++ letter))

/-- The symbols on the faces from 1 up. -/
def faces : Kind → List (List Symbol)
  | boost =>
    [[.blank], [.blank], [.success], [.success, .advantage], [.advantage, .advantage], [.advantage]]
  | setback => [[.blank], [.blank], [.failure], [.failure], [.threat], [.threat]]
  | ability =>
    [[.blank], [.success], [.success], [.success, .success], [.advantage], [.advantage],
     [.success, .advantage], [.advantage, .advantage]]
  | difficulty =>
    [[.blank], [.failure], [.failure, .failure], [.threat], [.threat], [.threat],
     [.threat, .threat], [.failure, .threat]]
  | proficiency =>
    [[.blank], [.success], [.success], [.success, .success], [.success, .success], [.advantage],
     [.success, .advantage], [.success, .advantage], [.success, .advantage],
     [.advantage, .advantage], [.advantage, .advantage], [.triumph]]
  | challenge =>
    [[.blank], [.failure], [.failure], [.failure, .failure], [.failure, .failure], [.threat],
     [.threat], [.failure, .threat], [.failure, .threat], [.threat, .threat], [.threat, .threat],
     [.despair]]

/-- The symbols that a result stands for. -/
def symbols (k : Kind) (result : Int) : List Symbol :=
  if result < 1 then [.blank] else k.faces.getD (result.toNat - 1) [.blank]

/-- The symbols of all dice of a pool, in order. -/
def poolSymbols (k : Kind) (p : Pool) : List Symbol := p.results.flatMap k.symbols

/-- The net symbols of a pool. -/
def tally (k : Kind) (p : Pool) : Tally := Tally.ofSymbols (k.poolSymbols p)

/-- How each die of a pool reads, for breakdowns. -/
def breakdown (k : Kind) (p : Pool) : String :=
  let entry (result : Int) : String :=
    s!"{result}:" ++ String.intercalate "+" ((k.symbols result).map Symbol.name)
  "[" ++ String.intercalate ", " (p.results.map entry) ++ "]"

end Kind

end Tabletop.Genesys
