/-!
# Narrative symbols

Success and failure cancel each other, and so do advantage and threat. Triumph and despair never
cancel, and blanks count for nothing.
-/

namespace Tabletop.Genesys

inductive Symbol where
  | success
  | advantage
  | triumph
  | failure
  | threat
  | despair
  | blank
deriving DecidableEq

namespace Symbol

/-- All symbols, in the order in which they are displayed. -/
def all : List Symbol := [success, advantage, triumph, failure, threat, despair, blank]

def name : Symbol → String
  | success => "success"
  | advantage => "advantage"
  | triumph => "triumph"
  | failure => "failure"
  | threat => "threat"
  | despair => "despair"
  | blank => "blank"

def ofName? (name : String) : Option Symbol := all.find? fun s => s.name = name

def opposite? : Symbol → Option Symbol
  | success => some failure
  | failure => some success
  | advantage => some threat
  | threat => some advantage
  | _ => none

end Symbol

/-- The list without the last occurrence of a symbol. -/
def eraseLast (s : Symbol) (kept : List Symbol) : List Symbol := (kept.reverse.erase s).reverse

/-- What is kept once one more symbol comes: it cancels the latest opposite symbol, if there is
one. -/
def settle (kept : List Symbol) (s : Symbol) : List Symbol :=
  match s with
  | .blank => kept
  | s =>
    match s.opposite? with
    | some o => if kept.contains o then eraseLast o kept else kept ++ [s]
    | none => kept ++ [s]

/-- Cancels opposite symbols one for one, from the first symbol to the last. -/
def cancel (symbols : List Symbol) : List Symbol := symbols.foldl settle []

end Tabletop.Genesys
