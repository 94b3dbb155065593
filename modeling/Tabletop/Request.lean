import Tabletop.Error
import Tabletop.Number.Literal
import Tabletop.Text.LowerCase
import Tabletop.Text.Split

/-!
# Roll requests

A request may say how often to roll, before a `#`, and what to call the roll, after a `:`. The
command between them is read in lower case.
-/

namespace Tabletop

open Text

structure Request where
  times : Nat
  command : String
  comment : String
deriving DecidableEq

namespace Request

/-- The digits before a leading `#`, and what comes after it. -/
def repeat? (s : List Char) : Option (List Char × List Char) :=
  let s := s.dropWhile isBlank
  let digits := s.takeWhile isDigit
  match (s.drop digits.length).dropWhile isBlank with
  | '#' :: rest => if digits.isEmpty then none else some (digits, rest)
  | _ => none

/-- How often to roll, and the command. -/
def splitRepeat (s : List Char) : Except Error (Nat × List Char) :=
  match repeat? s with
  | none => .ok (1, s)
  | some (digits, rest) => do
    let times ← Number.natural digits
    if 1 ≤ times ∧ times ≤ trayCapacity then pure (times, rest) else throw (.badRepeat times)

/-- A command as it is stored: without blanks around it, in lower case. -/
def normal (s : List Char) : List Char := lower (trim s)

def parse (text : String) : Except Error Request := do
  let (front, comment) := cut ':' text.toList
  let (times, command) ← splitRepeat front
  let command := normal command
  if command.isEmpty then throw .emptyRequest
  pure ⟨times, String.ofList command, String.ofList (trim comment)⟩

end Request

end Tabletop
