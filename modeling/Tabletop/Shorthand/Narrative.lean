import Tabletop.Genesys.Kind
import Tabletop.Shorthand.Parts

/-!
# Narrative dice

A letter and a count stand for so many dice of a kind. Every kind is rolled as a pool of its own,
and the tallies are merged. Text that is no letter with a count is passed over.
-/

namespace Tabletop.Shorthand.Narrative

open Text

def isLetter (c : Char) : Bool := 'a' ≤ c && c ≤ 'z'

/-- The digits of the count that a text begins with, after blanks, and how long both are. -/
def count (s : List Char) : List Char × Nat :=
  let blanks := s.takeWhile isBlank
  let digits := (s.drop blanks.length).takeWhile isDigit
  (digits, blanks.length + digits.length)

/-- The letters with their counts, after so many characters that belong to an earlier pair. -/
def scan : Nat → List Char → List (Char × List Char)
  | _, [] => []
  | skip + 1, _ :: cs => scan skip cs
  | 0, c :: cs =>
    let (digits, length) := count cs
    if isLetter c && !digits.isEmpty then (c, digits) :: scan length cs else scan 0 cs

/-- One pool of one kind. -/
def term (letter : Char) (digits : List Char) : Except Error String :=
  match Genesys.Kind.ofLetter? letter with
  | none => unknown [letter]
  | some kind => do pure s!"{← Number.natural digits}d{kind.sides}{kind.symbol}"

def toNotation (command : String) : Except Error String := do
  let terms ← (scan 0 (lower command.toList)).mapM fun (letter, digits) => term letter digits
  if terms.isEmpty then unknown (trim command.toList)
  else pure (String.intercalate "&" terms)

end Tabletop.Shorthand.Narrative
