import Tabletop.Error
import Tabletop.Number.Literal
import Tabletop.Text.LowerCase
import Tabletop.Text.Split

/-!
# The parts of a shorthand

A shorthand names how many dice to roll, then flags that change how they count, and after a `;` a
bonus. Flags are single characters, letters with a number, or notation in braces.
-/

namespace Tabletop.Shorthand

open Text

structure Parts where
  dice : List Char
  flags : List Char
  bonus : List Char
deriving DecidableEq

/-- A character of the expression that says how many dice to roll. -/
def isDiceCharacter (c : Char) : Bool :=
  isDigit c || isBlank c || ['+', '-', '*', '/', '(', ')'].contains c

/-- Refuses a stretch of text that the system has no meaning for. -/
def unknown {α : Type} (s : List Char) : Except Error α :=
  .error (.unknownShorthand (String.ofList s))

/-- Splits a command; all flags must stand on the line where the dice end. -/
def Parts.ofCommand (command : List Char) : Except Error Parts :=
  let (main, bonus) := cut ';' command
  let main := trim main
  let dice := main.takeWhile isDiceCharacter
  let flags := main.drop dice.length
  if dice.isEmpty || flags.contains '\n' then
    unknown (if main.isEmpty then command else main)
  else .ok ⟨trim dice, trim flags, trim bonus⟩

inductive Flag where
  | numbered (letter : Char) (digits : List Char)
  /-- Notation in braces, without them. -/
  | braced (inside : List Char)
  | plain (c : Char)

namespace Flag

def length : Flag → Nat
  | numbered _ digits => digits.length + 1
  | braced inside => inside.length + 2
  | plain _ => 1

/-- The flag that a text begins with, if some letters may have numbers. -/
def first (letters : List Char) (c : Char) (cs : List Char) : Flag :=
  let digits := cs.takeWhile isDigit
  let inside := cs.takeWhile (· ≠ '}')
  if letters.contains c && !digits.isEmpty then numbered c digits
  else if c = '{' && inside.length < cs.length then braced inside
  else plain c

/-- The flags of a text, after so many characters that belong to an earlier one. -/
def scan (letters : List Char) : Nat → List Char → List Flag
  | _, [] => []
  | skip + 1, _ :: cs => scan letters skip cs
  | 0, c :: cs =>
    if isBlank c then scan letters 0 cs
    else
      let f := first letters c cs
      f :: scan letters (f.length - 1) cs

/-- The error for a flag that a system does not know. -/
def refuse {α : Type} : Flag → Except Error α
  | numbered letter digits => unknown (letter :: digits)
  | braced _ => unknown ['{']
  | plain c => unknown [c]

/-- The number of a flag, if it lies between two bounds. -/
def number (low high : Nat) (letter : Char) (digits : List Char) : Except Error Nat := do
  let n ← Number.natural digits
  if low ≤ n ∧ n ≤ high then pure n else refuse (numbered letter digits)

end Flag

/-- The faces from `low` to `high` as an argument. -/
def faceRange (low high : Nat) : String :=
  if low = high then toString low
  else
    let faces := (List.range (high + 1 - low)).map (· + low)
    "[" ++ String.intercalate ", " (faces.map toString) ++ "]"

/-- The command with the bonus added on, if there is one. -/
def withBonus (command : String) (bonus : List Char) : String :=
  if bonus.isEmpty then command else command ++ "+(" ++ String.ofList bonus ++ ")"

/-- The number of ten-sided dice to roll. -/
def tens (dice : List Char) : String := "(" ++ String.ofList dice ++ ")d10"

end Tabletop.Shorthand
