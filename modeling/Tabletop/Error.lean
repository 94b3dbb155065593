import Tabletop.Limits
import Tabletop.Number.Written

/-!
# What can go wrong

One constructor for each cause. `Error.message` words them, and `Error.isForPlayers` tells the
mistakes of a player from the failures that lie outside dice notation.
-/

namespace Tabletop

/-- Why two numbers have no result. -/
inductive ArithmeticFault where
  | divisionByZero
  | remainderByZero
  | domain
  | range
deriving DecidableEq

def ArithmeticFault.message : ArithmeticFault → String
  | .divisionByZero => "float division by zero"
  | .remainderByZero => "float modulo"
  | .domain => "math domain error"
  | .range => "math range error"

inductive Error where
  /-- A stretch of text that no token begins with, or that the calculator does not take. -/
  | unknownSymbol (text : String)
  | emptyList
  /-- Two lists of different lengths stand for counts and sizes. -/
  | unpaired (counts sizes : String)
  | noOpener (closer : String)
  | wrongCloser (opener closer : String)
  | neverClosed (opener : String)
  | unexpectedToken (token : String)
  | unexpectedInPostfix (token : String)
  | missingOperand (operator : String)
  | missingInput (function : String)
  /-- How many operands are left when one should be. -/
  | leftover (count : Nat)
  | notNumber (what : String)
  | notPool (what : String)
  | notRolled (what : String)
  /-- The first characters of a numeral that lies beyond all doubles. -/
  | numeralTooBig (start : String)
  | notReal
  | uncomputable (x : Float) (operator : String) (y : Float) (fault : ArithmeticFault)
  | outsideDomain (function : String) (x : Float)
  /-- What was offered where a whole number up to `maxArgument` belongs. -/
  | notArgument (offered : String)
  | everyFaceTriggers (sides : Nat) (what : String)
  | neverSettled (what : String) (cap : Int)
  | poolTooLarge (size : Nat)
  | unknownShorthand (text : String)
  | notOwner
  | noRolls
  | badRepeat (count : Nat)
  | emptyRequest
  | emptyFormula
  | nothingToCalculate
  | cannotShow (sides face : Int)
  | noParts
  /-- How many faces there were. -/
  | outOfFaces (count : Nat)
  | tooManyDigits (count : Nat)
  | tooLargeForDouble
  | badCapacity (capacity : Int)
  | tookTooLong

namespace Error

/-- The error is about what the player asked for, and not about how the roll was carried out. -/
def isForPlayers : Error → Bool
  | cannotShow .. | noParts | outOfFaces _ | tooManyDigits _ | tooLargeForDouble
  | badCapacity _ | tookTooLong => false
  | _ => true

def message : Error → String
  | unknownSymbol text => s!"I don't know what <{text}> means."
  | emptyList => "An argument list can't be empty."
  | unpaired counts sizes => s!"Can't pair dice counts {counts} with sizes {sizes}."
  | noOpener closer => s!"Found <{closer}> without a matching opener."
  | wrongCloser opener closer => s!"<{opener}> was closed by <{closer}>."
  | neverClosed opener => s!"<{opener}> was never closed."
  | unexpectedToken token => s!"Unexpected token <{token}>."
  | unexpectedInPostfix token => s!"Unexpected token <{token}> in postfix input."
  | missingOperand operator => s!"Operator <{operator}> is missing an operand."
  | missingInput function => s!"Function <{function}> is missing its argument."
  | leftover count =>
    s!"Expected a single result but {count} values were left over. Missing operators?"
  | notNumber what => s!"Expected a number, got {what}."
  | notPool what => s!"Expected a dice pool, got {what}."
  | notRolled what => s!"Tried to use {what} before it was rolled."
  | numeralTooBig start => s!"{start}... is too big a number."
  | notReal => "That math doesn't come out to a real number."
  | uncomputable x operator y fault =>
    s!"Can't compute {Number.displayed x} {operator} {Number.displayed y}: {fault.message}"
  | outsideDomain function x => s!"Can't compute {function}({Number.displayed x})."
  | notArgument offered =>
    s!"Dice arguments must be whole numbers from 0 to {maxArgument}: {offered}"
  | everyFaceTriggers sides what =>
    s!"Every face of a d{sides} triggers this {what}, so it would never stop."
  | neverSettled what cap => s!"Gave up on this {what} after {cap} generations."
  | poolTooLarge size =>
    s!"That would put {size} dice in one pool. The most I can hold is {maxPoolSize}."
  | unknownShorthand text => s!"Unrecognized shorthand: <{text}>"
  | notOwner => "Only the person who made a roll can revise it."
  | noRolls => "There are no rolls in the tray yet."
  | badRepeat count => s!"Can repeat a roll 1 to {trayCapacity} times, not {count}."
  | emptyRequest => "What do you want me to roll?"
  | emptyFormula => "Roll formula is empty."
  | nothingToCalculate => "There's nothing to calculate."
  | cannotShow sides face => s!"A d{sides} can't show {face}."
  | noParts => "A compound die needs at least one rolled face."
  | outOfFaces count => s!"Ran out of faces after {count} rolls."
  | tooManyDigits count =>
    s!"Exceeds the limit ({maxNumeralDigits} digits) for integer string conversion: " ++
      s!"value has {count} digits; use sys.set_int_max_str_digits() to increase the limit"
  | tooLargeForDouble => "int too large to convert to float"
  | badCapacity capacity => s!"Tray capacity must be positive, not {capacity}."
  | tookTooLong => "That took longer than 10.0 seconds, so I gave up."

end Error

end Tabletop
