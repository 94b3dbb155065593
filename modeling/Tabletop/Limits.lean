/-!
# Limits

How large the things may grow that a player can ask for.
-/

namespace Tabletop

/-- The largest count, size, face or target that dice notation may name. -/
def maxArgument : Nat := 255

/-- The most dice one pool may hold. -/
def maxPoolSize : Nat := 1000

/-- How often dice explode, or one die is rolled again, if the caller sets no cap. -/
def maxGenerations : Nat := 100

/-- How many rolls a tray remembers, which is also how often one request may repeat. -/
def trayCapacity : Nat := 10

/-- The most digits a whole number may be written with. -/
def maxNumeralDigits : Nat := 4300

/-- The most characters of a message that are sent. -/
def maxMessageLength : Nat := 1900

end Tabletop
