/-!
# Blank characters

The characters that separate words, and the two ways of getting rid of them: `trim` cuts them off
both ends of a text, `squeeze` removes every one.
-/

namespace Tabletop.Text

/-- The white space characters of Unicode, and the information separators U+001C to U+001F. -/
def blanks : List Nat :=
  [0x20, 0x9, 0xA, 0xB, 0xC, 0xD, 0x1C, 0x1D, 0x1E, 0x1F, 0x85, 0xA0, 0x1680, 0x2000, 0x2001,
   0x2002, 0x2003, 0x2004, 0x2005, 0x2006, 0x2007, 0x2008, 0x2009, 0x200A, 0x2028, 0x2029,
   0x202F, 0x205F, 0x3000]

def isBlank (c : Char) : Bool := blanks.contains c.toNat

/-- The text without its blanks. -/
def squeeze (s : List Char) : List Char := s.filter fun c => !isBlank c

/-- The text from its first to its last character that is no blank. -/
def trim (s : List Char) : List Char := ((s.dropWhile isBlank).reverse.dropWhile isBlank).reverse

/-- `trim` on strings. -/
def trimmed (s : String) : String := String.ofList (trim s.toList)

theorem mem_squeeze {c : Char} {s : List Char} : c ∈ squeeze s ↔ c ∈ s ∧ isBlank c = false := by
  simp [squeeze]

theorem squeeze_append (s t : List Char) : squeeze (s ++ t) = squeeze s ++ squeeze t := by
  simp [squeeze]

@[simp] theorem squeeze_squeeze (s : List Char) : squeeze (squeeze s) = squeeze s := by
  simp [squeeze]

end Tabletop.Text
