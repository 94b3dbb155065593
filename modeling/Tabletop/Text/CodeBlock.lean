/-!
# Code blocks

A text between backticks is shown as it stands. Backticks inside it are kept from closing the block
by an invisible space beside each.
-/

namespace Tabletop.Text

def backtick : Char := Char.ofNat 0x60

def invisibleSpace : Char := Char.ofNat 0x200B

/-- The text with an invisible space after each backtick. -/
def spaced (s : List Char) : List Char :=
  s.flatMap fun c => if c = backtick then [backtick, invisibleSpace] else [c]

/-- What stands between the backticks of a block: never nothing, and no backtick first. -/
def blockInside (s : List Char) : List Char :=
  let inside := spaced s
  if inside.head?.all (· = backtick) then invisibleSpace :: inside else inside

/-- The text between as many backticks on either side. -/
def fenced (n : Nat) (s : String) : String :=
  let fence := List.replicate n backtick
  String.ofList (fence ++ blockInside s.toList ++ fence)

/-- A code block within a line. -/
def code (s : String) : String := fenced 1 s

/-- A code block on lines of its own. -/
def codeBlock (s : String) : String := fenced 3 s

end Tabletop.Text
