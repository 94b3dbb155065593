import Tabletop.Text.Blank
import Tabletop.Text.CodeBlock

/-!
# Escaping markup

A backslash goes before everything in a text that a chat client would take for markup. Addresses
are left alone, so that they still work. At each place the alternatives are tried in order, and the
first that matches takes its characters.
-/

namespace Tabletop.Text

/-- A match of one of the alternatives, by how many characters it takes. -/
inductive Markup where
  | address (length : Nat)
  | mark (length : Nat)

namespace Markup

def length : Markup → Nat
  | address n => n
  | mark n => n

/-- An address in angle brackets: no blank or further bracket, and a colon with a slash after it. -/
def bracketedAddress? : List Char → Option Markup
  | '<' :: cs =>
    let scheme := cs.takeWhile fun c => c ≠ ':' && c ≠ ' ' && c ≠ '>'
    match cs.drop scheme.length with
    | ':' :: '/' :: rest =>
      let path := rest.takeWhile fun c => c ≠ ' ' && c ≠ '>'
      if scheme.isEmpty || path.isEmpty || (rest.drop path.length).head? ≠ some '>' then none
      else some (address (scheme.length + path.length + 4))
    | _ => none
  | _ => none

/-- An address cannot end with one of these. -/
def isTrailing (c : Char) : Bool := ['<', '.', ',', ':', ';', '"', '\'', ']'].contains c

/-- An address that begins with a given scheme and runs to the next blank or bracket, less what it
cannot end with. -/
def schemeAddress? (scheme : String) (s : List Char) : Option Markup :=
  let start := scheme.toList
  if start.isPrefixOf s then
    let run := (s.drop start.length).takeWhile fun c => !isBlank c && c ≠ '<'
    let path := (run.reverse.dropWhile isTrailing).length
    if 2 ≤ path then some (address (start.length + path)) else none
  else none

/-- A quotation mark of one or three brackets with a blank after it. -/
def quote? : List Char → Option Markup
  | '>' :: '>' :: '>' :: c :: _ => if isBlank c then some (mark 4) else none
  | '>' :: c :: _ => if isBlank c then some (mark 2) else none
  | _ => none

/-- The last place where a `]` is followed by a `(`, by more than one character, and by a `)`, as
how many characters the whole takes from the beginning on. -/
def linkEnd? : List Char → Option Nat
  | [] => none
  | c :: cs =>
    match linkEnd? cs with
    | some n => some (n + 1)
    | none =>
      match c, cs with
      | ']', '(' :: target =>
        let inside := (target.reverse.dropWhile (· ≠ ')')).length
        if 2 ≤ inside then some (inside + 2) else none
      | _, _ => none

/-- A link: a text in brackets and a target in parentheses, both as long as the line allows. -/
def link? : List Char → Option Markup
  | '[' :: c :: cs =>
    if c = '\n' then none
    else (linkEnd? (cs.takeWhile (· ≠ '\n'))).map fun n => mark (n + 2)
  | _ => none

/-- One to three number signs. -/
def heading? (s : List Char) : Option Markup :=
  let n := (s.take 3).takeWhile (· = '#') |>.length
  if n = 0 then none else some (mark n)

/-- A dash with nothing but blanks before it. -/
def item? (s : List Char) : Option Markup :=
  let n := (s.takeWhile isBlank).length
  if (s.drop n).head? = some '-' then some (mark (n + 1)) else none

/-- A character that is markup wherever it stands. -/
def sign? : List Char → Option Markup
  | c :: _ => if ['_', '\\', '~', '|', '*', backtick].contains c then some (mark 1) else none
  | [] => none

/-- The markup that a text begins with; some markup must begin a line. -/
def find? (lineStart : Bool) (s : List Char) : Option Markup :=
  let atStart (m : Option Markup) : Option Markup := if lineStart then m else none
  [bracketedAddress? s, schemeAddress? "https://" s, schemeAddress? "http://" s,
    schemeAddress? "steam://" s, sign? s, atStart (quote? s), link? s, atStart (heading? s),
    atStart (item? s)].findSome? id

end Markup

/-- The text from a place on, escaped, after so many characters that belong to an earlier match. -/
def escapeFrom : Nat → Bool → List Char → List Char
  | _, _, [] => []
  | skip + 1, _, c :: cs => c :: escapeFrom skip (c = '\n') cs
  | 0, lineStart, c :: cs =>
    match Markup.find? lineStart (c :: cs) with
    | some (.address n) => c :: escapeFrom (n - 1) (c = '\n') cs
    | some (.mark n) => '\\' :: c :: escapeFrom (n - 1) (c = '\n') cs
    | none => c :: escapeFrom 0 (c = '\n') cs

/-- The text with a backslash before each markup. -/
def escape (s : String) : String := String.ofList (escapeFrom 0 true s.toList)

end Tabletop.Text
