import Tabletop.Token

/-!
# Lexemes

A text without blanks falls into lexemes: bracketed lists, numerals, the words and signs of the
notation, and characters that stand for nothing. At each place the first alternative that fits is
taken, so that every character belongs to one lexeme.
-/

namespace Tabletop

open Text

inductive Lexeme where
  /-- A list with its brackets. -/
  | list (text : List Char)
  | numeral (text : List Char)
  /-- The circle constant, by either of its names. -/
  | pi (text : List Char)
  /-- A word or a sign that is a token by itself. -/
  | word (token : Token)
  | stray (c : Char)

namespace Lexeme

def text : Lexeme → List Char
  | list text => text
  | numeral text => text
  | pi text => text
  | word token => token.text.toList
  | stray c => [c]

/-- Characters between the brackets of a list. -/
def isListCharacter (c : Char) : Bool := isDigit c || c = '.' || c = ','

/-- A list with its brackets, if the text begins with one. -/
def list? : List Char → Option Lexeme
  | '[' :: cs =>
    let inner := cs.takeWhile isListCharacter
    if (cs.drop inner.length).head? = some ']' then some (list ('[' :: inner ++ [']'])) else none
  | _ => none

/-- Digits with an optional point and more digits, or a point and digits. -/
def numeral? (s : List Char) : Option Lexeme :=
  let whole := s.takeWhile isDigit
  match s.drop whole.length with
  | '.' :: cs =>
    let fraction := cs.takeWhile isDigit
    if whole.isEmpty && fraction.isEmpty then none else some (numeral (whole ++ '.' :: fraction))
  | _ => if whole.isEmpty then none else some (numeral whole)

/-- The words and signs in the order in which they are tried. -/
def words : List Lexeme :=
  [pi ['p', 'i'], pi ['π']] ++ MathFunction.all.map (word ∘ .function) ++
    [.doubleStar, .plus, .minus, .star, .letterX, .cross, .slash, .obelus, .percent, .caret,
      .ampersand].map (word ∘ .binary) ++
    [word (.opening .round), word (.closing .round), word (.opening .curly),
      word (.closing .curly)] ++
    Genesys.Kind.all.map (word ∘ .genesys) ++ [word .dice] ++
    PoolOperator.all.map (word ∘ .pool) ++ [word (.conversion .target), word (.conversion .botch)]

def word? (s : List Char) : Option Lexeme := words.find? fun l => l.text.isPrefixOf s

/-- The lexeme that a text begins with. -/
def first (c : Char) (cs : List Char) : Lexeme :=
  let s := c :: cs
  (((list? s).or (numeral? s)).or (word? s)).getD (stray c)

/-- The lexemes of a text, after so many characters that belong to an earlier one. -/
def scan : Nat → List Char → List Lexeme
  | _, [] => []
  | skip + 1, _ :: cs => scan skip cs
  | 0, c :: cs =>
    let l := first c cs
    l :: scan (l.text.length - 1) cs

/-- The lexemes of a text without blanks. -/
def ofText (s : List Char) : List Lexeme := scan 0 s

end Lexeme

end Tabletop
