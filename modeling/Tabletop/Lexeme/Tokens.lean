import Tabletop.Lexeme

/-!
# From text to tokens

What a lexeme means hangs on the token before it: a sign where an operand must come belongs to that
operand, and a `d` there rolls one die.
-/

namespace Tabletop

open Text

/-- Whether a text may roll dice. -/
inductive Mode where
  | dice
  | math
deriving DecidableEq

/-- The first characters of a numeral, enough to recognise it by. -/
def numeralStart (text : List Char) : String := String.ofList (text.take 12)

/-- A whole number is an argument if it is no larger than arguments can be. -/
def tokenOfNumeral (text : List Char) : Except Error Token :=
  let whole := text.takeWhile isDigit
  let fraction := (text.drop whole.length).drop 1
  let x := Number.nearest whole fraction 0
  if x.isInf then .error (.numeralTooBig (numeralStart text))
  else if !text.contains '.' && x ≤ Float.ofNat maxArgument then do
    let n ← Number.natural text
    Token.argument <$> Argument.ofScalar (.integer n)
  else .ok (.number x (String.ofList text))

/-- The double nearest to the circle constant. -/
def circleConstant : Float := 3.141592653589793

/-- The calculator knows neither dice nor their arguments and operators. -/
def Lexeme.isForDice : Lexeme → Bool
  | list _ => true
  | word (.binary .ampersand) => true
  | word t => t.isChaining
  | _ => false

/-- The tokens of a lexeme, after a token that wants an operand, or at the beginning, or neither. -/
def Lexeme.tokens (mode : Mode) (bare : Bool) (l : Lexeme) : Except Error (List Token) :=
  if mode = .math && l.isForDice then .error (.unknownSymbol (String.ofList l.text))
  else
    match l with
    | list text => do pure [.argument (← Argument.parse text)]
    | numeral text => do pure [← tokenOfNumeral text]
    | pi text => .ok [.number circleConstant (String.ofList text)]
    | word (.binary .plus) => .ok (if bare then [] else [.binary .plus])
    | word (.binary .minus) => .ok (if bare then [.negate] else [.binary .minus])
    | word .dice => .ok (if bare then [.argument (.single 1), .dice] else [.dice])
    | word t => .ok [t]
    | stray c => .error (.unknownSymbol (String.ofList [c]))

/-- The tokens of a list of lexemes; the flag tells whether nothing stands on their left. -/
def tokensOf (mode : Mode) : Bool → List Lexeme → Except Error (List Token)
  | _, [] => .ok []
  | bare, l :: ls => do
    let ts ← l.tokens mode bare
    let bare := (ts.getLast?.map Token.wantsOperand).getD bare
    pure (ts ++ (← tokensOf mode bare ls))

/-- The tokens of a text, whose blanks do not count. -/
def tokenize (mode : Mode) (text : String) : Except Error (List Token) :=
  tokensOf mode true (Lexeme.ofText (squeeze text.toList))

end Tabletop
