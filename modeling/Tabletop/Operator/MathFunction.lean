/-!
# Named functions of one number
-/

namespace Tabletop

inductive MathFunction where
  | asinh
  | acosh
  | atanh
  | floor
  | asin
  | acos
  | atan
  | sinh
  | cosh
  | tanh
  | sqrt
  | ceil
  | sin
  | cos
  | tan
  | abs
  | log
  | ln
deriving DecidableEq

namespace MathFunction

/-- All functions, so that none comes before one whose name it begins. -/
def all : List MathFunction :=
  [asinh, acosh, atanh, floor, asin, acos, atan, sinh, cosh, tanh, sqrt, ceil, sin, cos, tan, abs,
   log, ln]

def name : MathFunction → String
  | asinh => "asinh"
  | acosh => "acosh"
  | atanh => "atanh"
  | floor => "floor"
  | asin => "asin"
  | acos => "acos"
  | atan => "atan"
  | sinh => "sinh"
  | cosh => "cosh"
  | tanh => "tanh"
  | sqrt => "sqrt"
  | ceil => "ceil"
  | sin => "sin"
  | cos => "cos"
  | tan => "tan"
  | abs => "abs"
  | log => "log"
  | ln => "ln"

/-- The function on doubles; what has no finite value fails later. Rounding to a whole number
gives no negative zero. -/
def apply : MathFunction → Float → Float
  | asinh, x => x.asinh
  | acosh, x => x.acosh
  | atanh, x => x.atanh
  | floor, x => x.floor + 0.0
  | asin, x => x.asin
  | acos, x => x.acos
  | atan, x => x.atan
  | sinh, x => x.sinh
  | cosh, x => x.cosh
  | tanh, x => x.tanh
  | sqrt, x => x.sqrt
  | ceil, x => x.ceil + 0.0
  | sin, x => x.sin
  | cos, x => x.cos
  | tan, x => x.tan
  | abs, x => x.abs
  | log, x => x.log10
  | ln, x => x.log

def ofName? (name : String) : Option MathFunction := all.find? fun f => f.name = name

end MathFunction

end Tabletop
