import EggLang.Number.Text
import EggLang.Operator

/-! Values: what expressions evaluate to, what literals stand for and what is printed. -/

namespace EggLang

inductive Value
  | number (n : Number)
  | string (s : String)
  | boolean (b : Bool)
deriving DecidableEq, Repr

namespace Value

def type : Value → DataType
  | number _ => .number
  | string _ => .string
  | boolean _ => .boolean

def booleanText (b : Bool) : String := if b then "true" else "false"

/-- A value as it is printed. -/
def text : Value → String
  | number n => n.text
  | string s => s
  | boolean b => booleanText b

end Value

end EggLang
