import EggLang.RuntimeError
import EggLang.Value

/-! Operators applied to values. Types are never converted: each operator takes operands of certain
types and refuses all others. -/

namespace EggLang

def UnaryOp.apply : UnaryOp → Value → Except RuntimeError Value
  | identity, .number n => .ok (.number n)
  | negate, .number n => .ok (.number (-n))
  | not, .boolean b => .ok (.boolean !b)
  | op, v => .error (.illegalUnary op v.type)

namespace BinaryOp

/-- The value of an operator on two numbers. `&` and `|` have none. -/
def onNumbers? (op : BinaryOp) (x y : Number) : Option Value :=
  match op with
  | add => some (.number (x + y))
  | subtract => some (.number (x - y))
  | multiply => some (.number (x * y))
  | divide => some (.number (x / y))
  | equal => some (.boolean (x.equals y))
  | notEqual => some (.boolean !(x.equals y))
  | greater => some (.boolean (y.less x))
  | greaterEqual => some (.boolean (y.atMost x))
  | less => some (.boolean (x.less y))
  | lessEqual => some (.boolean (x.atMost y))
  | and | or => none

/-- The value of an operator on two strings, which can be joined and told apart. -/
def onStrings? (op : BinaryOp) (s t : String) : Option Value :=
  match op with
  | add => some (.string (s ++ t))
  | equal => some (.boolean (decide (s = t)))
  | notEqual => some (.boolean (decide (s ≠ t)))
  | _ => none

def onBooleans? (op : BinaryOp) (a b : Bool) : Option Value :=
  match op with
  | and => some (.boolean (a && b))
  | or => some (.boolean (a || b))
  | equal => some (.boolean (a == b))
  | notEqual => some (.boolean (a != b))
  | _ => none

/-- The value of an operator on two values, which must be of one type. -/
def on? (op : BinaryOp) : Value → Value → Option Value
  | .number x, .number y => op.onNumbers? x y
  | .string s, .string t => op.onStrings? s t
  | .boolean a, .boolean b => op.onBooleans? a b
  | _, _ => none

def apply (op : BinaryOp) (lhs rhs : Value) : Except RuntimeError Value :=
  match op.on? lhs rhs with
  | some v => .ok v
  | none => .error (.illegalBinary op lhs.type rhs.type)

end BinaryOp

end EggLang
