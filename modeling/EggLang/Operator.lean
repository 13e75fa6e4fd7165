import EggLang.Token

/-! The operators of the language, how tightly each of them binds, and the types of values. -/

namespace EggLang

/-- The types a variable can be declared with. -/
inductive DataType
  | string
  | number
  | boolean
deriving DecidableEq, Repr

namespace DataType

def keyword : DataType → String
  | string => "string"
  | number => "num"
  | boolean => "bool"

def ofKeyword? : String → Option DataType
  | "string" => some string
  | "num" => some number
  | "bool" => some boolean
  | _ => none

theorem ofKeyword?_eq_some_iff {word : String} {type : DataType} :
    ofKeyword? word = some type ↔ type.keyword = word := by
  constructor
  · intro h
    unfold ofKeyword? at h
    split at h <;> cases h <;> rfl
  · rintro rfl
    cases type <;> rfl

end DataType

inductive UnaryOp
  | identity
  | negate
  | not
deriving DecidableEq, Repr

namespace UnaryOp

def symbol : UnaryOp → String
  | identity => "+"
  | negate => "-"
  | not => "!"

def ofSymbol? : String → Option UnaryOp
  | "+" => some identity
  | "-" => some negate
  | "!" => some not
  | _ => none

theorem ofSymbol?_eq_some_iff {symbol : String} {op : UnaryOp} :
    ofSymbol? symbol = some op ↔ op.symbol = symbol := by
  constructor
  · intro h
    unfold ofSymbol? at h
    split at h <;> cases h <;> rfl
  · rintro rfl
    cases op <;> rfl

/-- The operator that a token stands for before an operand. -/
def ofToken? (t : Token) : Option UnaryOp :=
  if t.kind = .operator then ofSymbol? t.text else none

end UnaryOp

/-- The operators between two operands that compute a value. -/
inductive BinaryOp
  | add
  | subtract
  | multiply
  | divide
  | and
  | or
  | equal
  | notEqual
  | greater
  | greaterEqual
  | less
  | lessEqual
deriving DecidableEq, Repr

namespace BinaryOp

def symbol : BinaryOp → String
  | add => "+"
  | subtract => "-"
  | multiply => "*"
  | divide => "/"
  | and => "&"
  | or => "|"
  | equal => "=="
  | notEqual => "!="
  | greater => ">"
  | greaterEqual => ">="
  | less => "<"
  | lessEqual => "<="

def ofSymbol? : String → Option BinaryOp
  | "+" => some add
  | "-" => some subtract
  | "*" => some multiply
  | "/" => some divide
  | "&" => some and
  | "|" => some or
  | "==" => some equal
  | "!=" => some notEqual
  | ">" => some greater
  | ">=" => some greaterEqual
  | "<" => some less
  | "<=" => some lessEqual
  | _ => none

theorem ofSymbol?_eq_some_iff {symbol : String} {op : BinaryOp} :
    ofSymbol? symbol = some op ↔ op.symbol = symbol := by
  constructor
  · intro h
    unfold ofSymbol? at h
    split at h <;> cases h <;> rfl
  · rintro rfl
    cases op <;> rfl

end BinaryOp

/-- How tightly an operator binds, from the loosest to the tightest. -/
inductive Precedence
  | lowest
  | assignment
  | and
  | or
  | equality
  | comparison
  | addition
  | multiplication
  | unary
deriving DecidableEq, Repr

/-- Which of two neighbouring operators of one precedence is applied first. -/
inductive Associativity
  | left
  | right
deriving DecidableEq, Repr

namespace Precedence

def all : List Precedence :=
  [lowest, assignment, and, or, equality, comparison, addition, multiplication, unary]

/-- The place of a precedence among all of them. -/
def rank (p : Precedence) : Nat := all.idxOf p

/-- Assignments group to the right, and all else to the left. -/
def associativity : Precedence → Associativity
  | assignment => .right
  | _ => .left

end Precedence

/-- What can stand between two operands. -/
inductive Operator
  | binary (op : BinaryOp)
  | assignment
deriving DecidableEq, Repr

namespace Operator

/-- The operator that a token stands for after an operand. -/
def ofToken? (t : Token) : Option Operator :=
  if t.kind = .operator then
    if t.text = "=" then some .assignment else (BinaryOp.ofSymbol? t.text).map .binary
  else none

def precedence : Operator → Precedence
  | assignment => .assignment
  | binary .and => .and
  | binary .or => .or
  | binary .equal | binary .notEqual => .equality
  | binary .greater | binary .greaterEqual | binary .less | binary .lessEqual => .comparison
  | binary .add | binary .subtract => .addition
  | binary .multiply | binary .divide => .multiplication

def associativity (op : Operator) : Associativity := op.precedence.associativity

/-- Whether an operator takes the operand before it from an operator of precedence `floor` that
stands further left. -/
def bindsAbove (op : Operator) (floor : Precedence) : Bool :=
  decide (floor.rank < op.precedence.rank) ||
    (decide (op.precedence = floor) && decide (op.associativity = .right))

end Operator

end EggLang
