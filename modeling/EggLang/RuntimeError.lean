import EggLang.Operator

/-! What can go wrong when a program runs. -/

namespace EggLang

inductive RuntimeError
  | undeclared (name : String)
  | alreadyDeclared (name : String)
  | uninitialized (name : String)
  | constantReassignment (name : String)
  | typeMismatch (name : String) (expected found : DataType)
  | illegalBinary (op : BinaryOp) (lhs rhs : DataType)
  | illegalUnary (op : UnaryOp) (operand : DataType)
  | nonBooleanCondition (found : DataType)
  | outputFull
deriving DecidableEq, Repr

def RuntimeError.message : RuntimeError → String
  | undeclared name => s!"Variable {name} was not declared in this scope"
  | alreadyDeclared name => s!"Variable {name} was already declared in this scope"
  | uninitialized name => s!"Variable {name} was used before being initialized"
  | constantReassignment name => s!"Cannot modify constant variable {name}"
  | typeMismatch name expected found =>
    s!"Cannot change variable {name}'s type (tried to change {expected.keyword} to {found.keyword})"
  | illegalBinary op lhs rhs =>
    s!"Invalid data types in operator `{op.symbol}`: {lhs.keyword} and {rhs.keyword}"
  | illegalUnary op operand => s!"Invalid data type in operator `{op.symbol}`: {operand.keyword}"
  | nonBooleanCondition found => s!"Condition must be a bool, but was {found.keyword}"
  | outputFull => "Failed to write output: failed to write whole buffer"

end EggLang
