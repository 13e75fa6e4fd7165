import EggLang.Value

/-! Syntax trees. Every node has the span of the text it was made from, and is shown as an
S-expression. Parentheses leave no node. -/

namespace EggLang

/-- An occurrence of a name. -/
structure Ident where
  name : String
  span : Span
deriving DecidableEq, Repr

inductive Expr
  | literal (value : Value) (span : Span)
  | var (id : Ident)
  | unary (op : UnaryOp) (operand : Expr) (span : Span)
  | binary (op : BinaryOp) (lhs rhs : Expr) (span : Span)
  | assign (target : Ident) (value : Expr) (span : Span)
deriving DecidableEq, Repr

namespace Expr

def span : Expr → Span
  | literal _ span => span
  | var id => id.span
  | unary _ _ span => span
  | binary _ _ _ span => span
  | assign _ _ span => span

/-- A literal as trees show it. -/
def literalText : Value → String
  | .string s => s!"\"{s}\""
  | v => v.text

def text : Expr → String
  | literal value _ => literalText value
  | var id => id.name
  | unary op operand _ => s!"({op.symbol} {operand.text})"
  | binary op lhs rhs _ => s!"({op.symbol} {lhs.text} {rhs.text})"
  | assign target value _ => s!"(set {target.name} {value.text})"

end Expr

structure Declaration where
  id : Ident
  type : DataType
  isConstant : Bool
  initializer : Option Expr
deriving DecidableEq, Repr

inductive Stmt
  | print (value : Expr) (span : Span)
  | declare (declaration : Declaration) (span : Span)
  | assign (target : Ident) (value : Expr) (span : Span)
  | ifElse (condition : Expr) (body : List Stmt) (otherwise : Option (List Stmt)) (span : Span)
  | block (body : List Stmt) (span : Span)
deriving Repr

namespace Declaration

def text (d : Declaration) : String :=
  let keyword := if d.isConstant then "const" else "var"
  match d.initializer with
  | some value => s!"({keyword} {d.type.keyword} {d.id.name} {value.text})"
  | none => s!"({keyword} {d.type.keyword} {d.id.name})"

end Declaration

namespace Stmt

def span : Stmt → Span
  | print _ span => span
  | declare _ span => span
  | assign _ _ span => span
  | ifElse _ _ _ span => span
  | block _ span => span

mutual

/-- A statement as an S-expression. The branches of a conditional are shown as blocks. -/
def text : Stmt → String
  | print value _ => s!"(print {value.text})"
  | declare declaration _ => declaration.text
  | assign target value _ => s!"(set {target.name} {value.text})"
  | ifElse condition body none _ => s!"(if {condition.text} (block{itemsText body}))"
  | ifElse condition body (some otherwise) _ =>
    s!"(if {condition.text} (block{itemsText body}) (block{itemsText otherwise}))"
  | block body _ => s!"(block{itemsText body})"

/-- Statements as S-expressions, each after a space. -/
def itemsText : List Stmt → String
  | [] => ""
  | s :: rest => s!" {s.text}{itemsText rest}"

end

end Stmt

end EggLang
