import EggLang.Operator.Apply
import EggLang.Environment
import EggLang.Tree

/-! The evaluation of expressions. Reading and assigning variables is all that an expression does.
An error stops the evaluation and keeps the assignments made before it. -/

namespace EggLang

/-- What an expression does to an environment. -/
abbrev Evaluation := EStateM RuntimeError Environment

namespace Evaluation

def load (name : String) : Evaluation Value := fun env =>
  match env.get name with
  | .ok v => .ok v env
  | .error e => .error e env

/-- The result of something that leaves the environment alone. -/
def result {α : Type} : Except RuntimeError α → Evaluation α
  | .ok a => fun env => .ok a env
  | .error e => fun env => .error e env

end Evaluation

open Evaluation

/-- The value of an expression. Operands are evaluated from left to right, and always both of them.
An assignment has the value that it assigns. -/
def Expr.evaluate : Expr → Evaluation Value
  | literal v _ => pure v
  | var id => load id.name
  | unary op operand _ => do
    let v ← operand.evaluate
    result (op.apply v)
  | binary op lhs rhs _ => do
    let v ← lhs.evaluate
    let w ← rhs.evaluate
    result (op.apply v w)
  | assign target value _ => do
    let v ← value.evaluate
    Environment.assign target.name v
    pure v

/-- What a declaration does. Its initializer is evaluated before its name is in scope. -/
def Declaration.evaluate (d : Declaration) : Evaluation Unit :=
  match d.initializer with
  | some value => do
    let v ← value.evaluate
    Environment.define d.id.name ⟨d.type, d.isConstant, none⟩ v
  | none => Environment.declare d.id.name ⟨d.type, d.isConstant, none⟩

end EggLang
