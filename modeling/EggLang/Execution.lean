import EggLang.Evaluation
import EggLang.Output

/-! The execution of statements, which change an environment and print. An error stops the
execution and keeps what was done and printed before it, but no scope that was entered. -/

namespace EggLang

structure Machine where
  environment : Environment
  output : Output

/-- What a statement does to a machine. -/
abbrev Execution := EStateM RuntimeError Machine

namespace Machine

/-- The machine before a program runs, with room for output up to a capacity. -/
def initial (capacity : Option Nat) : Machine := ⟨.empty, .empty capacity⟩

end Machine

namespace Execution

/-- An evaluation in the environment of the machine. -/
def evaluating {α : Type} (x : Evaluation α) : Execution α := fun m =>
  match x m.environment with
  | .ok a env => .ok a { m with environment := env }
  | .error e env => .error e { m with environment := env }

def printLine (text : String) : Execution Unit := fun m =>
  match Output.write (text ++ "\n") m.output with
  | .ok a out => .ok a { m with output := out }
  | .error e out => .error e { m with output := out }

/-- Runs `x` in a scope of its own, which is left however `x` ends. -/
def inScope (x : Execution Unit) : Execution Unit := fun m =>
  match x { m with environment := m.environment.push } with
  | .ok a m' => .ok a { m' with environment := m'.environment.pop }
  | .error e m' => .error e { m' with environment := m'.environment.pop }

/-- Goes one of two ways on a condition, which must be a boolean. -/
def choose (condition : Value) (yes no : Execution Unit) : Execution Unit :=
  match condition with
  | .boolean true => yes
  | .boolean false => no
  | v => throw (.nonBooleanCondition v.type)

end Execution

open Execution

namespace Stmt

mutual

def execute : Stmt → Execution Unit
  | print value _ => do
    let v ← evaluating value.evaluate
    printLine v.text
  | declare d _ => evaluating d.evaluate
  | assign target value span => do
    let _ ← evaluating (Expr.assign target value span).evaluate
  | ifElse condition body none _ => do
    let v ← evaluating condition.evaluate
    choose v (inScope (executeAll body)) (pure ())
  | ifElse condition body (some otherwise) _ => do
    let v ← evaluating condition.evaluate
    choose v (inScope (executeAll body)) (inScope (executeAll otherwise))
  | block body _ => inScope (executeAll body)

/-- What statements do one after the other, up to the first that fails. -/
def executeAll : List Stmt → Execution Unit
  | [] => pure ()
  | s :: rest => do
    s.execute
    executeAll rest

end

end Stmt

end EggLang
