import EggLang.RuntimeError
import EggLang.Tree

/-! The names in code: which names a tree has in it, whatever they stand for there, and trees and
errors with their names changed. -/

namespace EggLang

def Expr.names : Expr → List String
  | literal _ _ => []
  | var id => [id.name]
  | unary _ operand _ => operand.names
  | binary _ lhs rhs _ => lhs.names ++ rhs.names
  | assign target value _ => target.name :: value.names

def Declaration.names (d : Declaration) : List String :=
  match d.initializer with
  | some value => d.id.name :: value.names
  | none => [d.id.name]

namespace Stmt

mutual

def names : Stmt → List String
  | print value _ => value.names
  | declare d _ => d.names
  | assign target value _ => target.name :: value.names
  | ifElse condition body none _ => condition.names ++ namesAll body
  | ifElse condition body (some otherwise) _ =>
    condition.names ++ (namesAll body ++ namesAll otherwise)
  | block body _ => namesAll body

def namesAll : List Stmt → List String
  | [] => []
  | s :: rest => s.names ++ namesAll rest

end

theorem namesAll_append (body more : List Stmt) :
    namesAll (body ++ more) = namesAll body ++ namesAll more := by
  induction body with
  | nil => rfl
  | cons s rest ih => rw [List.cons_append, namesAll, namesAll, ih, List.append_assoc]

theorem mem_namesAll {s : Stmt} {body : List Stmt} {name : String} (hs : s ∈ body)
    (hname : name ∈ s.names) : name ∈ namesAll body := by
  induction body with
  | nil => exact nomatch hs
  | cons first rest ih =>
    rw [namesAll, List.mem_append]
    rcases List.mem_cons.mp hs with rfl | hs
    · exact .inl hname
    · exact .inr (ih hs)

end Stmt

/-! ### Other names -/

def Ident.rename (f : String → String) (id : Ident) : Ident := ⟨f id.name, id.span⟩

def Expr.rename (f : String → String) : Expr → Expr
  | literal v span => literal v span
  | var id => var (id.rename f)
  | unary op operand span => unary op (operand.rename f) span
  | binary op lhs rhs span => binary op (lhs.rename f) (rhs.rename f) span
  | assign target value span => assign (target.rename f) (value.rename f) span

def Declaration.rename (f : String → String) (d : Declaration) : Declaration :=
  ⟨d.id.rename f, d.type, d.isConstant, d.initializer.map (·.rename f)⟩

namespace Stmt

mutual

def rename (f : String → String) : Stmt → Stmt
  | print value span => print (value.rename f) span
  | declare d span => declare (d.rename f) span
  | assign target value span => assign (target.rename f) (value.rename f) span
  | ifElse condition body none span => ifElse (condition.rename f) (renameAll f body) none span
  | ifElse condition body (some otherwise) span =>
    ifElse (condition.rename f) (renameAll f body) (some (renameAll f otherwise)) span
  | block body span => block (renameAll f body) span

def renameAll (f : String → String) : List Stmt → List Stmt
  | [] => []
  | s :: rest => s.rename f :: renameAll f rest

end

end Stmt

def RuntimeError.rename (f : String → String) : RuntimeError → RuntimeError
  | undeclared name => undeclared (f name)
  | alreadyDeclared name => alreadyDeclared (f name)
  | uninitialized name => uninitialized (f name)
  | constantReassignment name => constantReassignment (f name)
  | typeMismatch name expected found => typeMismatch (f name) expected found
  | illegalBinary op lhs rhs => illegalBinary op lhs rhs
  | illegalUnary op operand => illegalUnary op operand
  | nonBooleanCondition found => nonBooleanCondition found
  | outputFull => outputFull

@[simp] theorem RuntimeError.rename_id (e : RuntimeError) : e.rename (fun name => name) = e := by
  cases e <;> rfl

@[simp] theorem Expr.rename_id (e : Expr) : e.rename (fun name => name) = e := by
  induction e with
  | literal v span => rfl
  | var id => rfl
  | unary op operand span ih => rw [rename, ih]
  | binary op lhs rhs span ihl ihr => rw [rename, ihl, ihr]
  | assign target value span ih => rw [rename, ih]; rfl

@[simp] theorem Declaration.rename_id (d : Declaration) : d.rename (fun name => name) = d := by
  obtain ⟨id, type, isConstant, initializer⟩ := d
  cases initializer with
  | none => rfl
  | some value => rw [rename, Option.map_some, Expr.rename_id]; rfl

namespace Stmt

mutual

@[simp] theorem rename_id : (s : Stmt) → s.rename (fun name => name) = s
  | print value _ => by rw [rename, value.rename_id]
  | declare d _ => by rw [rename, d.rename_id]
  | assign target value _ => by rw [rename, value.rename_id]; rfl
  | ifElse condition body none _ => by rw [rename, condition.rename_id, renameAll_id body]
  | ifElse condition body (some otherwise) _ => by
    rw [rename, condition.rename_id, renameAll_id body, renameAll_id otherwise]
  | block body _ => by rw [rename, renameAll_id body]

@[simp] theorem renameAll_id : (body : List Stmt) → renameAll (fun name => name) body = body
  | [] => rfl
  | s :: rest => by rw [renameAll, rename_id s, renameAll_id rest]

end

end Stmt

end EggLang
