import EggLang.RuntimeError
import EggLang.Value

/-! The variables in scope: a stack of scopes that always holds the global one. A name means its
innermost declaration, whether or not that has a value yet. Operations that change a variable or an
environment pass it on in any case, with an error where they fail. -/

namespace EggLang

/-- A declared variable. Its type and whether it is a constant never change, and it has no value
until the first one is stored. -/
structure Variable where
  type : DataType
  isConstant : Bool
  value : Option Value
deriving DecidableEq, Repr

namespace Variable

/-- Stores a value, which must be of the type of the variable. The name is for the error. -/
def store (name : String) (v : Value) : EStateM RuntimeError Variable Unit := fun x =>
  if v.type = x.type then .ok () { x with value := some v }
  else .error (.typeMismatch name x.type v.type) x

end Variable

/-- The variables of one scope by name, the latest declaration first. -/
abbrev Scope := List (String × Variable)

namespace Scope

def find? (scope : Scope) (name : String) : Option Variable := scope.lookup name

/-- The scope with the latest variable of a name replaced, where there is one. -/
def replace (scope : Scope) (name : String) (x : Variable) : Scope :=
  match scope with
  | [] => []
  | entry :: rest =>
    if entry.1 = name then (name, x) :: rest else entry :: replace rest name x

end Scope

/-- A stack of scopes. Below the innermost stand the outer ones, from the inside to the outside. -/
structure Environment where
  innermost : Scope
  outer : List Scope
deriving DecidableEq, Repr

namespace Environment

def empty : Environment := ⟨[], []⟩

def scopes (env : Environment) : List Scope := env.innermost :: env.outer

def depth (env : Environment) : Nat := env.outer.length + 1

def push (env : Environment) : Environment := ⟨[], env.scopes⟩

/-- Leaves the innermost scope. The global scope is never left. -/
def pop (env : Environment) : Environment :=
  match env.outer with
  | [] => env
  | scope :: rest => ⟨scope, rest⟩

@[simp] theorem pop_push (env : Environment) : env.push.pop = env := rfl

@[simp] theorem depth_push (env : Environment) : env.push.depth = env.depth + 1 := rfl

/-- Adds a variable to the innermost scope, which may not hold the name yet. -/
def declare (name : String) (x : Variable) : EStateM RuntimeError Environment Unit := fun env =>
  match env.innermost.find? name with
  | some _ => .error (.alreadyDeclared name) env
  | none => .ok () { env with innermost := (name, x) :: env.innermost }

/-- Adds a variable with its first value. This is the only way to give a value to a constant. -/
def define (name : String) (x : Variable) (v : Value) : EStateM RuntimeError Environment Unit :=
  fun env =>
    match Variable.store name v x with
    | .ok () y => declare name y env
    | .error e _ => .error e env

def find? (env : Environment) (name : String) : Option Variable :=
  env.scopes.findSome? (·.find? name)

def get (env : Environment) (name : String) : Except RuntimeError Value :=
  match env.find? name with
  | none => .error (.undeclared name)
  | some x =>
    match x.value with
    | none => .error (.uninitialized name)
    | some v => .ok v

/-- The scopes with the variable `name` replaced in the innermost that holds it. -/
def replaceIn (name : String) (x : Variable) : List Scope → List Scope
  | [] => []
  | scope :: rest =>
    if (scope.find? name).isSome then scope.replace name x :: rest
    else scope :: replaceIn name x rest

/-- The environment with the innermost variable of a name replaced. -/
def replace (env : Environment) (name : String) (x : Variable) : Environment :=
  if (env.innermost.find? name).isSome then
    { env with innermost := env.innermost.replace name x }
  else { env with outer := replaceIn name x env.outer }

/-- Stores a value in the innermost variable of a name, where the variable stands. -/
def assign (name : String) (v : Value) : EStateM RuntimeError Environment Unit := fun env =>
  match env.find? name with
  | none => .error (.undeclared name) env
  | some x =>
    if x.isConstant then .error (.constantReassignment name) env
    else
      match Variable.store name v x with
      | .ok () y => .ok () (env.replace name y)
      | .error e y => .error e (env.replace name y)

/-! ### Requests -/

/-- What can be asked of an environment. -/
inductive Request
  | push
  | pop
  | declare (name : String) (x : Variable)
  | define (name : String) (x : Variable) (v : Value)
  | assign (name : String) (v : Value)
  | get (name : String)
deriving DecidableEq, Repr

/-- The answer of an operation that has no value, and the environment that it leaves. -/
def answer : EStateM.Result RuntimeError Environment Unit →
    Except RuntimeError (Option Value) × Environment
  | .ok () env => (.ok none, env)
  | .error e env => (.error e, env)

/-- The answer to a request, which is a value for `get` alone, and the environment after it. -/
def perform (env : Environment) : Request → Except RuntimeError (Option Value) × Environment
  | .push => (.ok none, env.push)
  | .pop => (.ok none, env.pop)
  | .declare name x => answer (declare name x env)
  | .define name x v => answer (define name x v env)
  | .assign name v => answer (assign name v env)
  | .get name => ((env.get name).map some, env)

end Environment

end EggLang
