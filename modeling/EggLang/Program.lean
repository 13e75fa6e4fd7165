import EggLang.Execution
import EggLang.Parse.Statement
import EggLang.Source

/-! Programs from their text to their output. -/

namespace EggLang

/-- What can go wrong between the text of a program and its end. -/
inductive ProgramError
  | lexical (e : LexError)
  | grammatical (e : SyntaxError)
  | runtime (e : RuntimeError)
deriving DecidableEq, Repr

def ProgramError.message : ProgramError → String
  | lexical e => e.message
  | grammatical e => e.message
  | runtime e => e.message

/-- Cuts a text into tokens and parses them. -/
def parseWith {α : Type} (parse : List Token → Except SyntaxError α) (text : String) :
    Except ProgramError α := do
  let tokens ← (tokenize text).mapError .lexical
  (parse tokens).mapError .grammatical

def parseProgram (text : String) : Except ProgramError (List Stmt) :=
  parseWith Stmt.listOfTokens text

def parseStatement (text : String) : Except ProgramError Stmt := parseWith Stmt.ofTokens text

def parseExpression (text : String) : Except ProgramError Expr := parseWith Expr.ofTokens text

/-- The outcome of an execution, and the machine after it. -/
def outcome {α σ : Type} : EStateM.Result RuntimeError σ α → Except ProgramError α × σ
  | .ok a s => (.ok a, s)
  | .error e s => (.error (.runtime e), s)

/-- Runs a program with room for output up to a capacity. Nothing runs unless all of it parses. -/
def runProgram (text : String) (capacity : Option Nat) : Except ProgramError Unit × Output :=
  match parseProgram text with
  | .error e => (.error e, .empty capacity)
  | .ok body =>
    let (result, m) := outcome (Stmt.executeAll body (.initial capacity))
    (result, m.output)

/-- The value of an expression without variables in scope. -/
def evaluateAlone (e : Expr) : Except ProgramError Value := (outcome (e.evaluate .empty)).1

end EggLang
