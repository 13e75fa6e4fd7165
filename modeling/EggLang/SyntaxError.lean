import EggLang.Tree

/-! Syntax errors: what was expected, what stood there instead, and where. -/

namespace EggLang

/-- The parts of a statement that messages name. -/
inductive Phrase
  | print
  | printValue
  | statement
  | variableName
  | typeName
  | expression
deriving DecidableEq, Repr

def Phrase.text : Phrase → String
  | print => "print"
  | printValue => "print value"
  | statement => "statement"
  | variableName => "variable name"
  | typeName => "type name"
  | expression => "expression"

/-- What the grammar asks for at a place. -/
inductive Expectation
  | after (symbol : String) (phrase : Phrase)
  | before (symbol : String) (phrase : Phrase)
  | expression
  | identifier (role : Phrase)
  | typeName
  | statement
  | assignable
  | initializer (name : String)
  | closingBrace
  | endOfInput
  | numeral
deriving DecidableEq, Repr

def Expectation.text : Expectation → String
  | after symbol phrase => s!"Expected `{symbol}` after {phrase.text}"
  | before symbol phrase => s!"Expected `{symbol}` before {phrase.text}"
  | expression => "Expected expression"
  | identifier role => s!"Expected identifier as {role.text}"
  | typeName => "Expected type name (string, num or bool)"
  | statement => "Expected an assignment or a statement keyword"
  | assignable => "Expected identifier on the left of `=`"
  | initializer name => s!"Constant `{name}` must be initialized"
  | closingBrace => "Expected `\x7d` to close block"
  | endOfInput => "Expected end of input"
  | numeral => "Invalid number literal"

/-- What stood in the place of what was expected. -/
inductive Found
  | token (t : Token)
  | expression (e : Expr)
deriving DecidableEq, Repr

def Found.text : Found → String
  | token t => t.describe
  | expression e => s!"expression {e.text}"

structure SyntaxError where
  expected : Expectation
  found : Found
  span : Span
deriving DecidableEq, Repr

def SyntaxError.message (e : SyntaxError) : String :=
  s!"{e.expected.text}, but instead got {e.found.text} at {e.span.start.text}"

end EggLang
