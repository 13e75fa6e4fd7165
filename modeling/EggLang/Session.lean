import EggLang.Script.Load

/-! Interactive sessions. A session prompts for a line at a time and runs it as statements or
evaluates it as an expression, in one environment throughout. With a display asked for, lines are
shown as tokens or as trees instead. -/

namespace EggLang

/-- How a program is shown instead of being run: as its tokens, as its tree, or as one after the
other. -/
structure Display where
  tokens : Bool
  tree : Bool
deriving DecidableEq, Repr

namespace Display

def isOn (d : Display) : Bool := d.tokens || d.tree

/-- A token on a line of its own, behind its place, which is moved to the right of eight columns. -/
def tokenLine (t : Token) : String :=
  let place := t.span.start.text
  String.ofList (List.replicate (8 - place.length) ' ') ++ s!"{place}  {t.describe}\n"

def tokenLines (text : String) : Except ProgramError String :=
  match tokenize text with
  | .ok tokens => .ok (String.join (tokens.map tokenLine))
  | .error e => .error (.lexical e)

def treeLines (text : String) : Except ProgramError String :=
  (parseProgram text).map fun body => String.join (body.map fun s => s.text ++ "\n")

/-- What is shown of a text, and how showing it ends. The tokens stay where no tree follows. -/
def render (d : Display) (text : String) : String × Except ProgramError Unit :=
  match if d.tokens then tokenLines text else .ok "" with
  | .error e => ("", .error e)
  | .ok tokens =>
    match if d.tree then treeLines text else .ok "" with
    | .error e => (tokens, .error e)
    | .ok tree => (tokens ++ tree, .ok ())

end Display

/-- The words that a line of statements may start with. -/
def statementWords : List String := ["print", "if", "var", "const", "string", "num", "bool"]

/-- The letters, numbers and underscores that a line starts with. -/
def firstWord (line : List Char) : List Char :=
  line.takeWhile fun c => Text.isAlphanumeric c || c == '_'

/-- Whether a line is run as statements, which is told by its ends alone. -/
def isStatementLine (line : List Char) : Bool :=
  line.getLast? == some ';' || line.getLast? == some '\x7d' || line.head? == some '\x7b' ||
    statementWords.contains (String.ofList (firstWord line))

/-- A message as the error stream shows it, in red. -/
def errorLine (message : String) : String := s!"\x1b[31mError: {message}\x1b[0m\n"

/-- A session: its machine, whose output holds the prompts too, and its messages. -/
structure Session where
  machine : Machine
  errors : String

namespace Session

def initial : Session := ⟨.initial none, ""⟩

def banner : String := "EggScript interactive session. Type `exit` to quit.\n"

def prompt : String := "> "

def print (s : Session) (text : String) : Session :=
  let output := { s.machine.output with bytes := s.machine.output.bytes ++ text.toUTF8 }
  { s with machine := { s.machine with output := output } }

def report (s : Session) (message : String) : Session :=
  { s with errors := s.errors ++ errorLine message }

/-- What is done with a line: statements are executed, and the value of an expression is printed. -/
def lineAction (line : List Char) : Except ProgramError (Execution Unit) :=
  if isStatementLine line then (parseProgram (String.ofList line)).map Stmt.executeAll
  else
    (parseExpression (String.ofList line)).map fun e => do
      let v ← Execution.evaluating e.evaluate
      Execution.printLine v.text

def runLine (s : Session) (line : List Char) : Session :=
  match lineAction line with
  | .error e => s.report e.message
  | .ok action =>
    match action s.machine with
    | .ok _ m => { s with machine := m }
    | .error e m => { s with machine := m }.report e.message

def showLine (s : Session) (d : Display) (line : List Char) : Session :=
  match d.render (String.ofList line) with
  | (shown, .ok ()) => s.print shown
  | (shown, .error e) => (s.print shown).report e.message

/-- The session after a line of input, and whether it goes on. Blanks around a line are ignored, and
so is a line without anything else. -/
def respond (s : Session) (d : Display) (input : ByteArray) : Session × Bool :=
  match Script.decode input with
  | .error e => (s.report e.text, false)
  | .ok text =>
    let line := Text.trim text.toList
    if line.isEmpty then (s, true)
    else if line = "exit".toList then (s, false)
    else if d.isOn then (s.showLine d line, true)
    else (s.runLine line, true)

/-- The session after lines of input, with a prompt before each and before their end. -/
def converse (d : Display) (s : Session) : List ByteArray → Session
  | [] => s.print prompt
  | input :: rest =>
    match (s.print prompt).respond d input with
    | (s, true) => converse d s rest
    | (s, false) => s

def run (d : Display) (inputs : List ByteArray) : Session :=
  converse d (initial.print banner) inputs

end Session

end EggLang
