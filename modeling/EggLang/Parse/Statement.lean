import EggLang.Parse.Expression

/-! Parsing statements. One token decides which statement starts at a cursor. The parsing functions
for single statements return a statement that waits for its span, which ends at the last token
taken. -/

namespace EggLang.Parse

/-- A statement but for its span. -/
abbrev Unplaced := Span → Stmt

/-! ### Statements without statements inside -/

/-- The rest of a `print` statement, behind the keyword. -/
def printing (c : Cursor) : Reply c.size Unplaced :=
  (c.expect "(" (.after "(" .print)).andThen fun _ c _ =>
  (expression .lowest c).andThen fun value c _ =>
  (c.expect ")" (.after ")" .printValue)).andThen fun _ c _ =>
  c.terminator.map fun _ _ => .print value

def bracketed (c : Cursor) : Reply c.size (Ident × DataType) :=
  (c.identifier .variableName).andThen fun id c _ =>
  (c.expect "[" (.before "[" .typeName)).andThen fun _ c _ =>
  c.typeName.andThen fun type c _ =>
  (c.expect "]" (.after "]" .typeName)).map fun _ _ => (id, type)

def typeFirst (c : Cursor) : Reply c.size (Ident × DataType) :=
  c.typeName.andThen fun type c _ =>
  (c.identifier .variableName).map fun id _ => (id, type)

def initializer (c : Cursor) : Reply (c.size + 1) (Option Expr) :=
  if c.at? .operator "=" then
    ((expression .lowest c.advance).map fun value _ => some value).mono c.advance_size_le_succ
  else .ok none c c.size_lt_succ

/-- The rest of a declaration, behind its name and type. -/
def declaring (isConstant : Bool) (id : Ident) (type : DataType) (c : Cursor) :
    Reply (c.size + 1) Unplaced :=
  (initializer c).andThen fun value c _ =>
  if isConstant && value.isNone then .error (c.failure (.initializer id.name)) c
  else c.terminator.map fun _ _ => .declare ⟨id, type, isConstant, value⟩

/-- The rest of a declaration of a constant, behind the keyword. -/
def constant (c : Cursor) : Reply c.size Unplaced :=
  let head := if c.current.kind = .identifier then bracketed c else typeFirst c
  head.andMaybe fun (id, type) c _ => declaring true id type c

/-- The value that `id++` assigns to `id`, for a `++` at `op`. -/
def increment (id : Ident) (op : Span) : Expr :=
  .binary .add (.var id) (.literal (.number .one) op) (id.span.join op)

/-- A statement that starts with an expression, which is an assignment or an increment. -/
def assignment (c : Cursor) : Reply c.size Unplaced :=
  (expression .lowest c).andThen fun e c _ =>
  match e with
  | .assign target value _ => c.terminator.map fun _ _ => .assign target value
  | .var id =>
    if c.at? .operator "++" then
      (c.advance.terminator.map fun _ _ => .assign id (increment id c.current.span)).mono
        c.advance_size_le
    else .error ⟨.statement, .expression (.var id), id.span⟩ c
  | e => .error ⟨.statement, .expression e, e.span⟩ c

/-! ### Statements and lists of them -/

mutual

def statement (c : Cursor) : Reply c.size Stmt :=
  let form : Reply c.size Unplaced :=
    if h : c.at? .keyword "print" then
      have shorter := Cursor.advance_size_lt (c := c) (by simp [Cursor.kind_of_at? h])
      (printing c.advance).mono c.advance_size_le
    else if h : c.at? .keyword "if" then
      have shorter := Cursor.advance_size_lt (c := c) (by simp [Cursor.kind_of_at? h])
      ((expression .lowest c.advance).andThen fun condition c _ =>
        (branch c).andMaybe fun body c _ =>
          (alternative c).map fun otherwise _ => .ifElse condition body otherwise).mono
        c.advance_size_le
    else if h : c.at? .keyword "var" then
      have shorter := Cursor.advance_size_lt (c := c) (by simp [Cursor.kind_of_at? h])
      ((bracketed c.advance).andMaybe fun (id, type) c _ => declaring false id type c).mono
        c.advance_size_le
    else if h : c.at? .keyword "const" then
      have shorter := Cursor.advance_size_lt (c := c) (by simp [Cursor.kind_of_at? h])
      (constant c.advance).mono c.advance_size_le
    else if c.typeAhead?.isSome then
      (typeFirst c).andMaybe fun (id, type) c _ => declaring false id type c
    else if h : c.at? .punctuation "\x7b" then
      have shorter := Cursor.advance_size_lt (c := c) (by simp [Cursor.kind_of_at? h])
      ((items c.advance).map fun body _ => .block body).mono c.advance_size_le
    else assignment c
  form.map fun place rest => place (c.current.span.join rest.behind)
termination_by 3 * c.size

/-- The body of a branch: statements in braces, or one statement without them. -/
def branch (c : Cursor) : Reply c.size (List Stmt) :=
  if h : c.at? .punctuation "\x7b" then
    have shorter := Cursor.advance_size_lt (c := c) (by simp [Cursor.kind_of_at? h])
    (items c.advance).mono c.advance_size_le
  else (statement c).map fun s _ => [s]
termination_by 3 * c.size + 1

/-- The branch behind an `else`, if there is one. It belongs to the nearest conditional. -/
def alternative (c : Cursor) : Reply (c.size + 1) (Option (List Stmt)) :=
  if h : c.at? .freeKeyword "else" then
    have shorter := Cursor.advance_size_lt (c := c) (by simp [Cursor.kind_of_at? h])
    ((branch c.advance).map fun body _ => some body).mono c.advance_size_le_succ
  else .ok none c c.size_lt_succ
termination_by 3 * c.size + 2

/-- Statements up to the brace that closes their block, which is taken too. -/
def items (c : Cursor) : Reply c.size (List Stmt) :=
  if h : c.at? .punctuation "\x7d" then
    .ok [] c.advance (Cursor.advance_size_lt (by simp [Cursor.kind_of_at? h]))
  else if c.atEnd then .error (c.failure .closingBrace) c
  else
    (statement c).andThen fun s c _ => (items c).map fun rest _ => s :: rest
termination_by 3 * c.size + 1

end

/-! ### Whole inputs -/

/-- Statements up to the end of the input. -/
def program (c : Cursor) : Except SyntaxError (List Stmt) :=
  if c.atEnd then .ok []
  else
    match statement c with
    | .ok s rest _ => (program rest).map (s :: ·)
    | .error e _ => .error e
termination_by c.size

/-- The result of a reply behind which the input ends. -/
def whole {n : Nat} {α : Type} : Reply n α → Except SyntaxError α
  | .ok value rest _ => if rest.atEnd then .ok value else .error (rest.failure .endOfInput)
  | .error e _ => .error e

end EggLang.Parse

namespace EggLang

def Stmt.listOfTokens (tokens : List Token) : Except SyntaxError (List Stmt) :=
  Parse.program (.ofTokens tokens)

def Stmt.ofTokens (tokens : List Token) : Except SyntaxError Stmt :=
  Parse.whole (Parse.statement (.ofTokens tokens))

def Expr.ofTokens (tokens : List Token) : Except SyntaxError Expr :=
  Parse.whole (Parse.expression .lowest (.ofTokens tokens))

end EggLang
