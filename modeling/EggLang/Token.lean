import EggLang.Position

/-! Tokens: the words of the language, each with its kind, its text and its span. -/

namespace EggLang

/-- What kind of word a token is. A keyword starts a statement, and a free keyword is a reserved
word that stands elsewhere. -/
inductive TokenKind
  | keyword
  | freeKeyword
  | punctuation
  | operator
  | number
  | string
  | identifier
  | endOfFile
deriving DecidableEq, Repr

/-- A kind of token as messages show it. -/
def TokenKind.text : TokenKind → String
  | keyword => "keyword"
  | freeKeyword => "free keyword"
  | punctuation => "punctuation"
  | operator => "operator"
  | number => "number"
  | string => "string"
  | identifier => "identifier"
  | endOfFile => "end of file"

/-- A token. The text of a string stands without its quotes. -/
structure Token where
  kind : TokenKind
  text : String
  span : Span
deriving DecidableEq, Repr

namespace Token

def endOfFile (p : Position) : Token := ⟨.endOfFile, "", .empty p⟩

def is (t : Token) (kind : TokenKind) (text : String) : Bool :=
  decide (t.kind = kind) && decide (t.text = text)

/-- A token as messages show it. -/
def describe (t : Token) : String :=
  match t.kind with
  | .endOfFile => t.kind.text
  | .string => s!"{t.kind.text} \"{t.text}\""
  | _ => s!"{t.kind.text} `{t.text}`"

end Token

end EggLang
