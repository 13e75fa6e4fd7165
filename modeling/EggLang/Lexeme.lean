import EggLang.Text.Class
import EggLang.Token

/-! Lexemes: the stretches that source text is cut into. Each pattern looks at the start of the text
alone, and the first pattern in `patterns` that matches wins, so that a keyword is not an identifier
and `==` is not two operators. -/

namespace EggLang

/-- What a stretch of source text is. Blanks and comments separate tokens. -/
inductive Lexeme
  | token (kind : TokenKind)
  | blank
  | comment
deriving DecidableEq, Repr

/-- How many characters match at the start of a text. No match counts none. -/
abbrev Pattern := List Char → Nat

namespace Pattern

/-- Whether no word goes on at the start of `cs`. -/
def wordEnds : List Char → Bool
  | [] => true
  | c :: _ => !Text.isWord c

/-- One of `words`, not followed by a word character. -/
def reserved (words : List String) : Pattern := fun cs =>
  match words.find? fun w => w.toList.isPrefixOf cs && wordEnds (cs.drop w.toList.length) with
  | some w => w.toList.length
  | none => 0

/-- The first of `symbols` that the text starts with. -/
def symbol (symbols : List String) : Pattern := fun cs =>
  match symbols.find? fun w => w.toList.isPrefixOf cs with
  | some w => w.toList.length
  | none => 0

def run (p : Char → Bool) : Pattern := fun cs => (cs.takeWhile p).length

/-- `//` and what follows it on the line. -/
def lineComment : Pattern
  | '/' :: '/' :: cs => (cs.takeWhile (· != '\n')).length + 2
  | _ => 0

/-- How many characters there are up to the end of the first `*/`. -/
def closing? : List Char → Option Nat
  | [] => none
  | '*' :: '/' :: _ => some 2
  | _ :: cs => (closing? cs).map (· + 1)

/-- `/*` and what follows it up to the first `*/`. A comment that is not closed is no comment. -/
def blockComment : Pattern
  | '/' :: '*' :: cs =>
    match closing? cs with
    | some n => n + 2
    | none => 0
  | _ => 0

def comment : Pattern := fun cs =>
  if lineComment cs = 0 then blockComment cs else lineComment cs

/-- Digits, digits after a point, or both. A point without digits after it is left alone. -/
def number : Pattern := fun cs =>
  let whole := run Char.isDigit cs
  match cs.drop whole with
  | '.' :: rest =>
    let fraction := run Char.isDigit rest
    if fraction = 0 then whole else whole + 1 + fraction
  | _ => whole

/-- A quote and what follows it up to the next quote, over lines if need be. -/
def quoted : Pattern
  | '"' :: cs =>
    let inside := run (· != '"') cs
    if inside < cs.length then inside + 2 else 0
  | _ => 0

end Pattern

namespace Lexeme

def keywords : List String := ["print", "if", "var", "const"]

def freeKeywords : List String := ["true", "false", "else", "string", "num", "bool"]

def punctuation : List String := ["(", ")", "[", "]", "\x7b", "\x7d", ";"]

/-- The operators, a longer one before its beginnings. -/
def operators : List String :=
  ["++", "+", "-", "*", "/", "==", "!=", "!", "&", "|", ">=", "<=", ">", "<", "="]

/-- The lexemes with their patterns, in the order in which they are tried. -/
def patterns : List (Lexeme × Pattern) :=
  [(.token .keyword, .reserved keywords),
   (.token .freeKeyword, .reserved freeKeywords),
   (.blank, .run Text.isBlank),
   (.comment, .comment),
   (.token .punctuation, .symbol punctuation),
   (.token .operator, .symbol operators),
   (.token .number, .number),
   (.token .string, .quoted),
   (.token .identifier, .run Text.isWord)]

/-- The lexeme at the start of a text and its length, which is not zero. -/
def recognize? (cs : List Char) : Option (Lexeme × Nat) :=
  patterns.findSome? fun (lexeme, pattern) =>
    let n := pattern cs
    if n = 0 then none else some (lexeme, n)

theorem recognize?_pos {cs : List Char} {lexeme : Lexeme} {n : Nat}
    (h : recognize? cs = some (lexeme, n)) : 0 < n := by
  obtain ⟨⟨_, pattern⟩, _, hp⟩ := List.exists_of_findSome?_eq_some h
  simp only at hp
  split at hp
  · exact nomatch hp
  · cases hp; omega

/-- The text of a token of kind `kind` that is written as `cs`. -/
def tokenText (kind : TokenKind) (cs : List Char) : String :=
  match kind with
  | .string => String.ofList cs.tail.dropLast
  | _ => String.ofList cs

end Lexeme

end EggLang
