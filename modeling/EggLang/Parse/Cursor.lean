import EggLang.SyntaxError

/-! Cursors into a list of tokens, and the replies of the parsing functions. A reply that is not an
error has taken at least one token off the cursor, which is what lets the functions recurse. -/

namespace EggLang.Parse

/-- The tokens ahead of a place in a token list, and the span of the token behind it. -/
structure Cursor where
  ahead : List Token
  behind : Span
deriving DecidableEq, Repr

namespace Cursor

def ofTokens (tokens : List Token) : Cursor := ⟨tokens, .nowhere⟩

def size (c : Cursor) : Nat := c.ahead.length

/-- The token ahead. After the last token it is `endOfFile`, where the last token ends. -/
def current (c : Cursor) : Token := c.ahead.head?.getD (.endOfFile c.behind.stop)

/-- The cursor behind the token ahead. -/
def advance (c : Cursor) : Cursor := ⟨c.ahead.tail, c.current.span⟩

def at? (c : Cursor) (kind : TokenKind) (text : String) : Bool := c.current.is kind text

def atEnd (c : Cursor) : Bool := decide (c.current.kind = .endOfFile)

theorem advance_size_lt {c : Cursor} (h : c.current.kind ≠ .endOfFile) :
    c.advance.size < c.size := by
  obtain ⟨ahead, behind⟩ := c
  cases ahead with
  | nil => exact absurd rfl h
  | cons t rest => simp [advance, size]

theorem advance_size_le (c : Cursor) : c.advance.size ≤ c.size := by
  simp [advance, size]

theorem advance_size_le_succ (c : Cursor) : c.advance.size ≤ c.size + 1 :=
  Nat.le_succ_of_le c.advance_size_le

theorem size_lt_succ (c : Cursor) : c.size < c.size + 1 := Nat.lt_succ_self _

theorem kind_of_at? {c : Cursor} {kind : TokenKind} {text : String}
    (h : c.at? kind text = true) : c.current.kind = kind := by
  simp only [at?, Token.is, Bool.and_eq_true, decide_eq_true_eq] at h
  exact h.1

def failure (c : Cursor) (expected : Expectation) : SyntaxError :=
  ⟨expected, .token c.current, c.current.span⟩

end Cursor

/-- What a parsing function returns: a result with the cursor behind it, which has fewer than
`bound` tokens ahead, or an error with the cursor where it arose. -/
inductive Reply (bound : Nat) (α : Type)
  | ok (value : α) (rest : Cursor) (shorter : rest.size < bound)
  | error (e : SyntaxError) (rest : Cursor)

namespace Reply

variable {α β : Type} {m n : Nat}

def mono (h : m ≤ n) : Reply m α → Reply n α
  | ok value rest shorter => ok value rest (Nat.lt_of_lt_of_le shorter h)
  | error e rest => error e rest

/-- A reply with its result computed from the one before and the cursor behind it. -/
def map (r : Reply n α) (f : α → Cursor → β) : Reply n β :=
  match r with
  | ok value rest shorter => ok (f value rest) rest shorter
  | error e rest => error e rest

/-- Goes on behind a result with something that takes a token or more. -/
def andThen (r : Reply n α) (f : α → (rest : Cursor) → rest.size < n → Reply rest.size β) :
    Reply n β :=
  match r with
  | ok value rest shorter => (f value rest shorter).mono (Nat.le_of_lt shorter)
  | error e rest => error e rest

/-- Goes on behind a result with something that may take no token. -/
def andMaybe (r : Reply n α)
    (f : α → (rest : Cursor) → rest.size < n → Reply (rest.size + 1) β) : Reply n β :=
  match r with
  | ok value rest shorter => (f value rest shorter).mono shorter
  | error e rest => error e rest

def toExcept : Reply n α → Except SyntaxError α
  | ok value _ _ => .ok value
  | error e _ => .error e

/-- The cursor behind the result, or where the error arose. -/
def rest : Reply n α → Cursor
  | ok _ rest _ => rest
  | error _ rest => rest

@[simp] theorem toExcept_mono (h : m ≤ n) (r : Reply m α) : (r.mono h).toExcept = r.toExcept := by
  cases r <;> rfl

@[simp] theorem rest_mono (h : m ≤ n) (r : Reply m α) : (r.mono h).rest = r.rest := by
  cases r <;> rfl

end Reply

namespace Cursor

/-- Takes the punctuation ahead, which must be `text`. -/
def expect (c : Cursor) (text : String) (expected : Expectation) : Reply c.size Unit :=
  if h : c.at? .punctuation text then
    .ok () c.advance (advance_size_lt (by simp [kind_of_at? h]))
  else .error (c.failure expected) c

/-- Takes the identifier ahead, which must be one and is named in the error by `role`. -/
def identifier (c : Cursor) (role : Phrase) : Reply c.size Ident :=
  if h : c.current.kind = .identifier then
    .ok ⟨c.current.text, c.current.span⟩ c.advance (advance_size_lt (by simp [h]))
  else .error (c.failure (.identifier role)) c

def typeAhead? (c : Cursor) : Option DataType :=
  if c.current.kind = .freeKeyword then DataType.ofKeyword? c.current.text else none

theorem kind_of_typeAhead? {c : Cursor} {type : DataType} (h : c.typeAhead? = some type) :
    c.current.kind = .freeKeyword := by
  simp only [typeAhead?] at h
  split at h
  · assumption
  · exact nomatch h

def typeName (c : Cursor) : Reply c.size DataType :=
  match h : c.typeAhead? with
  | some type => .ok type c.advance (advance_size_lt (by simp [kind_of_typeAhead? h]))
  | none => .error (c.failure .typeName) c

/-- Takes the semicolon that ends a statement. -/
def terminator (c : Cursor) : Reply c.size Unit :=
  c.expect ";" (.after ";" .statement)

end Cursor

end EggLang.Parse
