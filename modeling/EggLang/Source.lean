import EggLang.Lexeme

/-! Source text on its way into tokens. A source is a place and the text that is left after it.
`next` takes one token off, and `tokens` all of them. -/

namespace EggLang

/-- No lexeme starts with `character`, which stands at `position`. -/
structure LexError where
  position : Position
  character : Char
deriving DecidableEq, Repr

def LexError.message (e : LexError) : String :=
  s!"Unexpected character '{e.character}' at offset {e.position.offset} ({e.position.text})"

/-- The text that is left of a source, and the place where it starts. -/
structure Source where
  position : Position
  rest : List Char
deriving DecidableEq, Repr

namespace Source

def ofString (text : String) : Source := ⟨.start, text.toList⟩

/-- The source after its first `n` characters. -/
def skip (s : Source) (n : Nat) : Source := ⟨s.position.advance (s.rest.take n), s.rest.drop n⟩

/-- The next token, or the error that stops the source, and the source after it. Blanks and comments
before the token are passed over, before an error too. At its end a source keeps giving the token
`endOfFile`. -/
def next (s : Source) : Except LexError Token × Source :=
  match _hs : s.rest with
  | [] => (.ok (.endOfFile s.position), s)
  | c :: _ =>
    match _hr : Lexeme.recognize? s.rest with
    | none => (.error ⟨s.position, c⟩, s)
    | some (.token kind, n) =>
      let text := Lexeme.tokenText kind (s.rest.take n)
      (.ok ⟨kind, text, ⟨s.position, (s.skip n).position⟩⟩, s.skip n)
    | some (.blank, n) => (s.skip n).next
    | some (.comment, n) => (s.skip n).next
termination_by s.rest.length
decreasing_by
  all_goals
    have := Lexeme.recognize?_pos _hr
    simp [skip, _hs]
    omega

theorem skip_length_le (s : Source) (n : Nat) : (s.skip n).rest.length ≤ s.rest.length := by
  simp [skip]

/-- A token that is not the last one takes text with it. -/
theorem next_length_lt {s after : Source} {t : Token} (h : s.next = (.ok t, after))
    (hk : t.kind ≠ .endOfFile) : after.rest.length < s.rest.length := by
  fun_induction next s with
  | case1 s hs => cases h; exact absurd rfl hk
  | case2 => exact nomatch h
  | case3 s c cs hs kind n hr text =>
    have := Lexeme.recognize?_pos hr
    cases h
    simp [skip, hs]
    omega
  | case4 s c cs hs n hr ih => exact Nat.lt_of_lt_of_le (ih h) (skip_length_le s n)
  | case5 s c cs hs n hr ih => exact Nat.lt_of_lt_of_le (ih h) (skip_length_le s n)

/-- All tokens up to and including the token `endOfFile`, or the first error. -/
def tokens (s : Source) : Except LexError (List Token) :=
  match _h : s.next with
  | (.error e, _) => .error e
  | (.ok t, after) =>
    if _hk : t.kind = .endOfFile then .ok [t]
    else after.tokens.map (t :: ·)
termination_by s.rest.length
decreasing_by exact next_length_lt _h _hk

end Source

/-- The tokens of a text, the last of which is the only `endOfFile`. -/
def tokenize (text : String) : Except LexError (List Token) := (Source.ofString text).tokens

/-- The tokens of a source one after the other. After the token `endOfFile` or an error there is
nothing more. -/
structure TokenStream where
  source : Source
  finished : Bool

namespace TokenStream

def ofString (text : String) : TokenStream := ⟨.ofString text, false⟩

def next (s : TokenStream) : Option (Except LexError Token) × TokenStream :=
  if s.finished then (none, s)
  else
    match s.source.next with
    | (.ok t, after) => (some (.ok t), ⟨after, decide (t.kind = .endOfFile)⟩)
    | (.error e, after) => (some (.error e), ⟨after, true⟩)

end TokenStream

end EggLang
