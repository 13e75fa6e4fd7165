/-! Places in a source text and the stretches between two of them. A place knows its byte offset,
for slicing, and its line and column, for messages. -/

namespace EggLang

/-- A place between two characters: the bytes before it, its line and its column. Lines and columns
count from one, and a column counts characters. -/
structure Position where
  offset : Nat
  line : Nat
  column : Nat
deriving DecidableEq, Repr, Inhabited

namespace Position

def start : Position := ⟨0, 1, 1⟩

/-- The place after the character `c`. Only a newline starts a line. -/
def next (p : Position) (c : Char) : Position :=
  if c = '\n' then ⟨p.offset + c.utf8Size, p.line + 1, 1⟩
  else ⟨p.offset + c.utf8Size, p.line, p.column + 1⟩

def advance (p : Position) (cs : List Char) : Position := cs.foldl next p

@[simp] theorem advance_nil (p : Position) : p.advance [] = p := rfl

@[simp] theorem advance_cons (p : Position) (c : Char) (cs : List Char) :
    p.advance (c :: cs) = (p.next c).advance cs := rfl

theorem advance_append (p : Position) (cs ds : List Char) :
    p.advance (cs ++ ds) = (p.advance cs).advance ds := by
  simp [advance]

/-- Places are ordered by offset, then line, then column. -/
instance : Ord Position where
  compare p q :=
    (compare p.offset q.offset).then ((compare p.line q.line).then (compare p.column q.column))

def earlier (p q : Position) : Position := if compare q p = .lt then q else p

def later (p q : Position) : Position := if compare q p = .gt then q else p

def text (p : Position) : String := s!"{p.line}:{p.column}"

end Position

/-- A stretch of source text. -/
structure Span where
  start : Position
  stop : Position
deriving DecidableEq, Repr, Inhabited

namespace Span

/-- The span before any text. -/
def nowhere : Span := ⟨⟨0, 0, 0⟩, ⟨0, 0, 0⟩⟩

def empty (p : Position) : Span := ⟨p, p⟩

/-- The least span around two. -/
def join (s t : Span) : Span := ⟨s.start.earlier t.start, s.stop.later t.stop⟩

end Span

end EggLang
