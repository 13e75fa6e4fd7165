import EggLang.Parse.Statement

/-! What the parsing functions do where they succeed. `Takes` says which tokens lie between two
cursors, and `Gives` what a reply holds, without the bound on what is left. Each parsing function
has one lemma here that says when it gives what. -/

namespace EggLang.Parse

/-- The tokens that a parser can see: those before the first `endOfFile`. -/
def visible (tokens : List Token) : List Token :=
  tokens.takeWhile fun t => decide (t.kind ≠ .endOfFile)

@[simp] theorem visible_cons {t : Token} (h : t.kind ≠ .endOfFile) (ts : List Token) :
    visible (t :: ts) = t :: visible ts :=
  List.takeWhile_cons_of_pos (by simpa using h)

theorem visible_eq_self {ts : List Token} (h : ∀ t ∈ ts, t.kind ≠ .endOfFile) :
    visible ts = ts := by
  induction ts with
  | nil => rfl
  | cons t ts ih =>
    rw [List.forall_mem_cons] at h
    rw [visible_cons h.1, ih h.2]

theorem visible_append_endOfFile {ts : List Token} (h : ∀ t ∈ ts, t.kind ≠ .endOfFile)
    (p : Position) : visible (ts ++ [.endOfFile p]) = ts := by
  rw [visible, List.takeWhile_append_of_pos (by simpa using h)]
  exact List.append_nil ts

theorem mem_of_mem_visible {t : Token} {ts : List Token} (h : t ∈ visible ts) :
    t ∈ ts ∧ t.kind ≠ .endOfFile :=
  ⟨(List.takeWhile_prefix _).subset h, by simpa using List.all_eq_true.mp List.all_takeWhile t h⟩

theorem kind_of_is {t : Token} {kind : TokenKind} {text : String} (h : t.is kind text = true) :
    t.kind = kind := by
  simp only [Token.is, Bool.and_eq_true, decide_eq_true_eq] at h
  exact h.1

namespace Cursor

/-- Taking `ts` off the first cursor, token by token, leads to the second. -/
def Takes : Cursor → List Token → Cursor → Prop
  | c, [], c' => c = c'
  | c, t :: ts, c' => c.current = t ∧ t.kind ≠ .endOfFile ∧ Takes c.advance ts c'

@[simp] theorem takes_nil {c c' : Cursor} : c.Takes [] c' ↔ c = c' := Iff.rfl

@[simp] theorem takes_cons {c c' : Cursor} {t : Token} {ts : List Token} :
    c.Takes (t :: ts) c' ↔ c.current = t ∧ t.kind ≠ .endOfFile ∧ c.advance.Takes ts c' := Iff.rfl

@[simp] theorem takes_append {c c' : Cursor} {ts us : List Token} :
    c.Takes (ts ++ us) c' ↔ ∃ m, c.Takes ts m ∧ m.Takes us c' := by
  induction ts generalizing c with
  | nil => simp
  | cons t ts ih => simp [ih, and_assoc]

theorem Takes.append {c m c' : Cursor} {ts us : List Token} (h1 : c.Takes ts m)
    (h2 : m.Takes us c') : c.Takes (ts ++ us) c' :=
  takes_append.mpr ⟨m, h1, h2⟩

theorem Takes.kind_ne {c c' : Cursor} {ts : List Token} (h : c.Takes ts c') :
    ∀ t ∈ ts, t.kind ≠ .endOfFile := by
  induction ts generalizing c with
  | nil => exact nofun
  | cons t ts ih =>
    obtain ⟨-, hk, h⟩ := h
    exact List.forall_mem_cons.mpr ⟨hk, ih h⟩

/-- The token ahead, where there is one to see. -/
theorem takes_current {c : Cursor} (h : c.current.kind ≠ .endOfFile) :
    c.Takes [c.current] c.advance :=
  ⟨rfl, h, rfl⟩

theorem visible_of_current {c : Cursor} (h : c.current.kind ≠ .endOfFile) :
    visible c.ahead = c.current :: visible c.advance.ahead := by
  obtain ⟨ahead, behind⟩ := c
  cases ahead with
  | nil => exact absurd rfl h
  | cons t rest => exact visible_cons h rest

theorem Takes.visible {c c' : Cursor} {ts : List Token} (h : c.Takes ts c') :
    visible c.ahead = ts ++ visible c'.ahead := by
  induction ts generalizing c with
  | nil => cases h; rfl
  | cons t ts ih =>
    obtain ⟨rfl, hk, h⟩ := h
    rw [visible_of_current hk, ih h, List.cons_append]

/-- Behind a cursor stands the last token that was taken. -/
theorem Takes.behind_eq {c c' : Cursor} {ts : List Token} (h : c.Takes ts c') {u : Token}
    (hu : u ∈ ts.getLast?) : c'.behind = u.span := by
  induction ts generalizing c with
  | nil => exact nomatch hu
  | cons t ts ih =>
    obtain ⟨rfl, -, h⟩ := h
    cases ts with
    | nil =>
      obtain rfl : c.advance = c' := h
      obtain rfl : c.current = u := by simpa using hu
      rfl
    | cons t' ts => exact ih h (by simpa using hu)

theorem atEnd_iff {c : Cursor} : c.atEnd = true ↔ Parse.visible c.ahead = [] := by
  obtain ⟨ahead, behind⟩ := c
  cases ahead with
  | nil => simp [atEnd, current, Parse.visible, Token.endOfFile]
  | cons t rest => by_cases h : t.kind = .endOfFile <;> simp [atEnd, current, Parse.visible, h]

theorem Takes.visible_eq {c c' : Cursor} {ts : List Token} (h : c.Takes ts c')
    (hend : c'.atEnd = true) : Parse.visible c.ahead = ts := by
  rw [h.visible, atEnd_iff.mp hend, List.append_nil]

/-- All that is visible can be taken, which leads to the end. -/
theorem exists_takes_visible (c : Cursor) :
    ∃ c', c.Takes (Parse.visible c.ahead) c' ∧ c'.atEnd = true := by
  obtain ⟨ahead, behind⟩ := c
  induction ahead generalizing behind with
  | nil => exact ⟨_, rfl, rfl⟩
  | cons t rest ih =>
    by_cases h : t.kind = .endOfFile
    · exact ⟨⟨t :: rest, behind⟩, by simp [Parse.visible, h], by simp [atEnd, current, h]⟩
    · obtain ⟨c', hc, hend⟩ := ih t.span
      refine ⟨c', ?_, hend⟩
      rw [visible_of_current (c := ⟨t :: rest, behind⟩) h]
      exact ⟨rfl, h, hc⟩

end Cursor

/-! ### Replies without their bounds -/

namespace Reply

variable {α β : Type} {m n : Nat}

/-- The reply is the result `a`, with `c` behind it. -/
def Gives (r : Reply n α) (a : α) (c : Cursor) : Prop := ∃ h, r = .ok a c h

theorem Gives.size_lt {r : Reply n α} {a : α} {c : Cursor} (h : r.Gives a c) : c.size < n := h.1

@[simp] theorem gives_ok {a b : α} {c c' : Cursor} {h : c.size < n} :
    (ok a c h).Gives b c' ↔ a = b ∧ c = c' := by
  constructor
  · rintro ⟨_, h⟩
    cases h
    exact ⟨rfl, rfl⟩
  · rintro ⟨rfl, rfl⟩
    exact ⟨h, rfl⟩

@[simp] theorem not_gives_error {e : SyntaxError} {a : α} {c c' : Cursor} :
    ¬(error e c : Reply n α).Gives a c' := fun h => nomatch h.2

@[simp] theorem gives_mono {h : m ≤ n} {r : Reply m α} {a : α} {c : Cursor} :
    (r.mono h).Gives a c ↔ r.Gives a c := by
  cases r <;> simp [mono]

@[simp] theorem gives_map {r : Reply n α} {f : α → Cursor → β} {b : β} {c : Cursor} :
    (r.map f).Gives b c ↔ ∃ a, r.Gives a c ∧ f a c = b := by
  cases r with
  | ok a c' h =>
    simp only [map, gives_ok]
    constructor
    · rintro ⟨rfl, rfl⟩
      exact ⟨a, ⟨rfl, rfl⟩, rfl⟩
    · rintro ⟨_, ⟨rfl, rfl⟩, rfl⟩
      exact ⟨rfl, rfl⟩
  | error e c' => simp [map]

@[simp] theorem gives_andThen {r : Reply n α}
    {f : α → (rest : Cursor) → rest.size < n → Reply rest.size β} {b : β} {c : Cursor} :
    (r.andThen f).Gives b c ↔ ∃ a m, ∃ h : r.Gives a m, (f a m h.size_lt).Gives b c := by
  cases r with
  | ok a m h =>
    simp only [andThen, gives_mono, gives_ok]
    constructor
    · intro hf
      exact ⟨a, m, ⟨rfl, rfl⟩, hf⟩
    · rintro ⟨_, _, ⟨rfl, rfl⟩, hf⟩
      exact hf
  | error e c' => simp [andThen]

@[simp] theorem gives_andMaybe {r : Reply n α}
    {f : α → (rest : Cursor) → rest.size < n → Reply (rest.size + 1) β} {b : β} {c : Cursor} :
    (r.andMaybe f).Gives b c ↔ ∃ a m, ∃ h : r.Gives a m, (f a m h.size_lt).Gives b c := by
  cases r with
  | ok a m h =>
    simp only [andMaybe, gives_mono, gives_ok]
    constructor
    · intro hf
      exact ⟨a, m, ⟨rfl, rfl⟩, hf⟩
    · rintro ⟨_, _, ⟨rfl, rfl⟩, hf⟩
      exact hf
  | error e c' => simp [andMaybe]

end Reply

namespace Cursor

@[simp] theorem expect_gives {c c' : Cursor} {text : String} {expected : Expectation} {u : Unit} :
    (c.expect text expected).Gives u c' ↔
      c.at? .punctuation text = true ∧ c.advance = c' := by
  unfold expect
  split <;> simp [*]

@[simp] theorem identifier_gives {c c' : Cursor} {role : Phrase} {id : Ident} :
    (c.identifier role).Gives id c' ↔
      c.current.kind = .identifier ∧ ⟨c.current.text, c.current.span⟩ = id ∧ c.advance = c' := by
  unfold identifier
  split <;> simp [*]

@[simp] theorem typeName_gives {c c' : Cursor} {type : DataType} :
    c.typeName.Gives type c' ↔ c.typeAhead? = some type ∧ c.advance = c' := by
  unfold typeName
  split <;> simp [*]

@[simp] theorem terminator_gives {c c' : Cursor} {u : Unit} :
    c.terminator.Gives u c' ↔ c.at? .punctuation ";" = true ∧ c.advance = c' :=
  expect_gives

end Cursor

/-! ### Expressions -/

/-- No operator binds above `floor` at the cursor, so that an expression ends there. -/
def Cursor.Stops (c : Cursor) (floor : Precedence) : Prop :=
  ∀ op, Operator.ofToken? c.current = some op → op.bindsAbove floor = false

theorem primary_gives {c c' : Cursor} {e : Expr} : (primary c).Gives e c' ↔
    (∃ m, c.at? .punctuation "(" = true ∧ (expression .lowest c.advance).Gives e m ∧
      m.at? .punctuation ")" = true ∧ m.advance = c') ∨
    (c.at? .punctuation "(" = false ∧ atom c.current = .ok e ∧ c.advance = c') := by
  rw [primary]
  by_cases hp : c.at? .punctuation "(" = true
  · simp only [hp, ↓reduceDIte, Reply.gives_mono, Reply.gives_andThen, Reply.gives_map,
      Cursor.expect_gives]
    constructor
    · rintro ⟨inner, m, h, _, ⟨hc, rfl⟩, rfl⟩
      exact .inl ⟨m, trivial, h, hc, rfl⟩
    · rintro (⟨m, -, h, hc, rfl⟩ | ⟨h, -⟩)
      · exact ⟨e, m, h, (), ⟨hc, rfl⟩, rfl⟩
      · cases h
  · simp only [hp, Bool.false_eq_true, ↓reduceDIte]
    split <;> simp [*]

theorem expression_gives {floor : Precedence} {c c' : Cursor} {e : Expr} :
    (expression floor c).Gives e c' ↔
      (∃ op operand m, UnaryOp.ofToken? c.current = some op ∧
        (expression .unary c.advance).Gives operand m ∧
        (extend floor (.unary op operand (c.current.span.join m.behind)) m).Gives e c') ∨
      (UnaryOp.ofToken? c.current = none ∧
        ∃ lhs m, (primary c).Gives lhs m ∧ (extend floor lhs m).Gives e c') := by
  rw [expression]
  split <;> simp [*]

/-- An expression ends where no operator binds, or it goes on with an operator and its right
side. -/
theorem extend_gives {floor : Precedence} {lhs : Expr} {c c' : Cursor} {e : Expr} :
    (extend floor lhs c).Gives e c' ↔
      (c.Stops floor ∧ lhs = e ∧ c = c') ∨
      (∃ op rhs m, Operator.ofToken? c.current = some (.binary op) ∧
        (Operator.binary op).bindsAbove floor = true ∧
        (expression (Operator.binary op).precedence c.advance).Gives rhs m ∧
        (extend floor (.binary op lhs rhs (lhs.span.join m.behind)) m).Gives e c') ∨
      (∃ target rhs m, lhs = .var target ∧ Operator.ofToken? c.current = some .assignment ∧
        Operator.assignment.bindsAbove floor = true ∧
        (expression .assignment c.advance).Gives rhs m ∧
        (extend floor (.assign target rhs (lhs.span.join m.behind)) m).Gives e c') := by
  rw [extend]
  split
  · rename_i h
    simp [Cursor.Stops, h]
  · rename_i op h
    by_cases hb : op.bindsAbove floor = true
    · have hs : ¬c.Stops floor := fun hs => by simp [hs op h] at hb
      simp only [hb, ↓reduceIte, Reply.gives_mono, Reply.gives_andMaybe, hs, false_and, false_or]
      cases op with
      | binary op => simp [h, hb]
      | assignment =>
        simp only [h, hb]
        cases lhs <;> simp [Operator.precedence]
    · have hs : c.Stops floor := fun op' h' => by
        cases h.symm.trans h'
        simpa using hb
      constructor
      · intro he
        exact .inl (by simpa [hb, hs] using he)
      · rintro (⟨-, rfl, rfl⟩ | ⟨op', _, _, h', hb', -⟩ | ⟨_, _, _, -, h', hb', -⟩)
        · simp [hb]
        · cases h.symm.trans h'
          exact absurd hb' hb
        · cases h.symm.trans h'
          exact absurd hb' hb

/-! ### Statements -/

theorem Cursor.at?_iff {c : Cursor} {kind : TokenKind} {text : String} :
    c.at? kind text = true ↔ c.current.kind = kind ∧ c.current.text = text := by
  simp [Cursor.at?, Token.is]

theorem initializer_gives {c c' : Cursor} {value : Option Expr} :
    (initializer c).Gives value c' ↔
      (c.at? .operator "=" = true ∧
        ∃ e, (expression .lowest c.advance).Gives e c' ∧ some e = value) ∨
      (c.at? .operator "=" = false ∧ none = value ∧ c = c') := by
  unfold initializer
  split <;> simp [*]

theorem declaring_gives {isConstant : Bool} {id : Ident} {type : DataType} {c c' : Cursor}
    {place : Unplaced} : (declaring isConstant id type c).Gives place c' ↔
      ∃ value m, (initializer c).Gives value m ∧ (isConstant = true → value.isSome = true) ∧
        m.at? .punctuation ";" = true ∧ m.advance = c' ∧
        Stmt.declare ⟨id, type, isConstant, value⟩ = place := by
  simp only [declaring, Reply.gives_andThen, exists_prop]
  refine exists_congr fun value => exists_congr fun m => and_congr_right fun _ => ?_
  by_cases hc : isConstant = true ∧ value = none
  · obtain ⟨rfl, rfl⟩ := hc
    simp
  · have hc' : (isConstant && value.isNone) = false := by
      cases isConstant <;> cases value <;> simp_all
    have hs : isConstant = true → value.isSome = true := fun h =>
      Option.isSome_iff_ne_none.mpr fun hv => hc ⟨h, hv⟩
    simp only [hc', Bool.false_eq_true, ↓reduceIte, Reply.gives_map, Cursor.terminator_gives,
      exists_const, and_assoc]
    exact (and_iff_right hs).symm

theorem bracketed_gives {c c' : Cursor} {id : Ident} {type : DataType} :
    (bracketed c).Gives (id, type) c' ↔
      c.current.kind = .identifier ∧ ⟨c.current.text, c.current.span⟩ = id ∧
      c.advance.at? .punctuation "[" = true ∧ c.advance.advance.typeAhead? = some type ∧
      c.advance.advance.advance.at? .punctuation "]" = true ∧
      c.advance.advance.advance.advance = c' := by
  simp only [bracketed, Reply.gives_andThen, Reply.gives_map, Cursor.identifier_gives,
    Cursor.expect_gives, Cursor.typeName_gives, exists_prop]
  constructor
  · rintro ⟨_, _, ⟨hk, rfl, rfl⟩, _, _, ⟨hl, rfl⟩, _, _, ⟨ht, rfl⟩, _, ⟨hr, rfl⟩, ⟨⟩⟩
    exact ⟨hk, rfl, hl, ht, hr, rfl⟩
  · rintro ⟨hk, rfl, hl, ht, hr, rfl⟩
    exact ⟨_, _, ⟨hk, rfl, rfl⟩, (), _, ⟨hl, rfl⟩, _, _, ⟨ht, rfl⟩, (), ⟨hr, rfl⟩, rfl⟩

theorem typeFirst_gives {c c' : Cursor} {id : Ident} {type : DataType} :
    (typeFirst c).Gives (id, type) c' ↔
      c.typeAhead? = some type ∧ c.advance.current.kind = .identifier ∧
      ⟨c.advance.current.text, c.advance.current.span⟩ = id ∧ c.advance.advance = c' := by
  simp only [typeFirst, Reply.gives_andThen, Reply.gives_map, Cursor.identifier_gives,
    Cursor.typeName_gives, exists_prop]
  constructor
  · rintro ⟨_, _, ⟨ht, rfl⟩, _, ⟨hk, rfl, rfl⟩, ⟨⟩⟩
    exact ⟨ht, hk, rfl, rfl⟩
  · rintro ⟨ht, hk, rfl, rfl⟩
    exact ⟨_, _, ⟨ht, rfl⟩, _, ⟨hk, rfl, rfl⟩, rfl⟩

/-- The two forms of a declaration are told apart by the first token. -/
theorem constant_gives {c c' : Cursor} {place : Unplaced} : (constant c).Gives place c' ↔
    ∃ id type m, ((bracketed c).Gives (id, type) m ∨ (typeFirst c).Gives (id, type) m) ∧
      (declaring true id type m).Gives place c' := by
  simp only [constant, Reply.gives_andMaybe, exists_prop, Prod.exists]
  refine exists_congr fun id => exists_congr fun type => exists_congr fun m =>
    and_congr_left fun _ => ?_
  by_cases hk : c.current.kind = .identifier
  · have ht : ¬(typeFirst c).Gives (id, type) m := by
      simp [typeFirst_gives, Cursor.typeAhead?, hk]
    simp [hk, ht]
  · simp [hk, bracketed_gives]

theorem printing_gives {c c' : Cursor} {place : Unplaced} : (printing c).Gives place c' ↔
    c.at? .punctuation "(" = true ∧ ∃ e m, (expression .lowest c.advance).Gives e m ∧
      m.at? .punctuation ")" = true ∧ m.advance.at? .punctuation ";" = true ∧
      m.advance.advance = c' ∧ Stmt.print e = place := by
  simp only [printing, Reply.gives_andThen, Reply.gives_map, Cursor.expect_gives,
    Cursor.terminator_gives, exists_prop]
  constructor
  · rintro ⟨_, _, ⟨hl, rfl⟩, e, m, he, _, _, ⟨hr, rfl⟩, _, ⟨hs, rfl⟩, hp⟩
    exact ⟨hl, e, m, he, hr, hs, rfl, hp⟩
  · rintro ⟨hl, e, m, he, hr, hs, rfl, hp⟩
    exact ⟨(), _, ⟨hl, rfl⟩, e, m, he, (), _, ⟨hr, rfl⟩, (), ⟨hs, rfl⟩, hp⟩

theorem assignment_gives {c c' : Cursor} {place : Unplaced} : (assignment c).Gives place c' ↔
    ∃ e m, (expression .lowest c).Gives e m ∧
      ((∃ target value span, e = .assign target value span ∧ m.at? .punctuation ";" = true ∧
        m.advance = c' ∧ Stmt.assign target value = place) ∨
      (∃ id, e = .var id ∧ m.at? .operator "++" = true ∧
        m.advance.at? .punctuation ";" = true ∧ m.advance.advance = c' ∧
        Stmt.assign id (increment id m.current.span) = place)) := by
  simp only [assignment, Reply.gives_andThen, exists_prop]
  refine exists_congr fun e => exists_congr fun m => and_congr_right fun _ => ?_
  cases e with
  | assign target value span => simp [and_assoc]
  | var id =>
    by_cases hop : m.at? .operator "++" = true
    · simp [hop, and_assoc]
    · simp [hop]
  | _ => simp

theorem alternative_gives {c c' : Cursor} {otherwise : Option (List Stmt)} :
    (alternative c).Gives otherwise c' ↔
      (c.at? .freeKeyword "else" = true ∧
        ∃ body, (branch c.advance).Gives body c' ∧ some body = otherwise) ∨
      (c.at? .freeKeyword "else" = false ∧ none = otherwise ∧ c = c') := by
  rw [alternative]
  split <;> simp [*]

theorem branch_gives {c c' : Cursor} {body : List Stmt} : (branch c).Gives body c' ↔
    (c.at? .punctuation "\x7b" = true ∧ (items c.advance).Gives body c') ∨
    (c.at? .punctuation "\x7b" = false ∧ ∃ s, (statement c).Gives s c' ∧ [s] = body) := by
  rw [branch]
  split <;> simp [*]

theorem items_gives {c c' : Cursor} {body : List Stmt} : (items c).Gives body c' ↔
    (c.at? .punctuation "\x7d" = true ∧ [] = body ∧ c.advance = c') ∨
    (c.at? .punctuation "\x7d" = false ∧ c.atEnd = false ∧ ∃ s m rest, (statement c).Gives s m ∧
      (items m).Gives rest c' ∧ s :: rest = body) := by
  rw [items]
  split
  · simp [*]
  · split
    · simp [*]
    · simp [*]

/-- No statement that starts with a word or a brace starts at the cursor. -/
def Cursor.Unmarked (c : Cursor) : Prop :=
  c.at? .keyword "print" = false ∧ c.at? .keyword "if" = false ∧ c.at? .keyword "var" = false ∧
  c.at? .keyword "const" = false ∧ c.typeAhead? = none ∧ c.at? .punctuation "\x7b" = false

theorem statement_gives {c c' : Cursor} {s : Stmt} : (statement c).Gives s c' ↔
    ∃ place : Unplaced, place (c.current.span.join c'.behind) = s ∧
      ((c.at? .keyword "print" = true ∧ (printing c.advance).Gives place c') ∨
      (c.at? .keyword "if" = true ∧ ∃ condition k,
        (expression .lowest c.advance).Gives condition k ∧ ∃ body m, (branch k).Gives body m ∧
        ∃ otherwise, (alternative m).Gives otherwise c' ∧
        Stmt.ifElse condition body otherwise = place) ∨
      (c.at? .keyword "var" = true ∧ ∃ id type m, (bracketed c.advance).Gives (id, type) m ∧
        (declaring false id type m).Gives place c') ∨
      (c.at? .keyword "const" = true ∧ (constant c.advance).Gives place c') ∨
      (c.typeAhead?.isSome = true ∧ ∃ id type m, (typeFirst c).Gives (id, type) m ∧
        (declaring false id type m).Gives place c') ∨
      (c.at? .punctuation "\x7b" = true ∧ ∃ body, (items c.advance).Gives body c' ∧
        Stmt.block body = place) ∨
      (c.Unmarked ∧ (assignment c).Gives place c')) := by
  rw [statement]
  simp only [Reply.gives_map, @and_comm _ (_ = s)]
  refine exists_congr fun place => and_congr_right fun _ => ?_
  by_cases h1 : c.at? .keyword "print" = true
  · obtain ⟨hk, ht⟩ := Cursor.at?_iff.mp h1
    simp [Cursor.at?, Token.is, Cursor.typeAhead?, Cursor.Unmarked, hk, ht]
  by_cases h2 : c.at? .keyword "if" = true
  · obtain ⟨hk, ht⟩ := Cursor.at?_iff.mp h2
    simp [Cursor.at?, Token.is, Cursor.typeAhead?, Cursor.Unmarked, hk, ht]
  by_cases h3 : c.at? .keyword "var" = true
  · obtain ⟨hk, ht⟩ := Cursor.at?_iff.mp h3
    simp [Cursor.at?, Token.is, Cursor.typeAhead?, Cursor.Unmarked, hk, ht]
  by_cases h4 : c.at? .keyword "const" = true
  · obtain ⟨hk, ht⟩ := Cursor.at?_iff.mp h4
    simp [Cursor.at?, Token.is, Cursor.typeAhead?, Cursor.Unmarked, hk, ht]
  by_cases h5 : c.typeAhead?.isSome = true
  · obtain ⟨type, ht⟩ := Option.isSome_iff_exists.mp h5
    have hk := Cursor.kind_of_typeAhead? ht
    simp [ht, Cursor.at?, Token.is, Cursor.Unmarked, hk]
  by_cases h6 : c.at? .punctuation "\x7b" = true
  · simp [h1, h2, h3, h4, h5, h6, Cursor.Unmarked]
  · have h5' : c.typeAhead? = none := by simpa using h5
    simp [h1, h2, h3, h4, h5', h6, Cursor.Unmarked]

theorem program_eq_ok_iff {c : Cursor} {body : List Stmt} : program c = .ok body ↔
    (c.atEnd = true ∧ [] = body) ∨
    (c.atEnd = false ∧ ∃ s m, (statement c).Gives s m ∧
      ∃ rest, program m = .ok rest ∧ s :: rest = body) := by
  rw [program]
  split
  · simp [*]
  · rename_i hend
    cases hs : statement c with
    | error e m => simp [hend]
    | ok s m h =>
      simp only [hend, Reply.gives_ok, Bool.false_eq_true, false_and, false_or, true_and]
      constructor
      · intro hmap
        cases hp : program m with
        | error e => simp [Except.map, hp] at hmap
        | ok rest =>
          simp only [Except.map, hp, Except.ok.injEq] at hmap
          exact ⟨s, m, ⟨rfl, rfl⟩, rest, hp, hmap⟩
      · rintro ⟨_, _, ⟨rfl, rfl⟩, rest, hp, rfl⟩
        simp [Except.map, hp]

end EggLang.Parse
