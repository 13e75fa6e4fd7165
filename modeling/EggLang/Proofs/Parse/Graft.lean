import EggLang.Proofs.Grammar.Statement

/-! Parsing the same tokens elsewhere: with other spans, and before other tokens than those that
were not taken. What comes of them is the same but for its spans, as long as the other tokens do not
go on with an expression or a conditional. -/

namespace EggLang

theorem Expr.span_mapSpans (f : Span → Span) (e : Expr) : (e.mapSpans f).span = f e.span := by
  cases e <;> rfl

namespace Parse

namespace Cursor

/-- The tokens ahead but for the last `k`, with other spans and before `rest`. -/
def graft (f : Span → Span) (k : Nat) (rest : List Token) (c : Cursor) : Cursor :=
  ⟨(c.ahead.take (c.size - k)).map (Token.mapSpan f) ++ rest, f c.behind⟩

/-- The tokens ahead of `d` are those ahead of the graft of `c`. -/
def Grafts (f : Span → Span) (k : Nat) (rest : List Token) (c d : Cursor) : Prop :=
  d.ahead = (c.graft f k rest).ahead

theorem Takes.ahead_eq {c c' : Cursor} {ts : List Token} (h : c.Takes ts c') :
    c.ahead = ts ++ c'.ahead := by
  induction ts generalizing c with
  | nil =>
    cases h
    rfl
  | cons t ts ih =>
    obtain ⟨rfl, hkind, h⟩ := h
    obtain ⟨ahead, behind⟩ := c
    cases ahead with
    | nil => exact absurd rfl hkind
    | cons t rest =>
      rw [List.cons_append, ← ih h]
      rfl

variable {f : Span → Span} {k : Nat} {rest : List Token} {c d : Cursor}

theorem Grafts.of_graft : Grafts f k rest c (c.graft f k rest) := rfl

theorem Grafts.ahead_eq (h : Grafts f k rest c d) (hk : k < c.size) :
    d.ahead = c.current.mapSpan f :: (c.advance.graft f k rest).ahead := by
  obtain ⟨ahead, behind⟩ := c
  cases ahead with
  | nil => exact absurd hk (Nat.not_lt_zero k)
  | cons t ts =>
    have hsucc : ts.length + 1 - k = ts.length - k + 1 := by
      rw [size, List.length_cons] at hk
      omega
    rw [h, graft, size, List.length_cons, hsucc, List.take_succ_cons]
    rfl

theorem Grafts.current (h : Grafts f k rest c d) (hk : k < c.size) :
    d.current = c.current.mapSpan f := by
  rw [Cursor.current, h.ahead_eq hk]
  rfl

theorem Grafts.advance (h : Grafts f k rest c d) (hk : k < c.size) :
    d.advance = c.advance.graft f k rest := by
  have hcurrent := h.current hk
  rw [Cursor.advance, h.ahead_eq hk, hcurrent]
  rfl

theorem Grafts.at? (h : Grafts f k rest c d) (hk : k < c.size) (kind : TokenKind) (text : String) :
    d.at? kind text = c.at? kind text := by
  rw [Cursor.at?, h.current hk]
  rfl

theorem Grafts.typeAhead? (h : Grafts f k rest c d) (hk : k < c.size) :
    d.typeAhead? = c.typeAhead? := by
  rw [Cursor.typeAhead?, h.current hk]
  rfl

theorem Grafts.atEnd (h : Grafts f k rest c d) (hk : k < c.size) : d.atEnd = c.atEnd := by
  rw [Cursor.atEnd, h.current hk]
  rfl

theorem lt_size_of_at? {kind : TokenKind} {text : String} (h : c.at? kind text = true)
    (hk : k ≤ c.advance.size) (hkind : kind ≠ .endOfFile := by decide) : k < c.size :=
  Nat.lt_of_le_of_lt hk (Cursor.advance_size_lt (by rwa [Cursor.kind_of_at? h]))

/-- No expression and no conditional goes on with the tokens. -/
def Halting (rest : List Token) : Prop :=
  ∀ t ∈ rest.head?, t.kind ≠ .operator ∧ t.is .freeKeyword "else" = false

theorem current_of_grafts (h : Grafts f k rest c d) (hk : ¬k < c.size) (hrest : Halting rest) :
    d.current.kind ≠ .operator ∧ d.at? .freeKeyword "else" = false := by
  have hahead : d.ahead = rest := by
    rw [h, graft, Nat.sub_eq_zero_of_le (Nat.le_of_not_lt hk)]
    rfl
  rw [at?, current, hahead]
  cases rest with
  | nil => simp [Token.endOfFile, Token.is]
  | cons t rest => exact hrest t rfl

theorem stops_graft (hrest : Halting rest) {floor : Precedence} (h : c.Stops floor) :
    (c.graft f k rest).Stops floor := by
  intro op hop
  by_cases hk : k < c.size
  · rw [Grafts.of_graft.current hk] at hop
    exact h op hop
  · exact absurd (kind_of_operator? hop) (current_of_grafts .of_graft hk hrest).1

theorem graft_at_operator (hrest : Halting rest) {text : String}
    (h : c.at? .operator text = false) : (c.graft f k rest).at? .operator text = false := by
  by_cases hk : k < c.size
  · rwa [Grafts.of_graft.at? hk]
  · simp [at?, Token.is, (current_of_grafts (f := f) .of_graft hk hrest).1]

theorem graft_at_else (hrest : Halting rest) (h : c.at? .freeKeyword "else" = false) :
    (c.graft f k rest).at? .freeKeyword "else" = false := by
  by_cases hk : k < c.size
  · rwa [Grafts.of_graft.at? hk]
  · exact (current_of_grafts .of_graft hk hrest).2

end Cursor

open Cursor (Grafts Halting)

/-- What comes of the tokens behind the first one leaves fewer than there are with it. -/
theorem Reply.Gives.lt_size {α : Type} {k : Nat} {a : α} {c c' : Cursor}
    {r : Reply c.advance.size α} (h : r.Gives a c') (hk : k ≤ c'.size) : k < c.size :=
  Nat.lt_of_le_of_lt hk (Nat.lt_of_lt_of_le h.size_lt c.advance_size_le)

/-! ### Expressions -/

theorem atom_mapSpan {f : Span → Span} {t : Token} {e : Expr} (h : atom t = .ok e) :
    atom (t.mapSpan f) = .ok (e.mapSpans f) := by
  obtain ⟨kind, text, span⟩ := t
  cases kind with
  | number =>
    simp only [atom] at h
    split at h
    · rename_i x hx
      cases h
      simp [atom, Token.mapSpan, hx, Expr.mapSpans]
    · cases h
  | string =>
    cases h
    rfl
  | freeKeyword =>
    simp only [atom] at h
    split at h
    · cases h
      simp [atom, Token.mapSpan, *, Expr.mapSpans]
    · split at h
      · cases h
        simp [atom, Token.mapSpan, *, Expr.mapSpans]
      · cases h
  | identifier =>
    cases h
    rfl
  | _ => cases h

section

variable {f : Span → Span} {k : Nat} {rest : List Token}

theorem expressions_graft (hf : ∀ s t, f (s.join t) = (f s).join (f t)) (hrest : Halting rest) :
    (∀ floor c, ∀ e c', (expression floor c).Gives e c' → k ≤ c'.size →
      ∀ d, Grafts f k rest c d → (expression floor d).Gives (e.mapSpans f) (c'.graft f k rest)) ∧
    (∀ c, ∀ e c', (primary c).Gives e c' → k ≤ c'.size →
      ∀ d, Grafts f k rest c d → (primary d).Gives (e.mapSpans f) (c'.graft f k rest)) ∧
    (∀ floor lhs c, ∀ e c', (extend floor lhs c).Gives e c' → k ≤ c'.size →
      (extend floor (lhs.mapSpans f) (c.graft f k rest)).Gives (e.mapSpans f)
        (c'.graft f k rest)) := by
  -- On the recursion of the parser. Wherever it takes a token, more than `k` are ahead, and the
  -- graft has the same one. It looks at `rest` only where it stops, and there `hrest` lets it stop
  -- too.
  apply expression.mutual_induct
  case case1 =>
    intro floor c op hop _ ihOperand ihExtend e c' h hk d hd
    have hc : k < c.size := Nat.lt_of_le_of_lt hk h.size_lt
    rcases expression_gives.mp h with ⟨op', operand, m, hop', ho, he⟩ | ⟨hnone, -⟩
    · cases hop.symm.trans hop'
      have hm : k ≤ m.size := Nat.le_trans hk (Nat.le_of_lt_succ he.size_lt)
      have hoperand := ihOperand operand m ho hm _ .of_graft
      have hextend := ihExtend operand m ho.size_lt e c' he hk
      refine expression_gives.mpr (.inl ⟨op, operand.mapSpans f, m.graft f k rest, ?_, ?_, ?_⟩)
      · rwa [hd.current hc]
      · rwa [hd.advance hc]
      · rw [hd.current hc]
        rwa [Expr.mapSpans, hf] at hextend
    · cases hop.symm.trans hnone
  case case2 =>
    intro floor c hop ihPrimary ihExtend e c' h hk d hd
    have hc : k < c.size := Nat.lt_of_le_of_lt hk h.size_lt
    rcases expression_gives.mp h with ⟨op', _, _, hop', -⟩ | ⟨-, lhs, m, hp, he⟩
    · cases hop.symm.trans hop'
    · have hm : k ≤ m.size := Nat.le_trans hk (Nat.le_of_lt_succ he.size_lt)
      refine expression_gives.mpr (.inr ⟨?_, lhs.mapSpans f, m.graft f k rest,
        ihPrimary lhs m hp hm d hd, ihExtend lhs m hp.size_lt e c' he hk⟩)
      rwa [hd.current hc]
  case case3 =>
    intro c hl _ ih e c' h hk d hd
    have hc : k < c.size := Nat.lt_of_le_of_lt hk h.size_lt
    rcases primary_gives.mp h with ⟨m, -, hi, hr, rfl⟩ | ⟨hl', -⟩
    · have hm : k < m.size := Cursor.lt_size_of_at? hr hk
      refine primary_gives.mpr (.inl ⟨m.graft f k rest, ?_, ?_, ?_, Grafts.of_graft.advance hm⟩)
      · rwa [hd.at? hc]
      · rw [hd.advance hc]
        exact ih e m hi (Nat.le_of_lt hm) _ .of_graft
      · rwa [Grafts.of_graft.at? hm]
    · simp [hl] at hl'
  case case4 =>
    intro c hl e' ha e c' h hk d hd
    have hc : k < c.size := Nat.lt_of_le_of_lt hk h.size_lt
    rcases primary_gives.mp h with ⟨_, hl', -⟩ | ⟨hl', ha', rfl⟩
    · exact absurd hl' hl
    · refine primary_gives.mpr (.inr ⟨?_, ?_, hd.advance hc⟩)
      · rwa [hd.at? hc]
      · rw [hd.current hc]
        exact atom_mapSpan ha'
  case case5 =>
    intro c hl expected ha e c' h
    rcases primary_gives.mp h with ⟨_, hl', -⟩ | ⟨-, ha', -⟩
    · exact absurd hl' hl
    · cases ha.symm.trans ha'
  case case6 =>
    intro floor lhs c hop e c' h hk
    rcases extend_gives.mp h with ⟨hstop, rfl, rfl⟩ | ⟨_, _, _, hop', -⟩ | ⟨_, _, _, -, hop', -⟩
    · exact extend_gives.mpr (.inl ⟨Cursor.stops_graft hrest hstop, rfl, rfl⟩)
    · cases hop.symm.trans hop'
    · cases hop.symm.trans hop'
  case case7 =>
    intro floor lhs c op hop hfloor _ ihRhs ihBinary ihAssign e c' h hk
    rcases extend_gives.mp h with ⟨hstop, -⟩ | ⟨bop, rhs, m, hop', hb, hr, he⟩ |
      ⟨target, rhs, m, rfl, hop', hb, hr, he⟩
    · simp [hstop op hop] at hfloor
    · cases hop.symm.trans hop'
      have hm : k ≤ m.size := Nat.le_trans hk (Nat.le_of_lt_succ he.size_lt)
      have hc : k < c.size := hr.lt_size hm
      have hrhs := ihRhs rhs m hr hm _ .of_graft
      have hextend := ihBinary rhs m hr.size_lt bop lhs e c' he hk
      refine extend_gives.mpr (.inr (.inl ⟨bop, rhs.mapSpans f, m.graft f k rest, ?_, hb, ?_, ?_⟩))
      · rwa [Grafts.of_graft.current hc]
      · rwa [Grafts.of_graft.advance hc]
      · rw [Expr.span_mapSpans]
        rwa [Expr.mapSpans, hf] at hextend
    · cases hop.symm.trans hop'
      have hm : k ≤ m.size := Nat.le_trans hk (Nat.le_of_lt_succ he.size_lt)
      have hc : k < c.size := hr.lt_size hm
      have hrhs := ihRhs rhs m hr hm _ .of_graft
      have hextend := ihAssign rhs m hr.size_lt target e c' he hk
      refine extend_gives.mpr (.inr (.inr
        ⟨target.mapSpan f, rhs.mapSpans f, m.graft f k rest, rfl, ?_, hb, ?_, ?_⟩))
      · rwa [Grafts.of_graft.current hc]
      · rwa [Grafts.of_graft.advance hc]
      · rwa [Expr.mapSpans, hf] at hextend
  case case8 =>
    intro floor lhs c op hop hfloor e c' h hk
    rcases extend_gives.mp h with ⟨hstop, rfl, rfl⟩ | ⟨_, _, _, hop', hb', -⟩ |
      ⟨_, _, _, -, hop', hb', -⟩
    · exact extend_gives.mpr (.inl ⟨Cursor.stops_graft hrest hstop, rfl, rfl⟩)
    · cases hop.symm.trans hop'
      exact absurd hb' hfloor
    · cases hop.symm.trans hop'
      exact absurd hb' hfloor

/-! ### Statements without statements inside -/

/-- The statement that waits is `place'` instead of `place`, which differ in spans. -/
def MapsPlace (f : Span → Span) (place place' : Unplaced) : Prop :=
  ∀ span, (place span).mapSpans f = place' (f span)

variable (hf : ∀ s t, f (s.join t) = (f s).join (f t)) (hrest : Halting rest)

include hf hrest

theorem expression_graft {floor : Precedence} {c c' d : Cursor} {e : Expr}
    (h : (expression floor c).Gives e c') (hk : k ≤ c'.size) (hd : Grafts f k rest c d) :
    (expression floor d).Gives (e.mapSpans f) (c'.graft f k rest) :=
  (expressions_graft hf hrest).1 floor c e c' h hk d hd

theorem printing_graft {c c' d : Cursor} {place : Unplaced} (h : (printing c).Gives place c')
    (hk : k ≤ c'.size) (hd : Grafts f k rest c d) :
    ∃ place', MapsPlace f place place' ∧ (printing d).Gives place' (c'.graft f k rest) := by
  have hc : k < c.size := Nat.lt_of_le_of_lt hk h.size_lt
  obtain ⟨hl, e, m, he, hr, hs, rfl, rfl⟩ := printing_gives.mp h
  have hs' : k < m.advance.size := Cursor.lt_size_of_at? hs hk
  have hm : k < m.size := Nat.lt_of_lt_of_le hs' m.advance_size_le
  refine ⟨.print (e.mapSpans f), Stmt.mapSpans_print f e, printing_gives.mpr
    ⟨?_, e.mapSpans f, m.graft f k rest, ?_, ?_, ?_, ?_, rfl⟩⟩
  · rwa [hd.at? hc]
  · rw [hd.advance hc]
    exact expression_graft hf hrest he (Nat.le_of_lt hm) .of_graft
  · rwa [Grafts.of_graft.at? hm]
  · rwa [Grafts.of_graft.advance hm, Grafts.of_graft.at? hs']
  · rw [Grafts.of_graft.advance hm, Grafts.of_graft.advance hs']

theorem initializer_graft {c c' : Cursor} {value : Option Expr}
    (h : (initializer c).Gives value c') (hk : k ≤ c'.size) :
    (initializer (c.graft f k rest)).Gives (value.map (Expr.mapSpans f)) (c'.graft f k rest) := by
  rcases initializer_gives.mp h with ⟨hop, e, he, rfl⟩ | ⟨hop, rfl, rfl⟩
  · have hc : k < c.size := he.lt_size hk
    refine initializer_gives.mpr (.inl ⟨?_, e.mapSpans f, ?_, rfl⟩)
    · rwa [Grafts.of_graft.at? hc]
    · rw [Grafts.of_graft.advance hc]
      exact expression_graft hf hrest he hk .of_graft
  · exact initializer_gives.mpr (.inr ⟨Cursor.graft_at_operator hrest hop, rfl, rfl⟩)

theorem declaring_graft {isConstant : Bool} {id : Ident} {type : DataType} {c c' : Cursor}
    {place : Unplaced} (h : (declaring isConstant id type c).Gives place c') (hk : k ≤ c'.size) :
    ∃ place', MapsPlace f place place' ∧
      (declaring isConstant (id.mapSpan f) type (c.graft f k rest)).Gives place'
        (c'.graft f k rest) := by
  obtain ⟨value, m, hv, hc, hs, rfl, rfl⟩ := declaring_gives.mp h
  have hm : k < m.size := Cursor.lt_size_of_at? hs hk
  refine ⟨.declare ⟨id.mapSpan f, type, isConstant, value.map (Expr.mapSpans f)⟩,
    Stmt.mapSpans_declare f _, declaring_gives.mpr ⟨value.map (Expr.mapSpans f), m.graft f k rest,
      initializer_graft hf hrest hv (Nat.le_of_lt hm), ?_, ?_, ?_, rfl⟩⟩
  · rwa [Option.isSome_map]
  · rwa [Grafts.of_graft.at? hm]
  · exact Grafts.of_graft.advance hm

omit hf hrest in
theorem bracketed_graft {c c' d : Cursor} {id : Ident} {type : DataType}
    (h : (bracketed c).Gives (id, type) c') (hk : k ≤ c'.size) (hd : Grafts f k rest c d) :
    (bracketed d).Gives (id.mapSpan f, type) (c'.graft f k rest) := by
  have hc : k < c.size := Nat.lt_of_le_of_lt hk h.size_lt
  obtain ⟨hi, rfl, hl, ht, hr, rfl⟩ := bracketed_gives.mp h
  have hc₃ : k < c.advance.advance.advance.size := Cursor.lt_size_of_at? hr hk
  have hc₂ := Nat.lt_of_lt_of_le hc₃ c.advance.advance.advance_size_le
  have hc₁ := Nat.lt_of_lt_of_le hc₂ c.advance.advance_size_le
  rw [bracketed_gives, hd.current hc, hd.advance hc, Grafts.of_graft.at? hc₁,
    Grafts.of_graft.advance hc₁, Grafts.of_graft.typeAhead? hc₂, Grafts.of_graft.advance hc₂,
    Grafts.of_graft.at? hc₃, Grafts.of_graft.advance hc₃]
  exact ⟨hi, rfl, hl, ht, hr, rfl⟩

omit hf hrest in
theorem typeFirst_graft {c c' d : Cursor} {id : Ident} {type : DataType}
    (h : (typeFirst c).Gives (id, type) c') (hk : k ≤ c'.size) (hd : Grafts f k rest c d) :
    (typeFirst d).Gives (id.mapSpan f, type) (c'.graft f k rest) := by
  have hc : k < c.size := Nat.lt_of_le_of_lt hk h.size_lt
  obtain ⟨ht, hi, rfl, rfl⟩ := typeFirst_gives.mp h
  have hc₁ : k < c.advance.size :=
    Nat.lt_of_le_of_lt hk (Cursor.advance_size_lt (by simp [hi]))
  rw [typeFirst_gives, hd.typeAhead? hc, hd.advance hc, Grafts.of_graft.current hc₁,
    Grafts.of_graft.advance hc₁]
  exact ⟨ht, hi, rfl, rfl⟩

theorem constant_graft {c c' d : Cursor} {place : Unplaced} (h : (constant c).Gives place c')
    (hk : k ≤ c'.size) (hd : Grafts f k rest c d) :
    ∃ place', MapsPlace f place place' ∧ (constant d).Gives place' (c'.graft f k rest) := by
  obtain ⟨id, type, m, hhead, hdeclaring⟩ := constant_gives.mp h
  have hm : k ≤ m.size := Nat.le_trans hk (Nat.le_of_lt_succ hdeclaring.size_lt)
  obtain ⟨place', hplace, hdeclaring⟩ := declaring_graft hf hrest hdeclaring hk
  refine ⟨place', hplace, constant_gives.mpr ⟨id.mapSpan f, type, m.graft f k rest, ?_, hdeclaring⟩⟩
  exact hhead.imp (fun h => bracketed_graft h hm hd) fun h => typeFirst_graft h hm hd

theorem assignment_graft {c c' d : Cursor} {place : Unplaced}
    (h : (assignment c).Gives place c') (hk : k ≤ c'.size) (hd : Grafts f k rest c d) :
    ∃ place', MapsPlace f place place' ∧ (assignment d).Gives place' (c'.graft f k rest) := by
  obtain ⟨e, m, he, h⟩ := assignment_gives.mp h
  rcases h with ⟨target, value, span, rfl, hs, rfl, rfl⟩ | ⟨id, rfl, hop, hs, rfl, rfl⟩
  · have hm : k < m.size := Cursor.lt_size_of_at? hs hk
    refine ⟨.assign (target.mapSpan f) (value.mapSpans f), Stmt.mapSpans_assign f target value,
      assignment_gives.mpr ⟨_, m.graft f k rest,
        expression_graft hf hrest he (Nat.le_of_lt hm) hd, .inl
        ⟨target.mapSpan f, value.mapSpans f, f span, rfl, ?_, Grafts.of_graft.advance hm, rfl⟩⟩⟩
    rwa [Grafts.of_graft.at? hm]
  · have hs' : k < m.advance.size := Cursor.lt_size_of_at? hs hk
    have hm : k < m.size := Nat.lt_of_lt_of_le hs' m.advance_size_le
    refine ⟨.assign (id.mapSpan f) (increment (id.mapSpan f) (f m.current.span)), fun span => ?_,
      assignment_gives.mpr ⟨_, m.graft f k rest,
        expression_graft hf hrest he (Nat.le_of_lt hm) hd, .inr
        ⟨id.mapSpan f, rfl, ?_, ?_, ?_, ?_⟩⟩⟩
    · rw [Stmt.mapSpans_assign, increment, increment, Expr.mapSpans, hf]
      rfl
    · rwa [Grafts.of_graft.at? hm]
    · rwa [Grafts.of_graft.advance hm, Grafts.of_graft.at? hs']
    · rw [Grafts.of_graft.advance hm, Grafts.of_graft.advance hs']
    · rw [Grafts.of_graft.current hm]
      rfl

/-! ### Statements -/

omit hrest in
/-- Wherever a statement is found again without its span, its span is found again too. -/
theorem MapsPlace.placed {c c' d : Cursor} {place place' : Unplaced}
    (h : MapsPlace f place place') (hd : Grafts f k rest c d) (hc : k < c.size) :
    place' (d.current.span.join (c'.graft f k rest).behind) =
      (place (c.current.span.join c'.behind)).mapSpans f := by
  rw [h, hf, hd.current hc]
  rfl

theorem statements_graft :
    (∀ c, ∀ s c', (statement c).Gives s c' → k ≤ c'.size → ∀ d, Grafts f k rest c d →
      (statement d).Gives (s.mapSpans f) (c'.graft f k rest)) ∧
    (∀ c, ∀ body c', (items c).Gives body c' → k ≤ c'.size → ∀ d, Grafts f k rest c d →
      (items d).Gives (body.map (Stmt.mapSpans f)) (c'.graft f k rest)) ∧
    (∀ c, ∀ otherwise c', (alternative c).Gives otherwise c' → k ≤ c'.size →
      (alternative (c.graft f k rest)).Gives (otherwise.map (·.map (Stmt.mapSpans f)))
        (c'.graft f k rest)) ∧
    (∀ c, ∀ body c', (branch c).Gives body c' → k ≤ c'.size → ∀ d, Grafts f k rest c d →
      (branch d).Gives (body.map (Stmt.mapSpans f)) (c'.graft f k rest)) := by
  -- As for expressions. A conditional without an `else` is what may look at `rest` here.
  apply statement.mutual_induct
  case case1 =>
    intro c ihBranch ihAlternative ihItems s c' h hk d hd
    have hc : k < c.size := Nat.lt_of_le_of_lt hk h.size_lt
    obtain ⟨place, rfl, hplace⟩ := statement_gives.mp h
    clear h
    rcases hplace with ⟨hkey, h⟩ | ⟨hkey, condition, n, hcond, body, m, hb, otherwise, ho, rfl⟩ |
      ⟨hkey, id, type, m, hhead, h⟩ | ⟨hkey, h⟩ | ⟨hkey, id, type, m, hhead, h⟩ |
      ⟨hl, body, hb, rfl⟩ | ⟨hu, h⟩
    · obtain ⟨place', hmaps, h⟩ := printing_graft hf hrest h hk .of_graft
      refine statement_gives.mpr ⟨place', hmaps.placed hf hd hc, .inl ⟨?_, ?_⟩⟩
      · rwa [hd.at? hc]
      · rwa [hd.advance hc]
    · have hm : k ≤ m.size := Nat.le_trans hk (Nat.le_of_lt_succ ho.size_lt)
      have hn : k ≤ n.size := Nat.le_trans hm (Nat.le_of_lt hb.size_lt)
      have hmaps : MapsPlace f (.ifElse condition body otherwise)
          (.ifElse (condition.mapSpans f) (body.map (Stmt.mapSpans f))
            (otherwise.map (·.map (Stmt.mapSpans f)))) :=
        Stmt.mapSpans_ifElse f condition body otherwise
      refine statement_gives.mpr ⟨_, hmaps.placed hf hd hc, .inr (.inl ⟨?_,
        condition.mapSpans f, n.graft f k rest, ?_, body.map (Stmt.mapSpans f), m.graft f k rest,
        ihBranch hkey n hcond.size_lt body m hb hm _ .of_graft, _,
        ihAlternative hkey n hcond.size_lt m hb.size_lt otherwise c' ho hk, rfl⟩)⟩
      · rwa [hd.at? hc]
      · rw [hd.advance hc]
        exact expression_graft hf hrest hcond hn .of_graft
    · have hm : k ≤ m.size := Nat.le_trans hk (Nat.le_of_lt_succ h.size_lt)
      obtain ⟨place', hmaps, h⟩ := declaring_graft hf hrest h hk
      refine statement_gives.mpr ⟨place', hmaps.placed hf hd hc, .inr (.inr (.inl
        ⟨?_, id.mapSpan f, type, m.graft f k rest, ?_, h⟩))⟩
      · rwa [hd.at? hc]
      · rw [hd.advance hc]
        exact bracketed_graft hhead hm .of_graft
    · obtain ⟨place', hmaps, h⟩ := constant_graft hf hrest h hk .of_graft
      refine statement_gives.mpr ⟨place', hmaps.placed hf hd hc, .inr (.inr (.inr (.inl ⟨?_, ?_⟩)))⟩
      · rwa [hd.at? hc]
      · rwa [hd.advance hc]
    · have hm : k ≤ m.size := Nat.le_trans hk (Nat.le_of_lt_succ h.size_lt)
      obtain ⟨place', hmaps, h⟩ := declaring_graft hf hrest h hk
      refine statement_gives.mpr ⟨place', hmaps.placed hf hd hc, .inr (.inr (.inr (.inr (.inl
        ⟨?_, id.mapSpan f, type, m.graft f k rest, typeFirst_graft hhead hm hd, h⟩))))⟩
      rwa [hd.typeAhead? hc]
    · have hmaps : MapsPlace f (.block body) (.block (body.map (Stmt.mapSpans f))) :=
        Stmt.mapSpans_block f body
      refine statement_gives.mpr ⟨_, hmaps.placed hf hd hc, .inr (.inr (.inr (.inr (.inr (.inl
        ⟨?_, _, ?_, rfl⟩)))))⟩
      · rwa [hd.at? hc]
      · rw [hd.advance hc]
        exact ihItems hl body c' hb hk _ .of_graft
    · obtain ⟨place', hmaps, h⟩ := assignment_graft hf hrest h hk hd
      refine statement_gives.mpr ⟨place', hmaps.placed hf hd hc, .inr (.inr (.inr (.inr (.inr (.inr
        ⟨?_, h⟩)))))⟩
      rwa [Cursor.Unmarked, hd.at? hc, hd.at? hc, hd.at? hc, hd.at? hc, hd.typeAhead? hc, hd.at? hc]
  case case2 =>
    intro c hr body c' h hk d hd
    rcases items_gives.mp h with ⟨-, rfl, rfl⟩ | ⟨hr', -⟩
    · have hc : k < c.size := Nat.lt_of_le_of_lt hk h.size_lt
      refine items_gives.mpr (.inl ⟨?_, rfl, hd.advance hc⟩)
      rwa [hd.at? hc]
    · simp [hr] at hr'
  case case3 =>
    intro c hr hend body c' h
    rcases items_gives.mp h with ⟨hr', -⟩ | ⟨-, hend', -⟩
    · exact absurd hr' hr
    · simp [hend] at hend'
  case case4 =>
    intro c hr hend ihStatement ihItems body c' h hk d hd
    have hc : k < c.size := Nat.lt_of_le_of_lt hk h.size_lt
    rcases items_gives.mp h with ⟨hr', -⟩ | ⟨hr', hend', s, m, tail, hs, htail, rfl⟩
    · exact absurd hr' hr
    · have hm : k ≤ m.size := Nat.le_trans hk (Nat.le_of_lt htail.size_lt)
      refine items_gives.mpr (.inr ⟨?_, ?_, s.mapSpans f, m.graft f k rest,
        tail.map (Stmt.mapSpans f), ihStatement s m hs hm d hd,
        ihItems m hs.size_lt tail c' htail hk _ .of_graft, rfl⟩)
      · rwa [hd.at? hc]
      · rwa [hd.atEnd hc]
  case case5 =>
    intro c he _ ih otherwise c' h hk
    rcases alternative_gives.mp h with ⟨-, body, hb, rfl⟩ | ⟨he', -⟩
    · have hc : k < c.size := hb.lt_size hk
      refine alternative_gives.mpr (.inl ⟨?_, body.map (Stmt.mapSpans f), ?_, rfl⟩)
      · rwa [Grafts.of_graft.at? hc]
      · rw [Grafts.of_graft.advance hc]
        exact ih body c' hb hk _ .of_graft
    · simp [he] at he'
  case case6 =>
    intro c he otherwise c' h hk
    rcases alternative_gives.mp h with ⟨he', -⟩ | ⟨he', rfl, rfl⟩
    · exact absurd he' he
    · exact alternative_gives.mpr (.inr ⟨Cursor.graft_at_else hrest he', rfl, rfl⟩)
  case case7 =>
    intro c hl _ ih body c' h hk d hd
    have hc : k < c.size := Nat.lt_of_le_of_lt hk h.size_lt
    rcases branch_gives.mp h with ⟨-, h⟩ | ⟨hl', -⟩
    · refine branch_gives.mpr (.inl ⟨?_, ?_⟩)
      · rwa [hd.at? hc]
      · rw [hd.advance hc]
        exact ih body c' h hk _ .of_graft
    · simp [hl] at hl'
  case case8 =>
    intro c hl ih body c' h hk d hd
    have hc : k < c.size := Nat.lt_of_le_of_lt hk h.size_lt
    rcases branch_gives.mp h with ⟨hl', -⟩ | ⟨hl', s, hs, rfl⟩
    · exact absurd hl' hl
    · refine branch_gives.mpr (.inr ⟨?_, s.mapSpans f, ih s c' hs hk d hd, rfl⟩)
      rwa [hd.at? hc]

/-- The statements of a program, where other statements follow instead of its end. -/
theorem program_graft {c d : Cursor} {body more : List Stmt} (h : program c = .ok body)
    (hk : c.size = (visible c.ahead).length + k) (hd : Grafts f k rest c d)
    (hmore : ∀ behind, program ⟨rest, behind⟩ = .ok more) :
    program d = .ok (body.map (Stmt.mapSpans f) ++ more) := by
  -- Ahead of each statement, `hk` says where the tokens end that the program takes in all.
  fun_induction program c generalizing body d with
  | case1 c hend =>
    cases h
    rw [Cursor.atEnd_iff.mp hend, List.length_nil, Nat.zero_add] at hk
    obtain ⟨ahead, behind⟩ := d
    obtain rfl : ahead = rest := by
      rw [show ahead = _ from hd, Cursor.graft, hk, Nat.sub_self]
      rfl
    exact hmore behind
  | case2 c hend s m hsize hs ih =>
    have hgives : (statement c).Gives s m := ⟨hsize, hs⟩
    obtain ⟨ts, hts, -⟩ := Grammar.statement_parser_derives.1 c s m hgives
    have hm : m.size = (visible m.ahead).length + k := by
      have hahead := congrArg List.length hts.ahead_eq
      have hvisible := congrArg List.length hts.visible
      rw [List.length_append] at hahead hvisible
      rw [Cursor.size] at hk ⊢
      omega
    cases hp : program m with
    | error e =>
      rw [hp] at h
      cases h
    | ok body' =>
      rw [hp] at h
      cases h
      have hm' : k ≤ m.size := by omega
      have hstatement := (statements_graft hf hrest).1 c s m hgives hm' d hd
      refine program_eq_ok_iff.mpr (.inr ⟨?_, s.mapSpans f, m.graft f k rest, hstatement,
        body'.map (Stmt.mapSpans f) ++ more, ih hp hm .of_graft, rfl⟩)
      rw [hd.atEnd (Nat.lt_of_le_of_lt hm' hsize)]
      simpa using hend
  | case3 c hend e m hs => cases h

end

/-! ### Whole token lists -/

theorem not_else_of_statement {c c' : Cursor} {s : Stmt} (h : (statement c).Gives s c') :
    c.at? .freeKeyword "else" = false := by
  refine Bool.eq_false_iff.mpr fun helse => ?_
  obtain ⟨hk, ht⟩ := Cursor.at?_iff.mp helse
  obtain ⟨place, -, hplace⟩ := statement_gives.mp h
  rcases hplace with ⟨hkey, -⟩ | ⟨hkey, -⟩ | ⟨hkey, -⟩ | ⟨hkey, -⟩ | ⟨htype, -⟩ | ⟨hl, -⟩ | ⟨-, h⟩
  · simp [Cursor.at?, Token.is, hk] at hkey
  · simp [Cursor.at?, Token.is, hk] at hkey
  · simp [Cursor.at?, Token.is, hk] at hkey
  · simp [Cursor.at?, Token.is, hk] at hkey
  · have hnone : c.typeAhead? = none := by
      rw [Cursor.typeAhead?, if_pos hk, ht]
      rfl
    simp [hnone] at htype
  · simp [Cursor.at?, Token.is, hk] at hl
  · obtain ⟨e, m, he, -⟩ := assignment_gives.mp h
    rcases expression_gives.mp he with ⟨op, _, _, hop, -⟩ | ⟨-, lhs, n, hp, -⟩
    · simp [UnaryOp.ofToken?, hk] at hop
    · rcases primary_gives.mp hp with ⟨_, hl, -⟩ | ⟨-, ha, -⟩
      · simp [Cursor.at?, Token.is, hk] at hl
      · simp [atom, hk, ht] at ha

/-- The first token of a program does not go on with what stands before it. -/
theorem halting_of_program {c : Cursor} {body : List Stmt} (h : program c = .ok body) :
    Halting c.ahead := by
  obtain ⟨ahead, behind⟩ := c
  rintro t ht
  cases ahead with
  | nil => cases ht
  | cons t' rest =>
    cases ht
    rcases program_eq_ok_iff.mp h with ⟨hend, -⟩ | ⟨-, s, m, hs, -⟩
    · have hkind : t.kind = .endOfFile := of_decide_eq_true hend
      simp [Token.is, hkind]
    · obtain ⟨ts, hts, hd⟩ := Grammar.statement_parser_derives.1 _ s m hs
      obtain ⟨u, us, rfl, hleads⟩ := hd.leads
      obtain ⟨rfl, -, -⟩ := hts
      exact ⟨hleads.1, not_else_of_statement hs⟩

theorem program_nil {ts : List Token} (h : visible ts = []) (behind : Span) :
    program ⟨ts, behind⟩ = .ok [] :=
  program_eq_ok_iff.mpr (.inl ⟨Cursor.atEnd_iff.mpr h, rfl⟩)

/-- The tokens of one program, with other spans, and those of another behind them. -/
theorem program_append {f : Span → Span} (hf : ∀ s t, f (s.join t) = (f s).join (f t))
    {ts us : List Token} {body more : List Stmt} (h : Stmt.listOfTokens ts = .ok body)
    (hmore : ∀ behind, program ⟨us, behind⟩ = .ok more) (behind : Span) :
    program ⟨(visible ts).map (Token.mapSpan f) ++ us, behind⟩ =
      .ok (body.map (Stmt.mapSpans f) ++ more) := by
  have hstarts : visible ts <+: ts := List.takeWhile_prefix _
  have hlength := hstarts.length_le
  have hsize :
      (Cursor.ofTokens ts).size = (visible ts).length + (ts.length - (visible ts).length) :=
    (Nat.add_sub_cancel' hlength).symm
  refine program_graft hf (halting_of_program (hmore behind)) h hsize ?_ hmore
  show _ = (ts.take (ts.length - (ts.length - (visible ts).length))).map (Token.mapSpan f) ++ us
  rw [Nat.sub_sub_self hlength, ← List.prefix_iff_eq_take.mp hstarts]

end Parse

end EggLang
