import EggLang.Proofs.Grammar.Statement

/-! The ends of what the grammar derives. A statement ends with a semicolon or a closing brace,
which an expression never does, and no expression begins with a keyword, a type or an opening
brace. -/

namespace EggLang.Grammar

open Parse

/-- The token is one of those that statements end with. -/
def Closes (t : Token) : Prop := t.is .punctuation ";" = true ∨ t.is .punctuation "\x7d" = true

/-! ### Statements -/

/-- The last of the tokens is one of those that statements end with. -/
def Closed (ts : List Token) : Prop := ∃ t ∈ ts.getLast?, Closes t

namespace Closed

variable {us : List Token} {t : Token}

theorem concat (ts : List Token) (h : Closes t) : Closed (ts ++ [t]) := ⟨t, by simp, h⟩

theorem append (ts : List Token) (h : Closed us) : Closed (ts ++ us) := by
  obtain ⟨t, ht, hcloses⟩ := h
  refine ⟨t, ?_, hcloses⟩
  rw [List.getLast?_append, ht]
  rfl

end Closed

mutual

theorem Statement.closed {ts : List Token} {next : Option Token} {s : Stmt} :
    Statement ts next s → Closed ts
  | .print _ _ _ _ hs => .append _ (.concat [_] (.inl hs))
  | .ifThen _ _ hb _ => .append _ hb.closed
  | .ifElse _ _ _ _ ho => .append _ (.append [_] ho.closed)
  | .declare _ _ _ hs => .concat _ (.inl hs)
  | .block _ _ hr => .concat _ (.inr hr)
  | .assign _ hs => .concat _ (.inl hs)
  | .increment _ _ hs => .append _ (.concat [_] (.inl hs))

theorem Body.closed {ts : List Token} {next : Option Token} {body : List Stmt} :
    Body ts next body → Closed ts
  | .braces _ _ hr => .concat _ (.inr hr)
  | .single _ hs => hs.closed

end

theorem Statements.closed {ts : List Token} {next : Option Token} {body : List Stmt} :
    Statements ts next body → body ≠ [] → Closed ts
  | .nil, hne => absurd rfl hne
  | @Statements.cons ts us next s rest hs hrest, _ => by
    cases rest with
    | nil =>
      cases hrest
      rw [List.append_nil]
      exact hs.closed
    | cons s' rest => exact .append ts (hrest.closed (List.cons_ne_nil s' rest))

/-! ### Expressions -/

/-- The token is not one that a statement with a word of its own or a block begins with: it is no
keyword, no name of a type and no brace. -/
structure Begins (t : Token) : Prop where
  keyword : t.kind ≠ .keyword
  freeKeyword : t.kind = .freeKeyword → t.text = "true" ∨ t.text = "false"
  brace : t.is .punctuation "\x7b" = false

/-- The first of the tokens is one that expressions begin with, and the last one is none of those
that statements end with. -/
structure Framed (ts : List Token) : Prop where
  head : ∃ t ∈ ts.head?, Begins t
  last : ∃ t ∈ ts.getLast?, ¬Closes t

namespace Framed

variable {ts us : List Token} {t l r : Token}

theorem single (h : Begins t) (hcloses : ¬Closes t) : Framed [t] := ⟨⟨t, rfl, h⟩, t, rfl, hcloses⟩

theorem of_kind {kind : TokenKind} (h : t.kind = kind) (hkeyword : kind ≠ .keyword := by decide)
    (hfree : kind ≠ .freeKeyword := by decide) (hmark : kind ≠ .punctuation := by decide) :
    Framed [t] := by
  subst h
  exact .single ⟨hkeyword, fun h => absurd h hfree, by simp [Token.is, hmark]⟩
    (by simp [Closes, Token.is, hmark])

/-- What stands between the two ends is of no account. -/
theorem join (hts : Framed ts) (between : List Token) (hus : Framed us) :
    Framed (ts ++ (between ++ us)) where
  head := by
    obtain ⟨t, ht, hbegins⟩ := hts.head
    refine ⟨t, ?_, hbegins⟩
    rw [List.head?_append, ht]
    rfl
  last := by
    obtain ⟨t, ht, hcloses⟩ := hus.last
    refine ⟨t, ?_, hcloses⟩
    rw [List.getLast?_append, List.getLast?_append, ht]
    rfl

theorem parentheses (hl : l.is .punctuation "(" = true) (ts : List Token)
    (hr : r.is .punctuation ")" = true) : Framed (l :: ts ++ [r]) := by
  simp only [Token.is, Bool.and_eq_true, decide_eq_true_eq] at hl hr
  have hhead : Begins l := ⟨by simp [hl.1], by simp [hl.1], by simp [Token.is, hl.2]⟩
  have hlast : ¬Closes r := by simp [Closes, Token.is, hr.2]
  exact ⟨⟨l, rfl, hhead⟩, r, List.getLast?_concat, hlast⟩

end Framed

theorem Target.framed {ts : List Token} {name : String} (h : Target ts name) : Framed ts := by
  cases h with
  | name hk => exact .of_kind hk
  | parenthesized hl _ hr => exact .parentheses hl _ hr

theorem Derives.framed {n : Nonterminal} {ts : List Token} {e : Expr} (h : Derives n ts e) :
    Framed ts := by
  induction h with
  | assign ht _ _ ih => exact ht.framed.join [_] ih
  | binary _ _ _ _ _ ihl ihr => exact ihl.join [_] ihr
  | operand _ _ ih => exact ih
  | unary hop _ ih => exact (Framed.of_kind (kind_of_is hop)).join [] ih
  | number hk | string hk | var hk => exact .of_kind hk
  | @boolean t b hb =>
    simp only [Token.is, Bool.and_eq_true, decide_eq_true_eq] at hb
    have htext : t.text = "true" ∨ t.text = "false" := by
      rw [hb.2]
      cases b
      · exact .inr rfl
      · exact .inl rfl
    exact .single ⟨by simp [hb.1], fun _ => htext, by simp [Token.is, hb.1]⟩
      (by simp [Closes, Token.is, hb.1])
  | parenthesized hl _ hr => exact .parentheses hl _ hr

/-- No tokens are both an expression and statements. -/
theorem Derives.not_statements {n : Nonterminal} {ts : List Token} {e : Expr} {next : Option Token}
    {body : List Stmt} (h : Derives n ts e) : ¬Statements ts next body := by
  intro hstatements
  by_cases hbody : body = []
  · subst hbody
    cases hstatements
    obtain ⟨t, ⟨⟩, -⟩ := h.framed.head
  · obtain ⟨t, ht, hcloses⟩ := hstatements.closed hbody
    obtain ⟨u, hu, hnot⟩ := h.framed.last
    obtain rfl := Option.mem_unique ht hu
    exact hnot hcloses

end EggLang.Grammar
