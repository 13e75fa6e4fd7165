import EggLang.Proofs.Grammar.Expression

/-! The grammar of statements, and the agreement of the parser with it. Whether a conditional may go
without an `else` depends on the token behind it, so a derivation knows that token, where there is
one. -/

namespace EggLang.Grammar

open Parse

/-- A name with its type in brackets. -/
inductive Bracketed : List Token → String → DataType → Prop
  | mk {i l t r : Token} {type : DataType} : i.kind = .identifier → l.is .punctuation "[" →
      t.is .freeKeyword type.keyword → r.is .punctuation "]" → Bracketed [i, l, t, r] i.text type

/-- A type and the name of that type. -/
inductive TypeFirst : List Token → String → DataType → Prop
  | mk {t i : Token} {type : DataType} : t.is .freeKeyword type.keyword → i.kind = .identifier →
      TypeFirst [t, i] i.text type

/-- What a declaration starts with: whether it is of a constant, its name and its type. -/
inductive Heading : List Token → Bool → String → DataType → Prop
  | bracketed {k : Token} {ts : List Token} {name : String} {type : DataType} :
      k.is .keyword "var" → Bracketed ts name type → Heading (k :: ts) false name type
  | typeFirst {ts : List Token} {name : String} {type : DataType} :
      TypeFirst ts name type → Heading ts false name type
  | constantBracketed {k : Token} {ts : List Token} {name : String} {type : DataType} :
      k.is .keyword "const" → Bracketed ts name type → Heading (k :: ts) true name type
  | constantTypeFirst {k : Token} {ts : List Token} {name : String} {type : DataType} :
      k.is .keyword "const" → TypeFirst ts name type → Heading (k :: ts) true name type

/-- The value that a declaration gives, which it need not. -/
inductive Initial : List Token → Option Expr → Prop
  | none : Initial [] none
  | some {t : Token} {ts : List Token} {e : Expr} : t.is .operator "=" →
      Derives .expression ts e → Initial (t :: ts) (some e)

/-- Whether the token behind a statement is an `else`. -/
def isElse (next : Option Token) : Bool := next.any (·.is .freeKeyword "else")

mutual

/-- Tokens that are a statement before `next`. -/
inductive Statement : List Token → Option Token → Stmt → Prop
  | print {k l r s : Token} {ts : List Token} {next : Option Token} {e : Expr} :
      k.is .keyword "print" → l.is .punctuation "(" → Derives .expression ts e →
      r.is .punctuation ")" → s.is .punctuation ";" →
      Statement (k :: l :: ts ++ [r, s]) next (.print e .nowhere)
  | ifThen {k : Token} {ts us : List Token} {next : Option Token} {e : Expr} {body : List Stmt} :
      k.is .keyword "if" → Derives .expression ts e → Body us next body → isElse next = false →
      Statement (k :: ts ++ us) next (.ifElse e body none .nowhere)
  | ifElse {k o : Token} {ts us vs : List Token} {next : Option Token} {e : Expr}
      {body otherwise : List Stmt} :
      k.is .keyword "if" → Derives .expression ts e → Body us (some o) body →
      o.is .freeKeyword "else" → Body vs next otherwise →
      Statement (k :: ts ++ us ++ o :: vs) next (.ifElse e body (some otherwise) .nowhere)
  | declare {s : Token} {ts us : List Token} {next : Option Token} {isConstant : Bool}
      {name : String} {type : DataType} {value : Option Expr} :
      Heading ts isConstant name type → Initial us value →
      (isConstant = true → value.isSome = true) → s.is .punctuation ";" →
      Statement (ts ++ us ++ [s]) next (.declare ⟨.ofName name, type, isConstant, value⟩ .nowhere)
  | block {l r : Token} {ts : List Token} {next : Option Token} {body : List Stmt} :
      l.is .punctuation "\x7b" → Statements ts (some r) body → r.is .punctuation "\x7d" →
      Statement (l :: ts ++ [r]) next (.block body .nowhere)
  | assign {s : Token} {ts : List Token} {next : Option Token} {name : String} {value : Expr} :
      Derives .expression ts (.assign (.ofName name) value .nowhere) → s.is .punctuation ";" →
      Statement (ts ++ [s]) next (.assign (.ofName name) value .nowhere)
  | increment {o s : Token} {ts : List Token} {next : Option Token} {name : String} :
      Derives .expression ts (.var (.ofName name)) → o.is .operator "++" →
      s.is .punctuation ";" →
      Statement (ts ++ [o, s]) next
        (.assign (.ofName name) (.binary .add (.var (.ofName name))
          (.literal (.number .one) .nowhere) .nowhere) .nowhere)

/-- Tokens that are a branch of a conditional before `next`. -/
inductive Body : List Token → Option Token → List Stmt → Prop
  | braces {l r : Token} {ts : List Token} {next : Option Token} {body : List Stmt} :
      l.is .punctuation "\x7b" → Statements ts (some r) body → r.is .punctuation "\x7d" →
      Body (l :: ts ++ [r]) next body
  | single {t : Token} {ts : List Token} {next : Option Token} {s : Stmt} :
      t.is .punctuation "\x7b" = false → Statement (t :: ts) next s → Body (t :: ts) next [s]

/-- Tokens that are statements one after the other before `next`. -/
inductive Statements : List Token → Option Token → List Stmt → Prop
  | nil {next : Option Token} : Statements [] next []
  | cons {ts us : List Token} {next : Option Token} {s : Stmt} {rest : List Stmt} :
      Statement ts (us.head?.or next) s → Statements us next rest →
      Statements (ts ++ us) next (s :: rest)

end

/-! ### What the parser accepts is derived -/

/-- The visible token ahead of a cursor. -/
def next? (c : Cursor) : Option Token := (visible c.ahead).head?

theorem next?_of_takes {c c' : Cursor} {ts : List Token} (h : c.Takes ts c') :
    next? c = ts.head?.or (next? c') := by
  rw [next?, next?, h.visible, List.head?_append]

theorem next?_eq_current {c : Cursor} (h : c.current.kind ≠ .endOfFile) :
    next? c = some c.current := by
  rw [next?, Cursor.visible_of_current h, List.head?_cons]

theorem next?_of_atEnd {c : Cursor} (h : c.atEnd = true) : next? c = none := by
  rw [next?, Cursor.atEnd_iff.mp h, List.head?_nil]

theorem isElse_next? (c : Cursor) : isElse (next? c) = c.at? .freeKeyword "else" := by
  by_cases h : c.current.kind = .endOfFile
  · have hnone : next? c = none := next?_of_atEnd (by simp [Cursor.atEnd, h])
    simp [hnone, isElse, Cursor.at?, Token.is, h]
  · simp [next?_eq_current h, isElse, Cursor.at?]

theorem typeAhead?_eq_some_iff {c : Cursor} {type : DataType} :
    c.typeAhead? = some type ↔ c.at? .freeKeyword type.keyword = true := by
  rw [Cursor.typeAhead?, Cursor.at?_iff]
  split
  · simp [DataType.ofKeyword?_eq_some_iff, @eq_comm _ type.keyword, *]
  · simp [*]

theorem takes_of_at? {c : Cursor} {kind : TokenKind} {text : String} (h : c.at? kind text = true)
    (hk : kind ≠ .endOfFile := by decide) : c.Takes [c.current] c.advance :=
  Cursor.takes_current (by rwa [Cursor.kind_of_at? h])

theorem initial_of_gives {c c' : Cursor} {value : Option Expr}
    (h : (initializer c).Gives value c') :
    ∃ ts, c.Takes ts c' ∧ Initial ts (value.map Expr.bare) := by
  rcases initializer_gives.mp h with ⟨hop, e, he, rfl⟩ | ⟨-, rfl, rfl⟩
  · obtain ⟨ts, hts, hd⟩ := expression_between he
    exact ⟨c.current :: ts, (takes_of_at? hop).append hts, .some hop hd⟩
  · exact ⟨[], rfl, .none⟩

theorem bracketed_of_gives {c c' : Cursor} {id : Ident} {type : DataType}
    (h : (bracketed c).Gives (id, type) c') : ∃ ts, c.Takes ts c' ∧ Bracketed ts id.name type := by
  obtain ⟨hk, rfl, hl, ht, hr, rfl⟩ := bracketed_gives.mp h
  have htype := typeAhead?_eq_some_iff.mp ht
  refine ⟨[_, _, _, _], ?_, .mk hk hl htype hr⟩
  have hname : c.Takes [c.current] c.advance := Cursor.takes_current (by simp [hk])
  exact hname.append ((takes_of_at? hl).append ((takes_of_at? htype).append (takes_of_at? hr)))

theorem typeFirst_of_gives {c c' : Cursor} {id : Ident} {type : DataType}
    (h : (typeFirst c).Gives (id, type) c') : ∃ ts, c.Takes ts c' ∧ TypeFirst ts id.name type := by
  obtain ⟨ht, hk, rfl, rfl⟩ := typeFirst_gives.mp h
  have htype := typeAhead?_eq_some_iff.mp ht
  exact ⟨[_, _], (takes_of_at? htype).append (Cursor.takes_current (by simp [hk])), .mk htype hk⟩

/-- Between the two cursors stand the tokens of the statement `s`. -/
def StatementBetween (c : Cursor) (s : Stmt) (c' : Cursor) : Prop :=
  ∃ ts, c.Takes ts c' ∧ Statement ts (next? c') s.bare

def BodyBetween (c : Cursor) (body : List Stmt) (c' : Cursor) : Prop :=
  ∃ ts, c.Takes ts c' ∧ Body ts (next? c') (body.map Stmt.bare)

def StatementsBetween (c : Cursor) (body : List Stmt) (c' : Cursor) : Prop :=
  ∃ ts, c.Takes ts c' ∧ Statements ts (next? c') (body.map Stmt.bare)

section

variable {c k m c' : Cursor}

theorem print_between {e : Expr} (hk : c.at? .keyword "print" = true)
    (hl : c.advance.at? .punctuation "(" = true)
    (h : (Parse.expression .lowest c.advance.advance).Gives e m)
    (hr : m.at? .punctuation ")" = true) (hs : m.advance.at? .punctuation ";" = true)
    (span : Span) : StatementBetween c (.print e span) m.advance.advance := by
  obtain ⟨ts, hts, hd⟩ := expression_between h
  refine ⟨c.current :: c.advance.current :: ts ++ [m.current, m.advance.current], ?_, ?_⟩
  · exact ((takes_of_at? hk).append ((takes_of_at? hl).append hts)).append
      ((takes_of_at? hr).append (takes_of_at? hs))
  · rw [Stmt.bare_print]
    exact .print hk hl hd hr hs

theorem declare_between {isConstant : Bool} {id : Ident} {type : DataType} {place : Unplaced}
    {ts : List Token} (hts : c.Takes ts m) (hd : Heading ts isConstant id.name type)
    (h : (declaring isConstant id type m).Gives place c') (span : Span) :
    StatementBetween c (place span) c' := by
  obtain ⟨value, n, hv, hc, hs, rfl, rfl⟩ := declaring_gives.mp h
  obtain ⟨us, hus, hi⟩ := initial_of_gives hv
  refine ⟨ts ++ us ++ [n.current], (hts.append hus).append (takes_of_at? hs), ?_⟩
  rw [Stmt.bare_declare, Declaration.bare_mk]
  exact .declare hd hi (by simpa using hc) hs

theorem assignment_between {place : Unplaced} (h : (assignment c).Gives place c') (span : Span) :
    StatementBetween c (place span) c' := by
  obtain ⟨e, m, he, h⟩ := assignment_gives.mp h
  obtain ⟨ts, hts, hd⟩ := expression_between he
  rcases h with ⟨target, value, _, rfl, hs, rfl, rfl⟩ | ⟨id, rfl, hop, hs, rfl, rfl⟩
  · refine ⟨ts ++ [m.current], hts.append (takes_of_at? hs), ?_⟩
    rw [Stmt.bare_assign]
    exact .assign hd hs
  · refine ⟨ts ++ [m.current, m.advance.current],
      hts.append ((takes_of_at? hop).append (takes_of_at? hs)), ?_⟩
    rw [Stmt.bare_assign]
    exact .increment hd hop hs

theorem block_between {body : List Stmt} (hl : c.at? .punctuation "\x7b" = true)
    (h : StatementsBetween c.advance body m) (hr : m.at? .punctuation "\x7d" = true)
    (span : Span) : StatementBetween c (.block body span) m.advance := by
  obtain ⟨ts, hts, h⟩ := h
  refine ⟨c.current :: ts ++ [m.current], ?_, ?_⟩
  · exact ((takes_of_at? hl).append hts).append (takes_of_at? hr)
  · rw [next?_eq_current (by simp [Cursor.kind_of_at? hr])] at h
    rw [Stmt.bare_block]
    exact .block hl h hr

theorem braces_between {body : List Stmt} (hl : c.at? .punctuation "\x7b" = true)
    (h : StatementsBetween c.advance body m) (hr : m.at? .punctuation "\x7d" = true) :
    BodyBetween c body m.advance := by
  obtain ⟨ts, hts, h⟩ := h
  refine ⟨c.current :: ts ++ [m.current], ?_, ?_⟩
  · exact ((takes_of_at? hl).append hts).append (takes_of_at? hr)
  · rw [next?_eq_current (by simp [Cursor.kind_of_at? hr])] at h
    exact .braces hl h hr

theorem ifThen_between {condition : Expr} {body : List Stmt} (hk : c.at? .keyword "if" = true)
    (hc : (Parse.expression .lowest c.advance).Gives condition k) (hb : BodyBetween k body c')
    (he : c'.at? .freeKeyword "else" = false) (span : Span) :
    StatementBetween c (.ifElse condition body none span) c' := by
  obtain ⟨ts, hts, hd⟩ := expression_between hc
  obtain ⟨us, hus, hb⟩ := hb
  refine ⟨c.current :: ts ++ us, ((takes_of_at? hk).append hts).append hus, ?_⟩
  rw [Stmt.bare_ifElse]
  exact .ifThen hk hd hb (by rw [isElse_next?, he])

theorem ifElse_between {condition : Expr} {body otherwise : List Stmt}
    (hk : c.at? .keyword "if" = true)
    (hc : (Parse.expression .lowest c.advance).Gives condition k) (hb : BodyBetween k body m)
    (he : m.at? .freeKeyword "else" = true) (ho : BodyBetween m.advance otherwise c')
    (span : Span) : StatementBetween c (.ifElse condition body (some otherwise) span) c' := by
  obtain ⟨ts, hts, hd⟩ := expression_between hc
  obtain ⟨us, hus, hb⟩ := hb
  obtain ⟨vs, hvs, ho⟩ := ho
  rw [next?_eq_current (by simp [Cursor.kind_of_at? he])] at hb
  refine ⟨c.current :: ts ++ us ++ m.current :: vs, ?_, ?_⟩
  · exact (((takes_of_at? hk).append hts).append hus).append ((takes_of_at? he).append hvs)
  · rw [Stmt.bare_ifElse]
    exact .ifElse hk hd hb he ho

theorem Statement.ne_nil {ts : List Token} {next : Option Token} {s : Stmt}
    (h : Statement ts next s) : ts ≠ [] := by
  cases h <;> simp

theorem single_between {s : Stmt} (hl : c.at? .punctuation "\x7b" = false)
    (h : StatementBetween c s c') : BodyBetween c [s] c' := by
  obtain ⟨ts, hts, h⟩ := h
  refine ⟨ts, hts, ?_⟩
  cases ts with
  | nil => exact absurd rfl h.ne_nil
  | cons t ts =>
    obtain ⟨rfl, -, -⟩ := hts
    exact .single hl h

theorem nil_between : StatementsBetween c [] c := ⟨[], rfl, .nil⟩

theorem cons_between {s : Stmt} {rest : List Stmt} (hs : StatementBetween c s m)
    (hr : StatementsBetween m rest c') : StatementsBetween c (s :: rest) c' := by
  obtain ⟨ts, hts, hs⟩ := hs
  obtain ⟨us, hus, hr⟩ := hr
  rw [next?_of_takes hus] at hs
  exact ⟨ts ++ us, hts.append hus, .cons hs hr⟩

end

/-- The statements that the parser gives are derived from the tokens between its cursors. Those of a
block end at its closing brace, which is taken too. -/
theorem statement_parser_derives :
    (∀ c, ∀ s c', (statement c).Gives s c' → StatementBetween c s c') ∧
    (∀ c, ∀ body c', (items c).Gives body c' →
      ∃ m, StatementsBetween c body m ∧ m.at? .punctuation "\x7d" = true ∧ m.advance = c') ∧
    (∀ c, ∀ otherwise c', (alternative c).Gives (some otherwise) c' →
      BodyBetween c.advance otherwise c') ∧
    (∀ c, ∀ body c', (branch c).Gives body c' → BodyBetween c body c') := by
  apply statement.mutual_induct
  case case1 =>
    intro c ihBranch ihAlternative ihItems s c' h
    obtain ⟨place, rfl, hplace⟩ := statement_gives.mp h
    clear h
    rcases hplace with ⟨hk, h⟩ | ⟨hk, condition, k, hc, body, m, hb, otherwise, ho, rfl⟩ |
      ⟨hk, id, type, m, hd, h⟩ | ⟨hk, h⟩ | ⟨-, id, type, m, hd, h⟩ | ⟨hl, body, hb, rfl⟩ | ⟨-, h⟩
    · obtain ⟨hl, e, m, he, hr, hs, rfl, rfl⟩ := printing_gives.mp h
      exact print_between hk hl he hr hs _
    · have hbody := ihBranch hk k hc.size_lt body m hb
      cases otherwise with
      | none =>
        rcases alternative_gives.mp ho with ⟨-, _, -, hnone⟩ | ⟨he, -, rfl⟩
        · cases hnone
        · exact ifThen_between hk hc hbody he _
      | some otherwise =>
        have hother := ihAlternative hk k hc.size_lt m hb.size_lt otherwise c' ho
        rcases alternative_gives.mp ho with ⟨he, -⟩ | ⟨-, hnone, -⟩
        · exact ifElse_between hk hc hbody he hother _
        · cases hnone
    · obtain ⟨ts, hts, hd⟩ := bracketed_of_gives hd
      exact declare_between ((takes_of_at? hk).append hts) (.bracketed hk hd) h _
    · obtain ⟨id, type, m, hd, h⟩ := constant_gives.mp h
      rcases hd with hd | hd
      · obtain ⟨ts, hts, hd⟩ := bracketed_of_gives hd
        exact declare_between ((takes_of_at? hk).append hts) (.constantBracketed hk hd) h _
      · obtain ⟨ts, hts, hd⟩ := typeFirst_of_gives hd
        exact declare_between ((takes_of_at? hk).append hts) (.constantTypeFirst hk hd) h _
    · obtain ⟨ts, hts, hd⟩ := typeFirst_of_gives hd
      exact declare_between hts (.typeFirst hd) h _
    · obtain ⟨m, hbody, hr, rfl⟩ := ihItems hl body c' hb
      exact block_between hl hbody hr _
    · exact assignment_between h _
  case case2 =>
    intro c hr body c' h
    rcases items_gives.mp h with ⟨-, rfl, rfl⟩ | ⟨hr', -⟩
    · exact ⟨c, nil_between, hr, rfl⟩
    · simp [hr] at hr'
  case case3 =>
    intro c hr hend body c' h
    rcases items_gives.mp h with ⟨hr', -⟩ | ⟨-, hend', -⟩
    · exact absurd hr' hr
    · simp [hend] at hend'
  case case4 =>
    intro c hr hend ihStatement ihItems body c' h
    rcases items_gives.mp h with ⟨hr', -⟩ | ⟨-, -, s, m, rest, hs, hrest, rfl⟩
    · exact absurd hr' hr
    · obtain ⟨n, hn, hclose, rfl⟩ := ihItems m hs.size_lt rest c' hrest
      exact ⟨n, cons_between (ihStatement s m hs) hn, hclose, rfl⟩
  case case5 =>
    intro c he _ ih otherwise c' h
    rcases alternative_gives.mp h with ⟨-, body, hb, hsome⟩ | ⟨he', -⟩
    · cases hsome
      exact ih otherwise c' hb
    · simp [he] at he'
  case case6 =>
    intro c he otherwise c' h
    rcases alternative_gives.mp h with ⟨he', -⟩ | ⟨-, hnone, -⟩
    · exact absurd he' he
    · cases hnone
  case case7 =>
    intro c hl _ ih body c' h
    rcases branch_gives.mp h with ⟨-, h⟩ | ⟨hl', -⟩
    · obtain ⟨m, hbody, hr, rfl⟩ := ih body c' h
      exact braces_between hl hbody hr
    · simp [hl] at hl'
  case case8 =>
    intro c hl ih body c' h
    rcases branch_gives.mp h with ⟨hl', -⟩ | ⟨hl', s, hs, rfl⟩
    · exact absurd hl' hl
    · exact single_between hl' (ih s c' hs)

theorem program_between {c : Cursor} {body : List Stmt} (h : program c = .ok body) :
    ∃ c', StatementsBetween c body c' ∧ c'.atEnd = true := by
  fun_induction program c generalizing body with
  | case1 c hend =>
    cases h
    exact ⟨c, nil_between, hend⟩
  | case2 c hend s m hsize hs ih =>
    cases hp : program m with
    | error e => simp [hp, Except.map] at h
    | ok rest =>
      simp only [hp, Except.map, Except.ok.injEq] at h
      subst h
      obtain ⟨c', hrest, hend⟩ := ih hp
      exact ⟨c', cons_between (statement_parser_derives.1 c s m ⟨hsize, hs⟩) hrest, hend⟩
  | case3 c hend e m hs => cases h

/-! ### What is derived is accepted -/

theorem Derives.gives {ts : List Token} {t : Expr} {c c' : Cursor} (h : Derives .expression ts t)
    (hts : c.Takes ts c') (hn : Operator.ofToken? c'.current = none) :
    ∃ e, e.bare = t ∧ (Parse.expression .lowest c).Gives e c' := by
  have hs : ∀ floor, c'.Stops floor := fun _ op hop => by simp [hn] at hop
  obtain ⟨e, he, hr⟩ := h.reaches .lowest c c' (Nat.le_refl _) hts (hs _)
  exact ⟨e, he, hr.gives (hs _)⟩

theorem ofToken?_eq_none {t : Token} (h : t.kind ≠ .operator) : Operator.ofToken? t = none := by
  simp [Operator.ofToken?, h]

theorem ofToken?_of_is_punctuation {t : Token} {text : String}
    (h : t.is .punctuation text = true) : Operator.ofToken? t = none :=
  ofToken?_eq_none (by simp [kind_of_is h])

/-- The token is one that a target can start with. -/
def Opens (t : Token) : Prop := t.kind = .identifier ∨ t.is .punctuation "(" = true

theorem Target.opens {ts : List Token} {name : String} (h : Target ts name) :
    ∃ t us, ts = t :: us ∧ Opens t := by
  cases h with
  | name hk => exact ⟨_, _, rfl, .inl hk⟩
  | parenthesized hl _ _ => exact ⟨_, _, rfl, .inr hl⟩

theorem Derives.opens {n : Nonterminal} {ts : List Token} {target : Ident} {value : Expr}
    {span : Span} (h : Derives n ts (.assign target value span)) :
    ∃ t us, ts = t :: us ∧ Opens t := by
  generalize he : Expr.assign target value span = e at h
  induction h with
  | assign ht _ _ _ =>
    obtain ⟨t, us, rfl, ho⟩ := ht.opens
    exact ⟨t, _, rfl, ho⟩
  | operand _ _ ih => exact ih he
  | parenthesized hl _ _ _ => exact ⟨_, _, rfl, .inr hl⟩
  | _ => cases he

theorem Opens.unmarked {c : Cursor} (h : Opens c.current) : c.Unmarked := by
  rcases h with hk | hl
  · simp [Cursor.Unmarked, Cursor.at?, Token.is, Cursor.typeAhead?, hk]
  · obtain ⟨hk, ht⟩ := Cursor.at?_iff.mp hl
    simp [Cursor.Unmarked, Cursor.at?, Token.is, Cursor.typeAhead?, hk, ht]

/-- A token that neither goes on with an expression nor closes a block. -/
def Leads (t : Token) : Prop := t.kind ≠ .operator ∧ t.is .punctuation "\x7d" = false

theorem leads_of_keyword {t : Token} {text : String} (h : t.is .keyword text = true) : Leads t := by
  simp [Leads, Token.is, kind_of_is h]

theorem Opens.leads {t : Token} (h : Opens t) : Leads t := by
  rcases h with hk | hl
  · simp [Leads, Token.is, hk]
  · simp only [Token.is, Bool.and_eq_true, decide_eq_true_eq] at hl
    simp [Leads, Token.is, hl]

theorem TypeFirst.leads {ts : List Token} {name : String} {type : DataType}
    (h : TypeFirst ts name type) : ∃ t us, ts = t :: us ∧ Leads t := by
  cases h with
  | mk ht _ => exact ⟨_, _, rfl, by simp [Leads, Token.is, kind_of_is ht]⟩

theorem Heading.leads {ts : List Token} {isConstant : Bool} {name : String} {type : DataType}
    (h : Heading ts isConstant name type) : ∃ t us, ts = t :: us ∧ Leads t := by
  cases h with
  | bracketed hk _ | constantBracketed hk _ | constantTypeFirst hk _ =>
    exact ⟨_, _, rfl, leads_of_keyword hk⟩
  | typeFirst h => exact h.leads

theorem Statement.leads {ts : List Token} {next : Option Token} {s : Stmt}
    (h : Statement ts next s) : ∃ t us, ts = t :: us ∧ Leads t := by
  cases h with
  | print hk _ _ _ _ | ifThen hk _ _ _ | ifElse hk _ _ _ _ =>
    exact ⟨_, _, rfl, leads_of_keyword hk⟩
  | declare hd _ _ _ =>
    obtain ⟨t, us, rfl, hl⟩ := hd.leads
    exact ⟨t, _, rfl, hl⟩
  | block hl _ _ =>
    simp only [Token.is, Bool.and_eq_true, decide_eq_true_eq] at hl
    exact ⟨_, _, rfl, by simp [Leads, Token.is, hl]⟩
  | assign hd _ =>
    obtain ⟨t, us, rfl, ho⟩ := hd.opens
    exact ⟨t, _, rfl, ho.leads⟩
  | increment hd _ _ =>
    obtain ⟨t, us, rfl, ho⟩ := hd.target.opens
    exact ⟨t, _, rfl, ho.leads⟩

theorem Body.leads {ts : List Token} {next : Option Token} {body : List Stmt}
    (h : Body ts next body) : ∃ t us, ts = t :: us ∧ Leads t := by
  cases h with
  | braces hl _ _ =>
    simp only [Token.is, Bool.and_eq_true, decide_eq_true_eq] at hl
    exact ⟨_, _, rfl, by simp [Leads, Token.is, hl]⟩
  | single _ hs => exact hs.leads

theorem Bracketed.gives {ts : List Token} {name : String} {type : DataType} {c c' : Cursor}
    (h : Bracketed ts name type) (hts : c.Takes ts c') :
    ∃ id : Ident, id.name = name ∧ (bracketed c).Gives (id, type) c' := by
  cases h with
  | mk hk hl ht hr =>
    obtain ⟨rfl, -, rfl, -, rfl, -, rfl, -, rfl⟩ := hts
    exact ⟨⟨_, _⟩, rfl, bracketed_gives.mpr
      ⟨hk, rfl, hl, typeAhead?_eq_some_iff.mpr ht, hr, rfl⟩⟩

theorem TypeFirst.gives {ts : List Token} {name : String} {type : DataType} {c c' : Cursor}
    (h : TypeFirst ts name type) (hts : c.Takes ts c') :
    ∃ id : Ident, id.name = name ∧ (typeFirst c).Gives (id, type) c' := by
  cases h with
  | mk ht hk =>
    obtain ⟨rfl, -, rfl, -, rfl⟩ := hts
    exact ⟨⟨_, _⟩, rfl, typeFirst_gives.mpr ⟨typeAhead?_eq_some_iff.mpr ht, hk, rfl, rfl⟩⟩

/-- A statement that the parser finds behind a heading. -/
theorem Heading.gives {ts : List Token} {isConstant : Bool} {name : String} {type : DataType}
    {c m : Cursor} (h : Heading ts isConstant name type) (hts : c.Takes ts m) :
    ∃ id : Ident, id.name = name ∧ ∀ place c', (declaring isConstant id type m).Gives place c' →
      (statement c).Gives (place (c.current.span.join c'.behind)) c' := by
  cases h with
  | bracketed hk h =>
    obtain ⟨rfl, -, hts⟩ := hts
    obtain ⟨id, hid, hd⟩ := h.gives hts
    exact ⟨id, hid, fun place c' hp => statement_gives.mpr
      ⟨place, rfl, .inr (.inr (.inl ⟨hk, id, type, m, hd, hp⟩))⟩⟩
  | typeFirst h =>
    obtain ⟨id, hid, hd⟩ := h.gives hts
    have ht : c.typeAhead?.isSome = true := by simp [(typeFirst_gives.mp hd).1]
    exact ⟨id, hid, fun place c' hp => statement_gives.mpr
      ⟨place, rfl, .inr (.inr (.inr (.inr (.inl ⟨ht, id, type, m, hd, hp⟩))))⟩⟩
  | constantBracketed hk h =>
    obtain ⟨rfl, -, hts⟩ := hts
    obtain ⟨id, hid, hd⟩ := h.gives hts
    exact ⟨id, hid, fun place c' hp => statement_gives.mpr ⟨place, rfl, .inr (.inr (.inr (.inl
      ⟨hk, constant_gives.mpr ⟨id, type, m, .inl hd, hp⟩⟩)))⟩⟩
  | constantTypeFirst hk h =>
    obtain ⟨rfl, -, hts⟩ := hts
    obtain ⟨id, hid, hd⟩ := h.gives hts
    exact ⟨id, hid, fun place c' hp => statement_gives.mpr ⟨place, rfl, .inr (.inr (.inr (.inl
      ⟨hk, constant_gives.mpr ⟨id, type, m, .inr hd, hp⟩⟩)))⟩⟩

theorem Initial.gives {ts : List Token} {value : Option Expr} {c c' : Cursor}
    (h : Initial ts value) (hts : c.Takes ts c') (hs : c'.at? .punctuation ";" = true) :
    ∃ value', value'.map Expr.bare = value ∧ (initializer c).Gives value' c' := by
  cases h with
  | none =>
    cases hts
    have hop : c.at? .operator "=" = false := by
      simp [Cursor.at?, Token.is, Cursor.kind_of_at? hs]
    exact ⟨.none, rfl, initializer_gives.mpr (.inr ⟨hop, rfl, rfl⟩)⟩
  | some hop hd =>
    obtain ⟨rfl, -, hts⟩ := hts
    obtain ⟨e, rfl, he⟩ := hd.gives hts (ofToken?_of_is_punctuation hs)
    exact ⟨.some e, rfl, initializer_gives.mpr (.inl ⟨hop, e, he, rfl⟩)⟩

/-- The parser finds a statement with the tree `s` between two cursors. -/
def StatementFound (c : Cursor) (s : Stmt) (c' : Cursor) : Prop :=
  ∃ s', s'.bare = s ∧ (statement c).Gives s' c'

def BodyFound (c : Cursor) (body : List Stmt) (c' : Cursor) : Prop :=
  ∃ body', body'.map Stmt.bare = body ∧ (branch c).Gives body' c'

/-- The parser finds statements with the trees `body` between two cursors, where a brace closes
them or the input ends. -/
def StatementsFound (c : Cursor) (body : List Stmt) (c' : Cursor) : Prop :=
  (c'.at? .punctuation "\x7d" = true →
    ∃ body', body'.map Stmt.bare = body ∧ (items c).Gives body' c'.advance) ∧
  (c'.atEnd = true → ∃ body', body'.map Stmt.bare = body ∧ program c = .ok body')

section

variable {c c' : Cursor} {ts us : List Token} {k l o r s : Token}

theorem print_found {e : Expr} (hk : k.is .keyword "print" = true)
    (hl : l.is .punctuation "(" = true) (hd : Derives .expression ts e)
    (hr : r.is .punctuation ")" = true) (hs : s.is .punctuation ";" = true)
    (h : c.Takes (k :: l :: ts ++ [r, s]) c') : StatementFound c (.print e .nowhere) c' := by
  obtain ⟨m, ⟨rfl, -, rfl, -, hts⟩, rfl, -, rfl, -, rfl⟩ := Cursor.takes_append.mp h
  obtain ⟨e, rfl, he⟩ := hd.gives hts (ofToken?_of_is_punctuation hr)
  exact ⟨_, Stmt.bare_print e _, statement_gives.mpr ⟨.print e, rfl, .inl
    ⟨hk, printing_gives.mpr ⟨hl, e, m, he, hr, hs, rfl, rfl⟩⟩⟩⟩

theorem declare_found {isConstant : Bool} {name : String} {type : DataType}
    {value : Option Expr} (hd : Heading ts isConstant name type) (hi : Initial us value)
    (hc : isConstant = true → value.isSome = true) (hs : s.is .punctuation ";" = true)
    (h : c.Takes (ts ++ us ++ [s]) c') :
    StatementFound c (.declare ⟨.ofName name, type, isConstant, value⟩ .nowhere) c' := by
  obtain ⟨m, hm, rfl, -, rfl⟩ := Cursor.takes_append.mp h
  obtain ⟨k, hts, hus⟩ := Cursor.takes_append.mp hm
  obtain ⟨id, rfl, hstatement⟩ := hd.gives hts
  obtain ⟨value, rfl, hv⟩ := hi.gives hus hs
  have hplace : (declaring isConstant id type k).Gives
      (.declare ⟨id, type, isConstant, value⟩) m.advance :=
    declaring_gives.mpr ⟨value, m, hv, by simpa using hc, hs, rfl, rfl⟩
  exact ⟨_, by rw [Stmt.bare_declare, Declaration.bare_mk], hstatement _ _ hplace⟩

theorem assign_found {name : String} {value : Expr}
    (hd : Derives .expression ts (.assign (.ofName name) value .nowhere))
    (hs : s.is .punctuation ";" = true) (h : c.Takes (ts ++ [s]) c') :
    StatementFound c (.assign (.ofName name) value .nowhere) c' := by
  obtain ⟨m, hts, rfl, -, rfl⟩ := Cursor.takes_append.mp h
  obtain ⟨t, us, rfl, ho⟩ := hd.opens
  obtain ⟨e, he, hg⟩ := hd.gives hts (ofToken?_of_is_punctuation hs)
  cases e with
  | assign target value span =>
    cases he
    obtain ⟨rfl, -, -⟩ := hts
    exact ⟨_, Stmt.bare_assign target value _, statement_gives.mpr
      ⟨.assign target value, rfl, .inr (.inr (.inr (.inr (.inr (.inr ⟨ho.unmarked,
        assignment_gives.mpr ⟨_, m, hg, .inl ⟨target, value, span, rfl, hs, rfl, rfl⟩⟩⟩)))))⟩⟩
  | _ => simp at he

theorem increment_found {name : String} (hd : Derives .expression ts (.var (.ofName name)))
    (hop : o.is .operator "++" = true) (hs : s.is .punctuation ";" = true)
    (h : c.Takes (ts ++ [o, s]) c') :
    StatementFound c (.assign (.ofName name) (.binary .add (.var (.ofName name))
      (.literal (.number .one) .nowhere) .nowhere) .nowhere) c' := by
  obtain ⟨m, hts, rfl, -, rfl, -, rfl⟩ := Cursor.takes_append.mp h
  obtain ⟨t, us, rfl, ho⟩ := hd.target.opens
  have hn : Operator.ofToken? m.current = none := by
    obtain ⟨hk, ht⟩ := Cursor.at?_iff.mp hop
    rw [Operator.ofToken?, hk, ht]
    rfl
  obtain ⟨e, he, hg⟩ := hd.gives hts hn
  cases e with
  | var id =>
    cases he
    obtain ⟨rfl, -, -⟩ := hts
    exact ⟨_, Stmt.bare_assign id (increment id m.current.span) _, statement_gives.mpr
      ⟨.assign id (increment id m.current.span), rfl,
        .inr (.inr (.inr (.inr (.inr (.inr ⟨ho.unmarked, assignment_gives.mpr
          ⟨_, m, hg, .inr ⟨id, rfl, hop, hs, rfl, rfl⟩⟩⟩)))))⟩⟩
  | _ => simp at he

theorem block_found {body : List Stmt} (hl : l.is .punctuation "\x7b" = true)
    (hr : r.is .punctuation "\x7d" = true) (h : c.Takes (l :: ts ++ [r]) c')
    (hb : ∀ c m, c.Takes ts m → next? m = some r → StatementsFound c body m) :
    StatementFound c (.block body .nowhere) c' := by
  obtain ⟨m, ⟨rfl, -, hts⟩, rfl, hk, rfl⟩ := Cursor.takes_append.mp h
  obtain ⟨body, rfl, hi⟩ := (hb _ m hts (next?_eq_current hk)).1 hr
  exact ⟨_, Stmt.bare_block body _, statement_gives.mpr
    ⟨.block body, rfl, .inr (.inr (.inr (.inr (.inr (.inl ⟨hl, body, hi, rfl⟩)))))⟩⟩

theorem braces_found {body : List Stmt} (hl : l.is .punctuation "\x7b" = true)
    (hr : r.is .punctuation "\x7d" = true) (h : c.Takes (l :: ts ++ [r]) c')
    (hb : ∀ c m, c.Takes ts m → next? m = some r → StatementsFound c body m) :
    BodyFound c body c' := by
  obtain ⟨m, ⟨rfl, -, hts⟩, rfl, hk, rfl⟩ := Cursor.takes_append.mp h
  obtain ⟨body, rfl, hi⟩ := (hb _ m hts (next?_eq_current hk)).1 hr
  exact ⟨body, rfl, branch_gives.mpr (.inl ⟨hl, hi⟩)⟩

theorem single_found {s : Stmt} (hl : c.at? .punctuation "\x7b" = false)
    (hs : StatementFound c s c') : BodyFound c [s] c' := by
  obtain ⟨s, rfl, hs⟩ := hs
  exact ⟨[s], rfl, branch_gives.mpr (.inr ⟨hl, s, hs, rfl⟩)⟩

/-- A condition ends where a branch starts. -/
theorem condition_found {e : Expr} {next : Option Token} {body : List Stmt} {m : Cursor}
    (hd : Derives .expression ts e) (hb : Body us next body) (hts : c.Takes ts m)
    (hus : m.Takes us c') :
    ∃ e', e'.bare = e ∧ (Parse.expression .lowest c).Gives e' m := by
  obtain ⟨t, vs, rfl, hleads⟩ := hb.leads
  obtain ⟨rfl, -, -⟩ := hus
  exact hd.gives hts (ofToken?_eq_none hleads.1)

theorem ifThen_found {e : Expr} {body : List Stmt} (hk : k.is .keyword "if" = true)
    (hd : Derives .expression ts e) (hb : Body us (next? c') body)
    (he : isElse (next? c') = false) (h : c.Takes (k :: ts ++ us) c')
    (hbody : ∀ c, c.Takes us c' → BodyFound c body c') :
    StatementFound c (.ifElse e body none .nowhere) c' := by
  obtain ⟨m, ⟨rfl, -, hts⟩, hus⟩ := Cursor.takes_append.mp h
  obtain ⟨e, rfl, hc⟩ := condition_found hd hb hts hus
  obtain ⟨body, rfl, hg⟩ := hbody m hus
  rw [isElse_next?] at he
  exact ⟨_, Stmt.bare_ifElse e body none _, statement_gives.mpr
    ⟨.ifElse e body none, rfl, .inr (.inl ⟨hk, e, m, hc, body, c', hg, none,
      alternative_gives.mpr (.inr ⟨he, rfl, rfl⟩), rfl⟩)⟩⟩

theorem ifElse_found {e : Expr} {body otherwise : List Stmt} {vs : List Token}
    (hk : k.is .keyword "if" = true) (hd : Derives .expression ts e)
    (hb : Body us (some o) body) (he : o.is .freeKeyword "else" = true)
    (h : c.Takes (k :: ts ++ us ++ o :: vs) c')
    (hbody : ∀ c m, c.Takes us m → next? m = some o → BodyFound c body m)
    (hother : ∀ c, c.Takes vs c' → BodyFound c otherwise c') :
    StatementFound c (.ifElse e body (some otherwise) .nowhere) c' := by
  obtain ⟨n, hn, rfl, hko, hvs⟩ := Cursor.takes_append.mp h
  obtain ⟨m, ⟨rfl, -, hts⟩, hus⟩ := Cursor.takes_append.mp hn
  obtain ⟨e, rfl, hc⟩ := condition_found hd hb hts hus
  obtain ⟨body, rfl, hg⟩ := hbody m n hus (next?_eq_current hko)
  obtain ⟨otherwise, rfl, ho⟩ := hother n.advance hvs
  exact ⟨_, Stmt.bare_ifElse e body (some otherwise) _, statement_gives.mpr
    ⟨.ifElse e body (some otherwise), rfl, .inr (.inl ⟨hk, e, m, hc, body, n, hg, some otherwise,
      alternative_gives.mpr (.inl ⟨he, otherwise, ho, rfl⟩), rfl⟩)⟩⟩

theorem nil_found : StatementsFound c [] c :=
  ⟨fun hr => ⟨[], rfl, items_gives.mpr (.inl ⟨hr, rfl, rfl⟩)⟩,
    fun hend => ⟨[], rfl, program_eq_ok_iff.mpr (.inl ⟨hend, rfl⟩)⟩⟩

theorem cons_found {s : Stmt} {rest : List Stmt} {m : Cursor} {next : Option Token}
    (h : Statement ts next s) (hts : c.Takes ts m) (hs : StatementFound c s m)
    (hr : StatementsFound m rest c') : StatementsFound c (s :: rest) c' := by
  obtain ⟨t, us, rfl, hleads⟩ := h.leads
  obtain ⟨rfl, hk, -⟩ := hts
  have hend : c.atEnd = false := by simpa [Cursor.atEnd] using hk
  obtain ⟨s, rfl, hs⟩ := hs
  constructor
  · intro hclose
    obtain ⟨rest, rfl, hi⟩ := hr.1 hclose
    exact ⟨s :: rest, rfl, items_gives.mpr (.inr ⟨hleads.2, hend, s, m, rest, hs, hi, rfl⟩)⟩
  · intro hstop
    obtain ⟨rest, rfl, hp⟩ := hr.2 hstop
    exact ⟨s :: rest, rfl, program_eq_ok_iff.mpr (.inr ⟨hend, s, m, hs, rest, hp, rfl⟩)⟩

end

mutual

theorem Statement.found {ts : List Token} {next : Option Token} {s : Stmt} :
    Statement ts next s → ∀ {c c'}, c.Takes ts c' → next? c' = next → StatementFound c s c'
  | .print hk hl hd hr hs, _, _, h, _ => print_found hk hl hd hr hs h
  | .ifThen hk hd hb he, _, _, h, rfl =>
    ifThen_found hk hd hb he h fun _ hus => hb.found hus rfl
  | .ifElse hk hd hb he ho, _, _, h, rfl =>
    ifElse_found hk hd hb he h (fun _ _ hus hn => hb.found hus hn) fun _ hvs => ho.found hvs rfl
  | .declare hd hi hc hs, _, _, h, _ => declare_found hd hi hc hs h
  | .block hl hb hr, _, _, h, _ => block_found hl hr h fun _ _ hts hn => hb.found hts hn
  | .assign hd hs, _, _, h, _ => assign_found hd hs h
  | .increment hd hop hs, _, _, h, _ => increment_found hd hop hs h

theorem Body.found {ts : List Token} {next : Option Token} {body : List Stmt} :
    Body ts next body → ∀ {c c'}, c.Takes ts c' → next? c' = next → BodyFound c body c'
  | .braces hl hb hr, _, _, h, _ => braces_found hl hr h fun _ _ hts hn => hb.found hts hn
  | .single hl hs, _, _, h, hn => single_found (by rwa [Cursor.at?, h.1]) (hs.found h hn)

theorem Statements.found {ts : List Token} {next : Option Token} {body : List Stmt} :
    Statements ts next body → ∀ {c c'}, c.Takes ts c' → next? c' = next → StatementsFound c body c'
  | .nil, _, _, rfl, _ => nil_found
  | .cons hs hr, _, _, h, hn => by
    obtain ⟨m, hts, hus⟩ := Cursor.takes_append.mp h
    have hm := hs.found hts (by rw [next?_of_takes hus, hn])
    exact cons_found hs hts hm (hr.found hus hn)

end

/-! ### Whole inputs -/

/-- The tokens are a statement with the tree `s` up to spans. -/
def ReadsOne (tokens : List Token) (s : Stmt) : Prop :=
  ∃ s', Stmt.ofTokens tokens = .ok s' ∧ s'.bare = s

theorem readsOne_iff_statement {tokens : List Token} {s : Stmt} :
    ReadsOne tokens s ↔ Statement (visible tokens) none s := by
  simp only [ReadsOne, Stmt.ofTokens, whole_eq_ok_iff]
  constructor
  · rintro ⟨s, ⟨c, h, hend⟩, rfl⟩
    obtain ⟨ts, hts, hs⟩ := statement_parser_derives.1 _ s c h
    rw [next?_of_atEnd hend] at hs
    exact hts.visible_eq hend ▸ hs
  · intro h
    obtain ⟨c, hc, hend⟩ := (Cursor.ofTokens tokens).exists_takes_visible
    obtain ⟨s, rfl, hs⟩ := h.found hc (next?_of_atEnd hend)
    exact ⟨s, ⟨c, hs, hend⟩, rfl⟩

/-- The tokens are a program with the trees `body` up to spans. -/
def ReadsAll (tokens : List Token) (body : List Stmt) : Prop :=
  ∃ body', Stmt.listOfTokens tokens = .ok body' ∧ body'.map Stmt.bare = body

theorem readsAll_iff_statements {tokens : List Token} {body : List Stmt} :
    ReadsAll tokens body ↔ Statements (visible tokens) none body := by
  constructor
  · rintro ⟨body, h, rfl⟩
    obtain ⟨c, ⟨ts, hts, hs⟩, hend⟩ := program_between h
    rw [next?_of_atEnd hend] at hs
    exact hts.visible_eq hend ▸ hs
  · intro h
    obtain ⟨c, hc, hend⟩ := (Cursor.ofTokens tokens).exists_takes_visible
    obtain ⟨body, rfl, hp⟩ := (h.found hc (next?_of_atEnd hend)).2 hend
    exact ⟨body, hp, rfl⟩

theorem statements_single {ts : List Token} {next : Option Token} {s : Stmt}
    (h : Statement ts next s) : Statements ts next [s] := by
  have hs : Statements (ts ++ []) next [s] := .cons (by simpa using h) .nil
  rwa [List.append_nil] at hs

/-- The programs are what the grammar derives. Both forms of a declaration have one tree, and an
`else` belongs to the nearest conditional. -/
theorem readsAll_grammar :
    (∀ tokens body, ReadsAll tokens body ↔ Statements (visible tokens) none body) ∧
    (∀ tokens tokens' ts ts' us s isConstant name type value,
      Heading ts isConstant name type → Heading ts' isConstant name type → Initial us value →
      (isConstant = true → value.isSome = true) → s.is .punctuation ";" →
      visible tokens = ts ++ us ++ [s] → visible tokens' = ts' ++ us ++ [s] →
      ReadsAll tokens [.declare ⟨.ofName name, type, isConstant, value⟩ .nowhere] ∧
      ReadsAll tokens' [.declare ⟨.ofName name, type, isConstant, value⟩ .nowhere]) ∧
    (∀ tokens k₁ k₂ o ts₁ ts₂ us vs c₁ c₂ body otherwise,
      k₁.is .keyword "if" → Derives .expression ts₁ c₁ → k₂.is .keyword "if" →
      Derives .expression ts₂ c₂ → Body us (some o) body → o.is .freeKeyword "else" →
      Body vs none otherwise → visible tokens = k₁ :: ts₁ ++ (k₂ :: ts₂ ++ us ++ o :: vs) →
      ReadsAll tokens
        [.ifElse c₁ [.ifElse c₂ body (some otherwise) .nowhere] none .nowhere]) := by
  refine ⟨fun _ _ => readsAll_iff_statements, ?_, ?_⟩
  · intro tokens tokens' ts ts' us s isConstant name type value hd hd' hi hc hs ht ht'
    rw [readsAll_iff_statements, readsAll_iff_statements, ht, ht']
    exact ⟨statements_single (.declare hd hi hc hs), statements_single (.declare hd' hi hc hs)⟩
  · intro tokens k₁ k₂ o ts₁ ts₂ us vs c₁ c₂ body otherwise hk₁ hd₁ hk₂ hd₂ hb he ho ht
    rw [readsAll_iff_statements, ht]
    have hbrace : k₂.is .punctuation "\x7b" = false := by simp [Token.is, kind_of_is hk₂]
    exact statements_single (.ifThen hk₁ hd₁ (.single hbrace (.ifElse hk₂ hd₂ hb he ho)) rfl)

/-- `const x [bool] = true;`, `const bool x = true;` and `if a if b {} else {}`. -/
theorem readsAll_constant_and_else :
    ReadsAll [.ofText .keyword "const", .ofText .identifier "x", .ofText .punctuation "[",
        .ofText .freeKeyword "bool", .ofText .punctuation "]", .ofText .operator "=",
        .ofText .freeKeyword "true", .ofText .punctuation ";"]
      [.declare ⟨.ofName "x", .boolean, true, some (.literal (.boolean true) .nowhere)⟩ .nowhere] ∧
    ReadsAll [.ofText .keyword "const", .ofText .freeKeyword "bool", .ofText .identifier "x",
        .ofText .operator "=", .ofText .freeKeyword "true", .ofText .punctuation ";"]
      [.declare ⟨.ofName "x", .boolean, true, some (.literal (.boolean true) .nowhere)⟩ .nowhere] ∧
    ReadsAll [.ofText .keyword "if", .ofText .identifier "a", .ofText .keyword "if",
        .ofText .identifier "b", .ofText .punctuation "\x7b", .ofText .punctuation "\x7d",
        .ofText .freeKeyword "else", .ofText .punctuation "\x7b", .ofText .punctuation "\x7d"]
      [.ifElse (.var (.ofName "a")) [.ifElse (.var (.ofName "b")) [] (some []) .nowhere] none
        .nowhere] := by
  have hprimary : ∀ {t e}, Derives .primary [t] e → Derives .expression [t] e :=
    fun h => h.loosen (by decide)
  have hvalue : Initial [.ofText .operator "=", .ofText .freeKeyword "true"]
      (some (.literal (.boolean true) .nowhere)) :=
    .some (by decide) (hprimary (.boolean (b := true) (by decide)))
  have hbracketed : Heading [.ofText .keyword "const", .ofText .identifier "x",
      .ofText .punctuation "[", .ofText .freeKeyword "bool", .ofText .punctuation "]"] true "x"
      .boolean :=
    .constantBracketed (by decide) (.mk rfl (by decide) (by decide) (by decide))
  have htypeFirst : Heading [.ofText .keyword "const", .ofText .freeKeyword "bool",
      .ofText .identifier "x"] true "x" .boolean :=
    .constantTypeFirst (by decide) (.mk (by decide) rfl)
  have hbraces : ∀ next, Body [.ofText .punctuation "\x7b", .ofText .punctuation "\x7d"] next [] :=
    fun _ => .braces (by decide) .nil (by decide)
  have hif : (Token.ofText .keyword "if").is .keyword "if" = true := by decide
  rw [← and_assoc]
  constructor
  · exact readsAll_grammar.2.1 _ _ _ _ _ (.ofText .punctuation ";") true "x" .boolean _
      hbracketed htypeFirst hvalue (by decide) (by decide) rfl rfl
  · exact readsAll_grammar.2.2 _ _ _ _ [_] [_] _ _ _ _ _ _ hif (hprimary (.var rfl)) hif
      (hprimary (.var rfl)) (hbraces _) (by decide) (hbraces _) rfl

end EggLang.Grammar
