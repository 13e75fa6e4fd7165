import EggLang.Proofs.Parse.Graft

/-! Parsing at two cursors side by side. Where the cursors show the same tokens one after the other,
up to a change of spans, the replies are the same up to that change, errors too, and the cursors
behind them go on showing the same tokens. -/

namespace EggLang

/-- A change of tokens and of their spans that parsing does not notice. Whatever is no `endOfFile`
stays what it is, and it makes no difference whether spans are changed before they are joined. -/
structure Change where
  span : Span → Span
  token : Token → Token
  span_join : ∀ s t, span (s.join t) = (span s).join (span t)
  kind_token : ∀ t, (token t).kind = t.kind
  text_token : ∀ t, t.kind ≠ .endOfFile → (token t).text = t.text
  span_token : ∀ t, (token t).span = span t.span

def Found.change (k : Change) : Found → Found
  | token t => token (k.token t)
  | expression e => expression (e.mapSpans k.span)

def SyntaxError.change (k : Change) (e : SyntaxError) : SyntaxError :=
  ⟨e.expected, e.found.change k, k.span e.span⟩

/-- An answer with its result changed by `f`. -/
def Change.answer {α : Type} (k : Change) (f : α → α) :
    Except SyntaxError α → Except SyntaxError α
  | .ok a => .ok (f a)
  | .error e => .error (e.change k)

namespace Change

variable (k : Change) (t : Token)

theorem is_token {kind : TokenKind} (hkind : kind ≠ .endOfFile) (text : String) :
    (k.token t).is kind text = t.is kind text := by
  rw [Token.is, Token.is, k.kind_token]
  by_cases h : t.kind = kind
  · rw [k.text_token t (h ▸ hkind)]
  · simp [h]

theorem unary_token : UnaryOp.ofToken? (k.token t) = UnaryOp.ofToken? t := by
  rw [UnaryOp.ofToken?, UnaryOp.ofToken?, k.kind_token]
  split
  · rename_i h
    rw [k.text_token t (by simp [h])]
  · rfl

theorem operator_token : Operator.ofToken? (k.token t) = Operator.ofToken? t := by
  rw [Operator.ofToken?, Operator.ofToken?, k.kind_token]
  split
  · rename_i h
    rw [k.text_token t (by simp [h])]
  · rfl

theorem atom_token : Parse.atom (k.token t) = (Parse.atom t).map (·.mapSpans k.span) := by
  have hkind := k.kind_token t
  have htext := k.text_token t
  have hspan := k.span_token t
  generalize k.token t = u at hkind htext hspan
  obtain ⟨kind, text, span⟩ := t
  obtain ⟨kind', text', span'⟩ := u
  obtain rfl : kind' = kind := hkind
  obtain rfl : span' = k.span span := hspan
  by_cases hend : kind' = .endOfFile
  · subst hend
    rfl
  obtain rfl : text' = text := htext hend
  cases kind' with
  | number =>
    simp only [Parse.atom]
    split <;> rfl
  | freeKeyword =>
    simp only [Parse.atom]
    split
    · rfl
    · split <;> rfl
  | _ => rfl

end Change

namespace Parse

/-! ### How expressions are parsed, case by case -/

section

variable {floor : Precedence} {c : Cursor}

theorem expression_of_unary {op : UnaryOp} (h : UnaryOp.ofToken? c.current = some op) :
    expression floor c = ((expression .unary c.advance).andMaybe fun operand rest _ =>
      extend floor (.unary op operand (c.current.span.join rest.behind)) rest).mono
        c.advance_size_le := by
  rw [expression.eq_def floor c]
  split
  · rename_i h'
    cases h.symm.trans h'
    rfl
  · rename_i h'
    cases h.symm.trans h'

theorem expression_of_not_unary (h : UnaryOp.ofToken? c.current = none) :
    expression floor c = (primary c).andMaybe fun lhs rest _ => extend floor lhs rest := by
  rw [expression.eq_def floor c]
  split
  · rename_i h'
    cases h.symm.trans h'
  · rfl

theorem primary_of_parenthesis (h : c.at? .punctuation "(" = true) :
    primary c = ((expression .lowest c.advance).andThen fun inner rest _ =>
      (rest.expect ")" (.after ")" .expression)).map fun _ _ => inner).mono
        c.advance_size_le := by
  rw [primary, dif_pos h]

theorem primary_of_atom {e : Expr} (hparen : ¬c.at? .punctuation "(" = true)
    (h : atom c.current = .ok e) :
    primary c = .ok e c.advance (Cursor.advance_size_lt (kind_of_atom h)) := by
  rw [primary, dif_neg hparen]
  split
  · rename_i h'
    cases h.symm.trans h'
    rfl
  · rename_i h'
    cases h.symm.trans h'

theorem primary_of_not_atom {expected : Expectation} (hparen : ¬c.at? .punctuation "(" = true)
    (h : atom c.current = .error expected) :
    primary c = .error (c.failure expected) c := by
  rw [primary, dif_neg hparen]
  split
  · rename_i h'
    cases h.symm.trans h'
  · rename_i h'
    cases h.symm.trans h'
    rfl

theorem stops_of_none (h : Operator.ofToken? c.current = none) : c.Stops floor :=
  fun _ h' => nomatch h.symm.trans h'

theorem stops_of_not_binds {op : Operator} (h : Operator.ofToken? c.current = some op)
    (hbinds : ¬op.bindsAbove floor = true) : c.Stops floor := fun op' h' => by
  cases h.symm.trans h'
  simpa using hbinds

variable {lhs : Expr}

theorem extend_of_stops (h : c.Stops floor) : extend floor lhs c = .ok lhs c c.size_lt_succ := by
  rw [extend]
  split
  · rfl
  · rename_i op hop
    rw [if_neg (by simp [h op hop])]

theorem extend_of_operator {op : Operator} (h : Operator.ofToken? c.current = some op)
    (hbinds : op.bindsAbove floor = true) :
    extend floor lhs c = ((expression op.precedence c.advance).andMaybe fun rhs rest _ =>
      let span := lhs.span.join rest.behind
      match op, lhs with
      | .binary op, lhs => extend floor (.binary op lhs rhs span) rest
      | .assignment, .var target => extend floor (.assign target rhs span) rest
      | .assignment, lhs => .error ⟨.assignable, .expression lhs, c.current.span⟩ rest).mono
        c.advance_size_le_succ := by
  rw [extend.eq_def floor lhs c]
  split
  · rename_i h'
    cases h.symm.trans h'
  · rename_i h'
    cases h.symm.trans h'
    refine (if_pos hbinds).trans ?_
    cases op <;> cases lhs <;> rfl

theorem extend_of_binary {op : BinaryOp} (h : Operator.ofToken? c.current = some (.binary op))
    (hbinds : (Operator.binary op).bindsAbove floor = true) :
    extend floor lhs c =
      ((expression (Operator.binary op).precedence c.advance).andMaybe fun rhs rest _ =>
        extend floor (.binary op lhs rhs (lhs.span.join rest.behind)) rest).mono
          c.advance_size_le_succ :=
  extend_of_operator h hbinds

theorem extend_of_target {target : Ident} (h : Operator.ofToken? c.current = some .assignment)
    (hbinds : Operator.assignment.bindsAbove floor = true) :
    extend floor (.var target) c =
      ((expression Operator.assignment.precedence c.advance).andMaybe fun rhs rest _ =>
        extend floor (.assign target rhs ((Expr.var target).span.join rest.behind)) rest).mono
          c.advance_size_le_succ :=
  extend_of_operator h hbinds

theorem extend_of_not_target (h : Operator.ofToken? c.current = some .assignment)
    (hbinds : Operator.assignment.bindsAbove floor = true) (hlhs : ∀ id, lhs ≠ .var id) :
    extend floor lhs c =
      ((expression Operator.assignment.precedence c.advance).andMaybe fun _ rest _ =>
        .error ⟨.assignable, .expression lhs, c.current.span⟩ rest).mono
          c.advance_size_le_succ := by
  rw [extend_of_operator h hbinds]
  cases lhs with
  | var id => exact absurd rfl (hlhs id)
  | _ => rfl

end

/-! ### Replies that mirror one another -/

/-- Cursors that `r` relates show the same token, up to the change `k`, and are related again when
it is taken. -/
structure Simulation (k : Change) (r : Cursor → Cursor → Prop) : Prop where
  current : ∀ {c d}, r c d → d.current = k.token c.current
  behind : ∀ {c d}, r c d → d.behind = k.span c.behind
  advance : ∀ {c d}, r c d → c.current.kind ≠ .endOfFile → r c.advance d.advance

/-- Both replies are results, which `v` relates, or both are the same error up to the change `k`.
The cursors behind them are related by `r`. -/
inductive Reply.Mirrors (k : Change) (r : Cursor → Cursor → Prop) {α β : Type} (v : α → β → Prop)
    {m n : Nat} : Reply m α → Reply n β → Prop
  | ok {a : α} {b : β} {c d : Cursor} {hc : c.size < m} {hd : d.size < n} : v a b → r c d →
      Mirrors k r v (.ok a c hc) (.ok b d hd)
  | error {e : SyntaxError} {c d : Cursor} : r c d →
      Mirrors k r v (.error e c) (.error (e.change k) d)

namespace Reply.Mirrors

variable {k : Change} {r : Cursor → Cursor → Prop} {α α' β β' : Type} {v : α → β → Prop}
  {w : α' → β' → Prop} {m m' n n' : Nat} {x : Reply m α} {y : Reply n β}

theorem mono (h : Mirrors k r v x y) (hm : m ≤ m') (hn : n ≤ n') :
    Mirrors k r v (x.mono hm) (y.mono hn) := by
  cases h with
  | ok hv hr => exact .ok hv hr
  | error hr => exact .error hr

theorem map {g : α → Cursor → α'} {g' : β → Cursor → β'} (h : Mirrors k r v x y)
    (hg : ∀ a b c d, v a b → r c d → w (g a c) (g' b d)) :
    Mirrors k r w (x.map g) (y.map g') := by
  cases h with
  | ok hv hr => exact .ok (hg _ _ _ _ hv hr) hr
  | error hr => exact .error hr

theorem andThen {g : α → (rest : Cursor) → rest.size < m → Reply rest.size α'}
    {g' : β → (rest : Cursor) → rest.size < n → Reply rest.size β'} (h : Mirrors k r v x y)
    (hg : ∀ a b c d hc hd, v a b → r c d → Mirrors k r w (g a c hc) (g' b d hd)) :
    Mirrors k r w (x.andThen g) (y.andThen g') := by
  cases h with
  | @ok a b c d hc hd hv hr =>
    exact (hg a b c d hc hd hv hr).mono (Nat.le_of_lt hc) (Nat.le_of_lt hd)
  | error hr => exact .error hr

theorem andMaybe {g : α → (rest : Cursor) → rest.size < m → Reply (rest.size + 1) α'}
    {g' : β → (rest : Cursor) → rest.size < n → Reply (rest.size + 1) β'} (h : Mirrors k r v x y)
    (hg : ∀ a b c d hc hd, v a b → r c d → Mirrors k r w (g a c hc) (g' b d hd)) :
    Mirrors k r w (x.andMaybe g) (y.andMaybe g') := by
  cases h with
  | @ok a b c d hc hd hv hr => exact (hg a b c d hc hd hv hr).mono hc hd
  | error hr => exact .error hr

/-- Replies that decide the same way go the same way. -/
theorem dite {p q : Prop} [Decidable p] [Decidable q] {x : p → Reply m α} {y : q → Reply n β}
    {x' : ¬p → Reply m α} {y' : ¬q → Reply n β} (hpq : q ↔ p)
    (hpos : ∀ hp hq, Mirrors k r v (x hp) (y hq)) (hneg : ∀ hp hq, Mirrors k r v (x' hp) (y' hq)) :
    Mirrors k r v (if h : p then x h else x' h) (if h : q then y h else y' h) := by
  by_cases hp : p
  · rw [dif_pos hp, dif_pos (hpq.mpr hp)]
    exact hpos hp _
  · rw [dif_neg hp, dif_neg (hp ∘ hpq.mp)]
    exact hneg hp _

theorem rest (h : Mirrors k r v x y) : r x.rest y.rest := by
  cases h with
  | ok _ hr => exact hr
  | error hr => exact hr

theorem toExcept_eq {f : α → α} {x : Reply m α} {y : Reply n α}
    (h : Mirrors k r (fun a b => b = f a) x y) : y.toExcept = k.answer f x.toExcept := by
  cases h with
  | ok hv _ => rw [hv]; rfl
  | error _ => rfl

end Reply.Mirrors

open Reply (Mirrors)

/-- The expressions are the same up to the change `k`. -/
abbrev Changed (k : Change) (e e' : Expr) : Prop := e' = e.mapSpans k.span

section

variable {k : Change} {r : Cursor → Cursor → Prop} (hr : Simulation k r) {c d : Cursor}

include hr

/-! ### Single tokens -/

namespace Simulation

theorem at?_eq (h : r c d) (text : String) {kind : TokenKind}
    (hkind : kind ≠ .endOfFile := by decide) : d.at? kind text = c.at? kind text := by
  rw [Cursor.at?, hr.current h, k.is_token c.current hkind]
  rfl

theorem kind_eq (h : r c d) : d.current.kind = c.current.kind := by
  rw [hr.current h, k.kind_token]

theorem span_eq (h : r c d) : d.current.span = k.span c.current.span := by
  rw [hr.current h, k.span_token]

theorem atEnd_eq (h : r c d) : d.atEnd = c.atEnd := by
  rw [Cursor.atEnd, hr.kind_eq h]
  rfl

theorem typeAhead?_eq (h : r c d) : d.typeAhead? = c.typeAhead? := by
  rw [Cursor.typeAhead?, Cursor.typeAhead?, hr.kind_eq h]
  split
  · rename_i hkind
    rw [hr.current h, k.text_token c.current (by simp [hkind])]
  · rfl

theorem failure_eq (h : r c d) (expected : Expectation) :
    d.failure expected = (c.failure expected).change k := by
  rw [Cursor.failure, hr.span_eq h, hr.current h]
  rfl

theorem advance_of_at? (h : r c d) {kind : TokenKind} {text : String}
    (hat : c.at? kind text = true) (hkind : kind ≠ .endOfFile := by decide) :
    r c.advance d.advance :=
  hr.advance h (by rwa [Cursor.kind_of_at? hat])

theorem expect (h : r c d) (text : String) (expected : Expectation) :
    Mirrors k r Eq (c.expect text expected) (d.expect text expected) := by
  rw [Cursor.expect, Cursor.expect]
  by_cases hat : c.at? .punctuation text = true
  · rw [dif_pos hat, dif_pos ((hr.at?_eq h text).trans hat)]
    exact .ok rfl (hr.advance_of_at? h hat)
  · have hat' : ¬d.at? .punctuation text = true := by rwa [hr.at?_eq h]
    rw [dif_neg hat, dif_neg hat', hr.failure_eq h]
    exact .error h

theorem terminator (h : r c d) : Mirrors k r Eq c.terminator d.terminator :=
  hr.expect h ";" (.after ";" .statement)

theorem identifier (h : r c d) (role : Phrase) :
    Mirrors k r (fun id id' => id' = id.mapSpan k.span) (c.identifier role)
      (d.identifier role) := by
  rw [Cursor.identifier, Cursor.identifier]
  by_cases hkind : c.current.kind = .identifier
  · rw [dif_pos hkind, dif_pos ((hr.kind_eq h).trans hkind)]
    refine .ok ?_ (hr.advance h (by simp [hkind]))
    rw [hr.span_eq h, hr.current h, k.text_token c.current (by simp [hkind])]
    rfl
  · have hkind' : ¬d.current.kind = .identifier := by rwa [hr.kind_eq h]
    rw [dif_neg hkind, dif_neg hkind', hr.failure_eq h]
    exact .error h

theorem typeName (h : r c d) : Mirrors k r Eq c.typeName d.typeName := by
  have htype := hr.typeAhead?_eq h
  rw [Cursor.typeName, Cursor.typeName]
  split
  · rename_i type hc
    split
    · rename_i type' hd
      refine .ok ?_ (hr.advance h (by simp [Cursor.kind_of_typeAhead? hc]))
      exact Option.some.inj (hc.symm.trans (htype.symm.trans hd))
    · rename_i hd
      exact nomatch hc.symm.trans (htype.symm.trans hd)
  · rename_i hc
    split
    · rename_i type' hd
      exact nomatch hc.symm.trans (htype.symm.trans hd)
    · rw [hr.failure_eq h]
      exact .error h

theorem stops (h : r c d) {floor : Precedence} (hstops : c.Stops floor) : d.Stops floor :=
  fun op hop => hstops op (by rwa [hr.current h, k.operator_token] at hop)

end Simulation

/-! ### Expressions -/

theorem expressions_mirror :
    (∀ floor c, ∀ d, r c d → Mirrors k r (Changed k) (expression floor c) (expression floor d)) ∧
    (∀ c, ∀ d, r c d → Mirrors k r (Changed k) (primary c) (primary d)) ∧
    (∀ floor lhs c, ∀ d, r c d →
      Mirrors k r (Changed k) (extend floor lhs c) (extend floor (lhs.mapSpans k.span) d)) := by
  -- On the recursion of the parser at the first cursor. The second one goes the same way, as it
  -- decides by the token ahead alone.
  apply expression.mutual_induct
  case case1 =>
    intro floor c op hop _ ihOperand ihExtend d h
    have hop' : UnaryOp.ofToken? d.current = some op := by rw [hr.current h, k.unary_token, hop]
    rw [expression_of_unary hop, expression_of_unary hop']
    have hadvance := hr.advance h (by simp [kind_of_unary? hop])
    refine Mirrors.mono ((ihOperand _ hadvance).andMaybe ?_) _ _
    rintro operand _ m m' hm _ rfl hmm'
    have hextend := ihExtend operand m hm m' hmm'
    rwa [Expr.mapSpans, k.span_join, ← hr.span_eq h, ← hr.behind hmm'] at hextend
  case case2 =>
    intro floor c hop ihPrimary ihExtend d h
    have hop' : UnaryOp.ofToken? d.current = none := by rw [hr.current h, k.unary_token, hop]
    rw [expression_of_not_unary hop, expression_of_not_unary hop']
    refine (ihPrimary d h).andMaybe ?_
    rintro lhs _ m m' hm _ rfl hmm'
    exact ihExtend lhs m hm m' hmm'
  case case3 =>
    intro c hl _ ih d h
    rw [primary_of_parenthesis hl, primary_of_parenthesis ((hr.at?_eq h "(").trans hl)]
    refine Mirrors.mono ((ih _ (hr.advance_of_at? h hl)).andThen ?_) _ _
    rintro inner _ m m' _ _ rfl hmm'
    exact (hr.expect hmm' ")" _).map fun _ _ _ _ _ _ => rfl
  case case4 =>
    intro c hl e ha d h
    have hl' : ¬d.at? .punctuation "(" = true := by rwa [hr.at?_eq h]
    have ha' : atom d.current = .ok (e.mapSpans k.span) := by
      rw [hr.current h, k.atom_token, ha]
      rfl
    rw [primary_of_atom hl ha, primary_of_atom hl' ha']
    exact .ok rfl (hr.advance h (kind_of_atom ha))
  case case5 =>
    intro c hl expected ha d h
    have hl' : ¬d.at? .punctuation "(" = true := by rwa [hr.at?_eq h]
    have ha' : atom d.current = .error expected := by
      rw [hr.current h, k.atom_token, ha]
      rfl
    rw [primary_of_not_atom hl ha, primary_of_not_atom hl' ha', hr.failure_eq h]
    exact .error h
  case case6 =>
    intro floor lhs c hop d h
    rw [extend_of_stops (stops_of_none hop), extend_of_stops (hr.stops h (stops_of_none hop))]
    exact .ok rfl h
  case case7 =>
    intro floor lhs c op hop hbinds _ ihRhs ihBinary ihAssign d h
    have hop' : Operator.ofToken? d.current = some op := by rw [hr.current h, k.operator_token, hop]
    have hrhs := ihRhs _ (hr.advance h (by simp [kind_of_operator? hop]))
    have hspan : ∀ {m m'}, r m m' → (lhs.mapSpans k.span).span.join m'.behind =
        k.span (lhs.span.join m.behind) := fun hmm' => by
      rw [k.span_join, Expr.span_mapSpans, hr.behind hmm']
    cases op with
    | binary op =>
      rw [extend_of_binary hop hbinds, extend_of_binary hop' hbinds]
      refine Mirrors.mono (hrhs.andMaybe ?_) _ _
      rintro rhs _ m m' hm _ rfl hmm'
      rw [hspan hmm']
      exact ihBinary rhs m hm op lhs m' hmm'
    | assignment =>
      cases lhs with
      | var target =>
        rw [extend_of_target hop hbinds, Expr.mapSpans, extend_of_target hop' hbinds]
        refine Mirrors.mono (hrhs.andMaybe ?_) _ _
        rintro rhs _ m m' hm _ rfl hmm'
        have hassign := ihAssign rhs m hm target m' hmm'
        rwa [Expr.mapSpans, ← hspan hmm'] at hassign
      | _ =>
        rw [extend_of_not_target hop hbinds (by simp),
          extend_of_not_target hop' hbinds (by simp [Expr.mapSpans])]
        refine Mirrors.mono (hrhs.andMaybe ?_) _ _
        rintro rhs _ m m' hm _ rfl hmm'
        rw [hr.span_eq h]
        exact .error hmm'
  case case8 =>
    intro floor lhs c op hop hbinds d h
    have hstops := stops_of_not_binds hop hbinds
    rw [extend_of_stops hstops, extend_of_stops (hr.stops h hstops)]
    exact .ok rfl h

/-! ### Statements -/

namespace Simulation

theorem expression (h : r c d) (floor : Precedence) :
    Mirrors k r (Changed k) (expression floor c) (expression floor d) :=
  (expressions_mirror hr).1 floor c d h

theorem printing (h : r c d) : Mirrors k r (MapsPlace k.span) (printing c) (printing d) := by
  refine (hr.expect h "(" _).andThen fun _ _ c d _ _ _ h => ?_
  refine (hr.expression h _).andThen ?_
  rintro e _ c d _ _ rfl h
  refine (hr.expect h ")" _).andThen fun _ _ c d _ _ _ h => ?_
  exact (hr.terminator h).map fun _ _ _ _ _ _ => Stmt.mapSpans_print k.span e

theorem bracketed (h : r c d) :
    Mirrors k r (fun x y => y = (x.1.mapSpan k.span, x.2)) (bracketed c) (bracketed d) := by
  refine (hr.identifier h _).andThen ?_
  rintro id _ c d _ _ rfl h
  refine (hr.expect h "[" _).andThen fun _ _ c d _ _ _ h => ?_
  refine (hr.typeName h).andThen ?_
  rintro type _ c d _ _ rfl h
  exact (hr.expect h "]" _).map fun _ _ _ _ _ _ => rfl

theorem typeFirst (h : r c d) :
    Mirrors k r (fun x y => y = (x.1.mapSpan k.span, x.2)) (typeFirst c) (typeFirst d) := by
  refine (hr.typeName h).andThen ?_
  rintro type _ c d _ _ rfl h
  refine (hr.identifier h _).map ?_
  rintro id _ _ _ rfl _
  rfl

theorem initializer (h : r c d) :
    Mirrors k r (fun x y => y = x.map (·.mapSpans k.span)) (initializer c) (initializer d) := by
  refine .dite (by rw [hr.at?_eq h]) (fun hat _ => ?_) fun _ _ => .ok rfl h
  refine Mirrors.mono ((hr.expression (hr.advance_of_at? h hat) _).map ?_) _ _
  rintro e _ _ _ rfl _
  rfl

theorem declaring (h : r c d) (isConstant : Bool) (id : Ident) (type : DataType) :
    Mirrors k r (MapsPlace k.span) (declaring isConstant id type c)
      (declaring isConstant (id.mapSpan k.span) type d) := by
  refine (hr.initializer h).andThen ?_
  rintro value _ c d _ _ rfl h
  refine .dite (by simp) (fun _ _ => ?_) fun _ _ => ?_
  · rw [hr.failure_eq h]
    exact .error h
  · exact (hr.terminator h).map fun _ _ _ _ _ _ => Stmt.mapSpans_declare k.span _

theorem constant (h : r c d) : Mirrors k r (MapsPlace k.span) (constant c) (constant d) := by
  have hhead : Mirrors k r (fun x y => y = (x.1.mapSpan k.span, x.2))
      (if c.current.kind = .identifier then Parse.bracketed c else Parse.typeFirst c)
      (if d.current.kind = .identifier then Parse.bracketed d else Parse.typeFirst d) :=
    .dite (by rw [hr.kind_eq h]) (fun _ _ => hr.bracketed h) fun _ _ => hr.typeFirst h
  refine hhead.andMaybe ?_
  rintro ⟨id, type⟩ _ c d _ _ rfl h
  exact hr.declaring h true id type

theorem assignment (h : r c d) :
    Mirrors k r (MapsPlace k.span) (assignment c) (assignment d) := by
  refine (hr.expression h _).andThen ?_
  rintro e _ c d _ _ rfl h
  cases e with
  | assign target value span =>
    exact (hr.terminator h).map fun _ _ _ _ _ _ => Stmt.mapSpans_assign k.span target value
  | var id =>
    refine .dite (by rw [hr.at?_eq h]) (fun hat _ => ?_) fun _ _ => .error h
    refine Mirrors.mono ((hr.terminator (hr.advance_of_at? h hat)).map ?_) _ _
    intro _ _ _ _ _ _ span
    rw [Stmt.mapSpans_assign, increment, increment, Expr.mapSpans, k.span_join, hr.span_eq h]
    rfl
  | _ => exact .error h

end Simulation

theorem statements_mirror :
    (∀ c, ∀ d, r c d →
      Mirrors k r (fun s s' => s' = s.mapSpans k.span) (statement c) (statement d)) ∧
    (∀ c, ∀ d, r c d → Mirrors k r (fun body body' => body' = body.map (Stmt.mapSpans k.span))
      (items c) (items d)) ∧
    (∀ c, ∀ d, r c d → Mirrors k r (fun x y => y = x.map (·.map (Stmt.mapSpans k.span)))
      (alternative c) (alternative d)) ∧
    (∀ c, ∀ d, r c d → Mirrors k r (fun body body' => body' = body.map (Stmt.mapSpans k.span))
      (branch c) (branch d)) := by
  apply statement.mutual_induct
  case case1 =>
    intro c ihBranch ihAlternative ihItems d h
    rw [statement.eq_def c, statement.eq_def d]
    refine Mirrors.map (v := MapsPlace k.span) ?_ fun place place' m m' hplace hm => ?_
    · refine .dite (by rw [hr.at?_eq h]) (fun hat _ => ?_) fun _ _ => ?_
      · exact Mirrors.mono (hr.printing (hr.advance_of_at? h hat)) _ _
      refine .dite (by rw [hr.at?_eq h]) (fun hat _ => ?_) fun _ _ => ?_
      · refine Mirrors.mono ((hr.expression (hr.advance_of_at? h hat) _).andThen ?_) _ _
        rintro condition _ c d hc _ rfl h
        refine (ihBranch hat c hc d h).andMaybe ?_
        rintro body _ c' d hc' _ rfl h
        refine (ihAlternative hat c hc c' hc' d h).map ?_
        rintro otherwise _ _ _ rfl _
        exact Stmt.mapSpans_ifElse k.span condition body otherwise
      refine .dite (by rw [hr.at?_eq h]) (fun hat _ => ?_) fun _ _ => ?_
      · refine Mirrors.mono ((hr.bracketed (hr.advance_of_at? h hat)).andMaybe ?_) _ _
        rintro ⟨id, type⟩ _ c d _ _ rfl h
        exact hr.declaring h false id type
      refine .dite (by rw [hr.at?_eq h]) (fun hat _ => ?_) fun _ _ => ?_
      · exact Mirrors.mono (hr.constant (hr.advance_of_at? h hat)) _ _
      refine .dite (by rw [hr.typeAhead?_eq h]) (fun hat _ => ?_) fun _ _ => ?_
      · refine (hr.typeFirst h).andMaybe ?_
        rintro ⟨id, type⟩ _ c d _ _ rfl h
        exact hr.declaring h false id type
      refine .dite (by rw [hr.at?_eq h]) (fun hat _ => ?_) fun _ _ => hr.assignment h
      refine Mirrors.mono ((ihItems hat _ (hr.advance_of_at? h hat)).map ?_) _ _
      rintro body _ _ _ rfl _
      exact Stmt.mapSpans_block k.span body
    · rw [hr.span_eq h, hr.behind hm, ← k.span_join]
      exact (hplace _).symm
  case case2 =>
    intro c hat d h
    rw [items, items, dif_pos hat, dif_pos ((hr.at?_eq h _).trans hat)]
    exact .ok rfl (hr.advance_of_at? h hat)
  case case3 =>
    intro c hat hend d h
    have hat' : ¬d.at? .punctuation "\x7d" = true := by rwa [hr.at?_eq h]
    rw [items, items, dif_neg hat, dif_neg hat', if_pos hend, if_pos ((hr.atEnd_eq h).trans hend),
      hr.failure_eq h]
    exact .error h
  case case4 =>
    intro c hat hend ihStatement ihItems d h
    have hat' : ¬d.at? .punctuation "\x7d" = true := by rwa [hr.at?_eq h]
    have hend' : ¬d.atEnd = true := by rwa [hr.atEnd_eq h]
    rw [items, items.eq_def d, dif_neg hat, dif_neg hat', if_neg hend, if_neg hend']
    refine (ihStatement d h).andThen ?_
    rintro s _ c d hc _ rfl h
    refine (ihItems c hc d h).map ?_
    rintro body _ _ _ rfl _
    rfl
  case case5 =>
    intro c hat _ ih d h
    rw [alternative, alternative, dif_pos hat, dif_pos ((hr.at?_eq h _).trans hat)]
    refine Mirrors.mono ((ih _ (hr.advance_of_at? h hat)).map ?_) _ _
    rintro body _ _ _ rfl _
    rfl
  case case6 =>
    intro c hat d h
    have hat' : ¬d.at? .freeKeyword "else" = true := by rwa [hr.at?_eq h]
    rw [alternative, alternative, dif_neg hat, dif_neg hat']
    exact .ok rfl h
  case case7 =>
    intro c hat _ ih d h
    rw [branch, branch, dif_pos hat, dif_pos ((hr.at?_eq h _).trans hat)]
    exact (ih _ (hr.advance_of_at? h hat)).mono _ _
  case case8 =>
    intro c hat ih d h
    have hat' : ¬d.at? .punctuation "\x7b" = true := by rwa [hr.at?_eq h]
    rw [branch, branch, dif_neg hat, dif_neg hat']
    refine (ih d h).map ?_
    rintro s _ _ _ rfl _
    rfl

/-! ### Whole inputs -/

theorem whole_mirrors {α : Type} {f : α → α} {m n : Nat} {x : Reply m α} {y : Reply n α}
    (h : Mirrors k r (fun a b => b = f a) x y) : whole y = k.answer f (whole x) := by
  cases h with
  | @ok a b c d _ _ hb h =>
    rw [whole, whole, hr.atEnd_eq h, hb]
    split
    · rfl
    · rw [hr.failure_eq h]
      rfl
  | error _ => rfl

namespace Simulation

theorem statement (h : r c d) :
    Mirrors k r (fun s s' => s' = s.mapSpans k.span) (statement c) (statement d) :=
  (statements_mirror hr).1 c d h

theorem program (h : r c d) :
    program d = k.answer (List.map (Stmt.mapSpans k.span)) (program c) := by
  induction c using program.induct generalizing d with
  | case1 c hend =>
    rw [Parse.program, Parse.program, if_pos hend, if_pos ((hr.atEnd_eq h).trans hend)]
    rfl
  | case2 c hend s m hm hs ih =>
    have hend' : ¬d.atEnd = true := by rwa [hr.atEnd_eq h]
    have hstatement := hr.statement h
    rw [hs] at hstatement
    rw [Parse.program.eq_def c, Parse.program.eq_def d, if_neg hend, if_neg hend', hs]
    generalize Parse.statement d = y at hstatement
    cases hstatement with
    | ok hs' hmm' =>
      dsimp only
      rw [ih hmm', hs']
      cases Parse.program m <;> rfl
  | case3 c hend e m he =>
    have hend' : ¬d.atEnd = true := by rwa [hr.atEnd_eq h]
    have hstatement := hr.statement h
    rw [he] at hstatement
    rw [Parse.program.eq_def c, Parse.program.eq_def d, if_neg hend, if_neg hend', he]
    generalize Parse.statement d = y at hstatement
    cases hstatement
    rfl

theorem expressions (h : r c d) (n : Nat) :
    expressions n d = (expressions n c).map (k.answer (Expr.mapSpans k.span)) := by
  induction n generalizing c d with
  | zero => rfl
  | succ n ih =>
    have hexpression := hr.expression h .lowest
    rw [Parse.expressions, Parse.expressions, List.map_cons, ← ih hexpression.rest,
      hexpression.toExcept_eq]

end Simulation

end

end Parse

end EggLang
