import EggLang.Proofs.Bare
import EggLang.Proofs.Parse.Steps

/-! The grammar of expressions, in layers from assignments down to primary expressions, and the
agreement of the parser with it. The parser knows one floor of precedence where the grammar knows
nine nonterminals: `above` says which nonterminal a floor admits, and the step from one to the other
goes through the operators of each nonterminal. -/

namespace EggLang.Grammar

open Parse

/-- The nonterminals of expressions, from the loosest to the tightest. -/
inductive Nonterminal
  | expression
  | conjunction
  | disjunction
  | equality
  | comparison
  | sum
  | product
  | prefixed
  | primary
deriving DecidableEq

/-- The next tighter nonterminal, which the operands of a nonterminal are made of. -/
def Nonterminal.operand? : Nonterminal → Option Nonterminal
  | expression => some conjunction
  | conjunction => some disjunction
  | disjunction => some equality
  | equality => some comparison
  | comparison => some sum
  | sum => some product
  | product => some prefixed
  | prefixed => some primary
  | primary => none

/-- The nonterminal that an operator joins the operands of. All of these group to the left. -/
def layer : BinaryOp → Nonterminal
  | .and => .conjunction
  | .or => .disjunction
  | .equal | .notEqual => .equality
  | .greater | .greaterEqual | .less | .lessEqual => .comparison
  | .add | .subtract => .sum
  | .multiply | .divide => .product

/-- What can be assigned to: a name, in any number of parentheses. -/
inductive Target : List Token → String → Prop
  | name {t : Token} : t.kind = .identifier → Target [t] t.text
  | parenthesized {l r : Token} {ts : List Token} {name : String} :
      l.is .punctuation "(" → Target ts name → r.is .punctuation ")" →
      Target (l :: ts ++ [r]) name

/-- The tokens that a nonterminal derives, each list with its tree, which has no spans. -/
inductive Derives : Nonterminal → List Token → Expr → Prop
  | assign {ts us : List Token} {t : Token} {name : String} {value : Expr} :
      Target ts name → t.is .operator "=" → Derives .expression us value →
      Derives .expression (ts ++ t :: us) (.assign (.ofName name) value .nowhere)
  | binary {n m : Nonterminal} {op : BinaryOp} {ts us : List Token} {t : Token} {lhs rhs : Expr} :
      layer op = n → n.operand? = some m → Derives n ts lhs → t.is .operator op.symbol →
      Derives m us rhs → Derives n (ts ++ t :: us) (.binary op lhs rhs .nowhere)
  | operand {n m : Nonterminal} {ts : List Token} {e : Expr} :
      n.operand? = some m → Derives m ts e → Derives n ts e
  | unary {op : UnaryOp} {t : Token} {ts : List Token} {e : Expr} :
      t.is .operator op.symbol → Derives .prefixed ts e →
      Derives .prefixed (t :: ts) (.unary op e .nowhere)
  | number {t : Token} {x : Number} : t.kind = .number → Number.read? t.text = some x →
      Derives .primary [t] (.literal (.number x) .nowhere)
  | string {t : Token} : t.kind = .string →
      Derives .primary [t] (.literal (.string t.text) .nowhere)
  | boolean {t : Token} {b : Bool} : t.is .freeKeyword (Value.booleanText b) →
      Derives .primary [t] (.literal (.boolean b) .nowhere)
  | var {t : Token} : t.kind = .identifier → Derives .primary [t] (.var (.ofName t.text))
  | parenthesized {l r : Token} {ts : List Token} {e : Expr} :
      l.is .punctuation "(" → Derives .expression ts e → r.is .punctuation ")" →
      Derives .primary (l :: ts ++ [r]) e

/-! ### Nonterminals and precedences -/

namespace Nonterminal

/-- How many nonterminals are looser. -/
def depth : Nonterminal → Nat
  | expression => 0
  | conjunction => 1
  | disjunction => 2
  | equality => 3
  | comparison => 4
  | sum => 5
  | product => 6
  | prefixed => 7
  | primary => 8

/-- The precedence of the operators that a nonterminal brings in. -/
def precedence : Nonterminal → Precedence
  | expression => .assignment
  | conjunction => .and
  | disjunction => .or
  | equality => .equality
  | comparison => .comparison
  | sum => .addition
  | product => .multiplication
  | prefixed | primary => .unary

/-- The nonterminal of the expressions whose operators bind above a floor. -/
def above : Precedence → Nonterminal
  | .lowest | .assignment => expression
  | .and => disjunction
  | .or => equality
  | .equality => comparison
  | .comparison => sum
  | .addition => product
  | .multiplication | .unary => prefixed

theorem eq_of_depth_eq {n m : Nonterminal} (h : n.depth = m.depth) : n = m := by
  cases n <;> cases m <;> simp_all [depth]

theorem depth_of_operand? {n m : Nonterminal} (h : n.operand? = some m) :
    m.depth = n.depth + 1 := by
  cases n <;> cases h <;> rfl

theorem exists_operand? {n m : Nonterminal} (h : n.depth < m.depth) :
    ∃ k, n.operand? = some k := by
  cases n <;> cases m <;> simp_all [depth, operand?]

/-- What holds of a nonterminal as soon as it holds of the next tighter one holds of all that are
looser than one of which it holds. -/
theorem loosen {p : Nonterminal → Prop} (hp : ∀ {n m}, n.operand? = some m → p m → p n)
    {n m : Nonterminal} (hd : m.depth ≤ n.depth) (h : p n) : p m := by
  induction hk : n.depth - m.depth generalizing m with
  | zero =>
    cases eq_of_depth_eq (show m.depth = n.depth by omega)
    exact h
  | succ k ih =>
    obtain ⟨m', hm⟩ := exists_operand? (n := m) (m := n) (by omega)
    have hd' := depth_of_operand? hm
    exact hp hm (ih (by omega) (by omega))

theorem depth_above_le (n : Nonterminal) : (above n.precedence).depth ≤ n.depth + 1 := by
  cases n <;> decide

theorem rank_le_of_operand? {n m : Nonterminal} (h : n.operand? = some m) :
    n.precedence.rank ≤ m.precedence.rank := by
  cases n <;> cases h <;> decide

end Nonterminal

open Nonterminal (above)

theorem precedence_layer (op : BinaryOp) :
    (layer op).precedence = (Operator.binary op).precedence := by
  cases op <;> rfl

theorem operand?_layer (op : BinaryOp) :
    (layer op).operand? = some (above (Operator.binary op).precedence) := by
  cases op <;> rfl

/-- An operator binds above the floors that admit its nonterminal. -/
theorem binary_bindsAbove_iff {op : BinaryOp} {floor : Precedence} :
    (Operator.binary op).bindsAbove floor = true ↔ (above floor).depth ≤ (layer op).depth := by
  cases op <;> cases floor <;> decide

theorem assignment_bindsAbove_iff {floor : Precedence} :
    Operator.assignment.bindsAbove floor = true ↔ above floor = .expression := by
  cases floor <;> decide

theorem rank_injective {p q : Precedence} (h : p.rank = q.rank) : p = q := by
  cases p <;> cases q <;> first | rfl | exact absurd h (by decide)

theorem bindsAbove_mono {op : Operator} {p q : Precedence} (hpq : p.rank ≤ q.rank)
    (h : op.bindsAbove q = true) : op.bindsAbove p = true := by
  simp only [Operator.bindsAbove, Bool.or_eq_true, Bool.and_eq_true, decide_eq_true_eq] at h ⊢
  rcases h with h | ⟨rfl, hr⟩
  · exact .inl (by omega)
  · rcases Nat.lt_or_eq_of_le hpq with hlt | heq
    · exact .inl hlt
    · exact .inr ⟨(rank_injective heq).symm, hr⟩

/-! ### Tokens and operators -/

theorem unary_ofToken?_eq_some_iff {t : Token} {op : UnaryOp} :
    UnaryOp.ofToken? t = some op ↔ t.is .operator op.symbol = true := by
  rw [UnaryOp.ofToken?]
  split <;> simp [Token.is, UnaryOp.ofSymbol?_eq_some_iff, @eq_comm _ op.symbol, *]

theorem operator_ofToken?_eq_binary_iff {t : Token} {op : BinaryOp} :
    Operator.ofToken? t = some (.binary op) ↔ t.is .operator op.symbol = true := by
  have hne : "=" ≠ op.symbol := by cases op <;> decide
  rw [Operator.ofToken?]
  split
  · split
    · simp [Token.is, *]
    · simp [Token.is, BinaryOp.ofSymbol?_eq_some_iff, @eq_comm _ op.symbol, *]
  · simp [Token.is, *]

theorem operator_ofToken?_eq_assignment_iff {t : Token} :
    Operator.ofToken? t = some .assignment ↔ t.is .operator "=" = true := by
  rw [Operator.ofToken?]
  split
  · split <;> simp [Token.is, *]
  · simp [Token.is, *]

/-! ### What the parser accepts is derived -/

theorem Derives.loosen {n m : Nonterminal} {ts : List Token} {e : Expr} (h : Derives n ts e)
    (hd : m.depth ≤ n.depth) : Derives m ts e :=
  Nonterminal.loosen (p := fun n => Derives n ts e) Derives.operand hd h

theorem Derives.target {n : Nonterminal} {ts : List Token} {id : Ident}
    (h : Derives n ts (.var id)) : Target ts id.name := by
  generalize he : Expr.var id = e at h
  induction h with
  | operand _ _ ih => exact ih he
  | var hk => cases he; exact .name hk
  | parenthesized hl _ hr ih => exact .parenthesized hl (ih he) hr
  | _ => cases he

theorem atom_derives {t : Token} {e : Expr} (h : atom t = .ok e) : Derives .primary [t] e.bare := by
  unfold atom at h
  split at h
  · rename_i hk
    split at h
    · rename_i x hx
      cases h
      exact .number hk hx
    · cases h
  · rename_i hk
    cases h
    exact .string hk
  · rename_i hk
    split at h
    · cases h
      exact .boolean (b := true) (by simp [Token.is, *, Value.booleanText])
    · split at h
      · cases h
        exact .boolean (b := false) (by simp [Token.is, *, Value.booleanText])
      · cases h
  · rename_i hk
    cases h
    exact .var hk
  · cases h

/-- The tokens that a nonterminal derives, each list with its tree in its place. The span of an
operation starts where its first operand does, or with the operator before that, and ends with its
last token. Parentheses around an operation are not in its span. -/
inductive Places : Nonterminal → List Token → Expr → Prop
  | atom {t : Token} {e : Expr} : Parse.atom t = .ok e → Places .primary [t] e
  | parenthesized {l r : Token} {ts : List Token} {e : Expr} :
      l.is .punctuation "(" → Places .expression ts e → r.is .punctuation ")" →
      Places .primary (l :: ts ++ [r]) e
  | unary {op : UnaryOp} {t u : Token} {ts : List Token} {e : Expr} :
      t.is .operator op.symbol → Places .prefixed ts e → u ∈ ts.getLast? →
      Places .prefixed (t :: ts) (.unary op e (t.span.join u.span))
  | binary {n m : Nonterminal} {op : BinaryOp} {ts us : List Token} {t u : Token}
      {lhs rhs : Expr} : layer op = n → n.operand? = some m → Places n ts lhs →
      t.is .operator op.symbol → Places m us rhs → u ∈ us.getLast? →
      Places n (ts ++ t :: us) (.binary op lhs rhs (lhs.span.join u.span))
  | assign {n : Nonterminal} {ts us : List Token} {t u : Token} {target : Ident} {rhs : Expr} :
      Places n ts (.var target) → t.is .operator "=" → Places .expression us rhs →
      u ∈ us.getLast? →
      Places .expression (ts ++ t :: us) (.assign target rhs (target.span.join u.span))
  | operand {n m : Nonterminal} {ts : List Token} {e : Expr} :
      n.operand? = some m → Places m ts e → Places n ts e

namespace Places

variable {n m : Nonterminal} {ts : List Token} {e : Expr}

theorem loosen (h : Places n ts e) (hd : m.depth ≤ n.depth) : Places m ts e :=
  Nonterminal.loosen (p := fun n => Places n ts e) Places.operand hd h

theorem derives (h : Places n ts e) : Derives n ts e.bare := by
  induction h with
  | atom ha => exact atom_derives ha
  | parenthesized hl _ hr ih => exact .parenthesized hl ih hr
  | unary hop _ _ ih => exact .unary hop ih
  | binary hn hm _ hop _ _ ihl ihr => exact .binary hn hm ihl hop ihr
  | assign _ hop _ _ iht ihr => exact .assign iht.target hop ihr
  | operand hm _ ih => exact .operand hm ih

theorem exists_last (h : Places n ts e) : ∃ u, u ∈ ts.getLast? := by
  have hne : ts ≠ [] := by
    induction h with
    | operand _ _ ih => exact ih
    | _ => simp
  exact ⟨ts.getLast hne, List.getLast?_eq_some_getLast hne⟩

end Places

/-- The tokens between two cursors are ones that `n` derives `e` from. -/
def Between (n : Nonterminal) (c : Cursor) (e : Expr) (c' : Cursor) : Prop :=
  ∃ ts, c.Takes ts c' ∧ Places n ts e

namespace Between

variable {n m : Nonterminal} {c k c' : Cursor} {e lhs rhs : Expr}

theorem loosen (h : Between n c e c') (hd : m.depth ≤ n.depth) : Between m c e c' := by
  obtain ⟨ts, hts, h⟩ := h
  exact ⟨ts, hts, h.loosen hd⟩

theorem exists_last (h : Between n c e c') :
    ∃ ts u, c.Takes ts c' ∧ Places n ts e ∧ u ∈ ts.getLast? ∧ c'.behind = u.span := by
  obtain ⟨ts, hts, h⟩ := h
  obtain ⟨u, hu⟩ := h.exists_last
  exact ⟨ts, u, hts, h, hu, hts.behind_eq hu⟩

theorem atom (h : Parse.atom c.current = .ok e) : Between .primary c e c.advance :=
  ⟨[c.current], Cursor.takes_current (kind_of_atom h), .atom h⟩

theorem parenthesized (hl : c.current.is .punctuation "(" = true)
    (h : Between .expression c.advance e k) (hr : k.current.is .punctuation ")" = true) :
    Between .primary c e k.advance := by
  obtain ⟨ts, hts, h⟩ := h
  refine ⟨c.current :: ts ++ [k.current], ?_, .parenthesized hl h hr⟩
  have hk : k.current.kind ≠ .endOfFile := by simp [Cursor.kind_of_at? hr]
  exact Cursor.Takes.append ⟨rfl, by simp [Cursor.kind_of_at? hl], hts⟩ (Cursor.takes_current hk)

theorem unary {op : UnaryOp} (hop : UnaryOp.ofToken? c.current = some op)
    (h : Between .prefixed c.advance e c') :
    Between .prefixed c (.unary op e (c.current.span.join c'.behind)) c' := by
  obtain ⟨ts, u, hts, h, hu, hlast⟩ := h.exists_last
  refine ⟨c.current :: ts, ⟨rfl, by simp [kind_of_unary? hop], hts⟩, ?_⟩
  rw [hlast]
  exact .unary (unary_ofToken?_eq_some_iff.mp hop) h hu

theorem binary {op : BinaryOp} (h1 : Between (layer op) c lhs k)
    (hop : Operator.ofToken? k.current = some (.binary op))
    (h2 : Between (above (Operator.binary op).precedence) k.advance rhs c') :
    Between (layer op) c (.binary op lhs rhs (lhs.span.join c'.behind)) c' := by
  obtain ⟨ts, hts, h1⟩ := h1
  obtain ⟨us, u, hus, h2, hu, hlast⟩ := h2.exists_last
  refine ⟨ts ++ k.current :: us, hts.append ⟨rfl, by simp [kind_of_operator? hop], hus⟩, ?_⟩
  rw [hlast]
  exact .binary rfl (operand?_layer op) h1 (operator_ofToken?_eq_binary_iff.mp hop) h2 hu

theorem assign {target : Ident} (h1 : Between n c (.var target) k)
    (hop : Operator.ofToken? k.current = some .assignment)
    (h2 : Between .expression k.advance rhs c') :
    Between .expression c (.assign target rhs (target.span.join c'.behind)) c' := by
  obtain ⟨ts, hts, h1⟩ := h1
  obtain ⟨us, u, hus, h2, hu, hlast⟩ := h2.exists_last
  refine ⟨ts ++ k.current :: us, hts.append ⟨rfl, by simp [kind_of_operator? hop], hus⟩, ?_⟩
  rw [hlast]
  exact .assign h1 (operator_ofToken?_eq_assignment_iff.mp hop) h2 hu

end Between

/-- No operator binds above a prefix operator. -/
theorem stops_unary (c : Cursor) : c.Stops .unary := by
  intro op _
  rcases op with op | _
  · cases op <;> rfl
  · rfl

theorem depth_above_le_prefixed (floor : Precedence) :
    (above floor).depth ≤ Nonterminal.prefixed.depth := by
  cases floor <;> decide

/-- An expression is derived from the tokens that it was parsed from, and it ends where no operator
goes on with it. In `extend`, the expression so far stands behind `c₀` and comes from some
nonterminal `n` that the floor admits, and no operator ahead binds above those of `n`. -/
theorem between_of_gives :
    (∀ floor c, ∀ e c', (Parse.expression floor c).Gives e c' →
      Between (above floor) c e c' ∧ c'.Stops floor) ∧
    (∀ c, ∀ e c', (Parse.primary c).Gives e c' → Between .primary c e c') ∧
    (∀ floor lhs c, ∀ n c₀, Between n c₀ lhs c → (above floor).depth ≤ n.depth →
      c.Stops n.precedence → ∀ e c', (extend floor lhs c).Gives e c' →
      Between (above floor) c₀ e c' ∧ c'.Stops floor) := by
  apply Parse.expression.mutual_induct
  case case1 =>
    intro floor c op hop _ ihOperand ihExtend e c' h
    rcases expression_gives.mp h with ⟨op', operand, m, hop', ho, he⟩ | ⟨hnone, -⟩
    · cases hop.symm.trans hop'
      have hb := (ihOperand operand m ho).1.unary hop
      exact ihExtend operand m ho.size_lt .prefixed c hb (depth_above_le_prefixed floor)
        (stops_unary m) e c' he
    · cases hop.symm.trans hnone
  case case2 =>
    intro floor c hop ihPrimary ihExtend e c' h
    rcases expression_gives.mp h with ⟨op', _, _, hop', -⟩ | ⟨-, lhs, m, hp, he⟩
    · cases hop.symm.trans hop'
    · have hb := (ihPrimary lhs m hp).loosen (m := .prefixed) (by decide)
      exact ihExtend lhs m hp.size_lt .prefixed c hb (depth_above_le_prefixed floor)
        (stops_unary m) e c' he
  case case3 =>
    intro c hl _ ih e c' h
    rcases primary_gives.mp h with ⟨m, -, hi, hr, rfl⟩ | ⟨hl', -⟩
    · exact (ih e m hi).1.parenthesized hl hr
    · simp [hl] at hl'
  case case4 =>
    intro c hl e' ha e c' h
    rcases primary_gives.mp h with ⟨_, hl', -⟩ | ⟨-, ha', rfl⟩
    · exact absurd hl' hl
    · exact .atom ha'
  case case5 =>
    intro c hl expected ha e c' h
    rcases primary_gives.mp h with ⟨_, hl', -⟩ | ⟨-, ha', -⟩
    · exact absurd hl' hl
    · cases ha.symm.trans ha'
  case case6 =>
    intro floor lhs c hop n c₀ hb hn _ e c' h
    rcases extend_gives.mp h with ⟨hstop, rfl, rfl⟩ | ⟨_, _, _, hop', -⟩ | ⟨_, _, _, -, hop', -⟩
    · exact ⟨hb.loosen hn, hstop⟩
    · cases hop.symm.trans hop'
    · cases hop.symm.trans hop'
  case case7 =>
    intro floor lhs c op hop hfloor _ ihRhs ihBinary ihAssign n c₀ hb hn hs e c' h
    rcases extend_gives.mp h with ⟨hstop, -⟩ | ⟨bop, rhs, m, hop', -, hr, he⟩ |
      ⟨target, rhs, m, rfl, hop', -, hr, he⟩
    · simp [hstop op hop] at hfloor
    · cases hop.symm.trans hop'
      obtain ⟨hrhs, hm⟩ := ihRhs rhs m hr
      -- what stands so far is no looser than the operator, which does not bind above it
      have hlayer : (layer bop).depth ≤ n.depth := by
        have h1 := Nonterminal.depth_above_le n
        have h2 : ¬(above n.precedence).depth ≤ (layer bop).depth :=
          mt binary_bindsAbove_iff.mpr (by simp [hs _ hop])
        omega
      have hbin := (hb.loosen hlayer).binary hop hrhs
      exact ihBinary rhs m hr.size_lt bop lhs (layer bop) c₀ hbin
        (binary_bindsAbove_iff.mp hfloor) (by rwa [precedence_layer]) e c' he
    · cases hop.symm.trans hop'
      obtain ⟨hrhs, hm⟩ := ihRhs rhs m hr
      have hassign := hb.assign hop hrhs
      exact ihAssign rhs m hr.size_lt target .expression c₀ hassign
        (by simp [assignment_bindsAbove_iff.mp hfloor]) hm e c' he
  case case8 =>
    intro floor lhs c op hop hfloor n c₀ hb hn _ e c' h
    rcases extend_gives.mp h with ⟨hstop, rfl, rfl⟩ | ⟨_, _, _, hop', hb', -⟩ |
      ⟨_, _, _, -, hop', hb', -⟩
    · exact ⟨hb.loosen hn, hstop⟩
    · cases hop.symm.trans hop'
      exact absurd hb' hfloor
    · cases hop.symm.trans hop'
      exact absurd hb' hfloor

theorem expression_places {floor : Precedence} {c c' : Cursor} {e : Expr}
    (h : (Parse.expression floor c).Gives e c') :
    ∃ ts, c.Takes ts c' ∧ Places (above floor) ts e :=
  (between_of_gives.1 floor c e c' h).1

/-- The parser of expressions takes what the grammar derives. -/
theorem expression_between {floor : Precedence} {c c' : Cursor} {e : Expr}
    (h : (Parse.expression floor c).Gives e c') :
    ∃ ts, c.Takes ts c' ∧ Derives (above floor) ts e.bare := by
  obtain ⟨ts, hts, h⟩ := expression_places h
  exact ⟨ts, hts, h.derives⟩

/-! ### What is derived is accepted -/

theorem stops_mono {c : Cursor} {p q : Precedence} (hpq : p.rank ≤ q.rank) (h : c.Stops p) :
    c.Stops q := by
  intro op hop
  cases hb : op.bindsAbove q with
  | false => rfl
  | true => exact absurd (bindsAbove_mono hpq hb) (by simp [h op hop])

theorem stops_of_kind {c : Cursor} (h : c.current.kind ≠ .operator) (floor : Precedence) :
    c.Stops floor :=
  fun _ hop => absurd (kind_of_operator? hop) h

theorem extend_of_stops {c : Cursor} {floor : Precedence} (h : c.Stops floor) (e : Expr) :
    (extend floor e c).Gives e c :=
  extend_gives.mpr (.inl ⟨h, rfl, rfl⟩)

theorem kind_of_primary {c c' : Cursor} {e : Expr} (h : (Parse.primary c).Gives e c') :
    c.current.kind ≠ .operator := by
  rcases primary_gives.mp h with ⟨_, hl, -⟩ | ⟨-, ha, -⟩
  · simp [Cursor.kind_of_at? hl]
  · intro hk
    simp [atom, hk] at ha

theorem primary_of_atom {c : Cursor} {e : Expr} (h : atom c.current = .ok e) :
    (Parse.primary c).Gives e c.advance := by
  refine primary_gives.mpr (.inr ⟨?_, h, rfl⟩)
  cases hl : c.at? .punctuation "(" with
  | false => rfl
  | true => simp [atom, Cursor.kind_of_at? hl] at h

/-- Parsing at `floor` from `c` comes to `m` with the expression `e`, and is left to extend it. -/
def Reaches (floor : Precedence) (c : Cursor) (e : Expr) (m : Cursor) : Prop :=
  ∀ e' c', (extend floor e m).Gives e' c' → (Parse.expression floor c).Gives e' c'

theorem Reaches.gives {floor : Precedence} {c m : Cursor} {e : Expr} (h : Reaches floor c e m)
    (hs : m.Stops floor) : (Parse.expression floor c).Gives e m :=
  h e m (extend_of_stops hs e)

theorem reaches_of_primary {c m : Cursor} {e : Expr} (h : (Parse.primary c).Gives e m)
    (floor : Precedence) : Reaches floor c e m := by
  intro e' c' he
  have hop : UnaryOp.ofToken? c.current = none := by
    simp [UnaryOp.ofToken?, kind_of_primary h]
  exact expression_gives.mpr (.inr ⟨hop, e, m, h, he⟩)

theorem reaches_of_atom {c : Cursor} {e : Expr} (h : atom c.current = .ok e)
    (floor : Precedence) : Reaches floor c e c.advance :=
  reaches_of_primary (primary_of_atom h) floor

/-- Parentheses around an expression that is parsed up to the closing one. -/
theorem primary_of_parenthesized {c m : Cursor} {e : Expr}
    (hl : c.current.is .punctuation "(" = true) (h : Reaches .lowest c.advance e m)
    (hr : m.current.is .punctuation ")" = true) : (Parse.primary c).Gives e m.advance :=
  have hs : m.Stops .lowest := stops_of_kind (by simp [Cursor.kind_of_at? hr]) _
  primary_gives.mpr (.inl ⟨m, hl, h.gives hs, hr, rfl⟩)

theorem Target.parses {ts : List Token} {name : String} (h : Target ts name) :
    ∀ c c', c.Takes ts c' → ∃ id, id.name = name ∧ (Parse.primary c).Gives (.var id) c' := by
  induction h with
  | name hk =>
    rintro c c' ⟨rfl, -, rfl⟩
    exact ⟨⟨c.current.text, c.current.span⟩, rfl, primary_of_atom (by simp [atom, hk])⟩
  | parenthesized hl _ hr ih =>
    intro c c' htakes
    obtain ⟨m, ⟨rfl, -, hts⟩, rfl, -, rfl⟩ := Cursor.takes_append.mp htakes
    obtain ⟨id, hid, hp⟩ := ih c.advance m hts
    exact ⟨id, hid, primary_of_parenthesized hl (reaches_of_primary hp _) hr⟩

/-- From where a derived list of tokens starts, the parser comes to where it ends, at every floor
that admits the nonterminal. The token behind the list must not bind above the operators of the
nonterminal, as it would split their operands. -/
theorem Derives.reaches {n : Nonterminal} {ts : List Token} {t : Expr} (h : Derives n ts t) :
    ∀ floor c c', (above floor).depth ≤ n.depth → c.Takes ts c' → c'.Stops n.precedence →
      ∃ e, e.bare = t ∧ Reaches floor c e c' := by
  induction h with
  | assign ht hop _ ih =>
    intro floor c c' hfloor htakes hs
    obtain ⟨m, hts, rfl, -, hus⟩ := Cursor.takes_append.mp htakes
    have habove : above floor = .expression := Nonterminal.eq_of_depth_eq (Nat.le_zero.mp hfloor)
    obtain ⟨id, rfl, hp⟩ := ht.parses c m hts
    obtain ⟨rhs, rfl, hrhs⟩ := ih .assignment m.advance c' (by decide) hus hs
    refine ⟨.assign id rhs (id.span.join c'.behind), rfl, fun e' c'' he => ?_⟩
    refine reaches_of_primary hp floor e' c'' (extend_gives.mpr (.inr (.inr ?_)))
    exact ⟨id, rhs, c', rfl, operator_ofToken?_eq_assignment_iff.mpr hop,
      assignment_bindsAbove_iff.mpr habove, hrhs.gives hs, he⟩
  | @binary n m op ts us t lhs rhs hn hm _ hop _ ihLhs ihRhs =>
    intro floor c c' hfloor htakes hs
    subst hn
    obtain ⟨k, hts, rfl, -, hus⟩ := Cursor.takes_append.mp htakes
    have hop' := operator_ofToken?_eq_binary_iff.mpr hop
    obtain rfl : m = above (Operator.binary op).precedence := by
      simpa [operand?_layer] using hm.symm
    have hk : k.Stops (layer op).precedence := by
      intro _ h
      cases hop'.symm.trans h
      rw [precedence_layer]
      cases op <;> rfl
    obtain ⟨e1, rfl, h1⟩ := ihLhs floor c k hfloor hts hk
    obtain ⟨e2, rfl, h2⟩ := ihRhs (Operator.binary op).precedence k.advance c' (Nat.le_refl _) hus
      (stops_mono (Nonterminal.rank_le_of_operand? hm) hs)
    rw [precedence_layer] at hs
    refine ⟨.binary op e1 e2 (e1.span.join c'.behind), rfl, fun e' c'' he => h1 e' c'' ?_⟩
    exact extend_gives.mpr (.inr (.inl
      ⟨op, e2, c', hop', binary_bindsAbove_iff.mpr hfloor, h2.gives hs, he⟩))
  | operand hm _ ih =>
    intro floor c c' hfloor htakes hs
    have hd := Nonterminal.depth_of_operand? hm
    exact ih floor c c' (by omega) htakes (stops_mono (Nonterminal.rank_le_of_operand? hm) hs)
  | @unary op t ts e hop _ ih =>
    rintro floor c c' hfloor ⟨rfl, -, hts⟩ hs
    obtain ⟨operand, rfl, ho⟩ := ih .unary c.advance c' (by decide) hts hs
    refine ⟨.unary op operand (c.current.span.join c'.behind), rfl, fun e' c'' he => ?_⟩
    exact expression_gives.mpr
      (.inl ⟨op, operand, c', unary_ofToken?_eq_some_iff.mpr hop, ho.gives hs, he⟩)
  | number hk hx =>
    rintro floor c c' - ⟨rfl, -, rfl⟩ -
    exact ⟨.literal _ c.current.span, rfl, reaches_of_atom (by simp [atom, hk, hx]) floor⟩
  | string hk =>
    rintro floor c c' - ⟨rfl, -, rfl⟩ -
    exact ⟨.literal _ c.current.span, rfl, reaches_of_atom (by simp [atom, hk]) floor⟩
  | @boolean t b hb =>
    rintro floor c c' - ⟨rfl, -, rfl⟩ -
    refine ⟨.literal _ c.current.span, rfl, reaches_of_atom ?_ floor⟩
    cases b <;> simp_all [atom, Token.is, Value.booleanText]
  | var hk =>
    rintro floor c c' - ⟨rfl, -, rfl⟩ -
    exact ⟨.var ⟨_, c.current.span⟩, rfl, reaches_of_atom (by simp [atom, hk]) floor⟩
  | parenthesized hl _ hr ih =>
    intro floor c c' _ htakes _
    obtain ⟨m, ⟨rfl, -, hts⟩, rfl, -, rfl⟩ := Cursor.takes_append.mp htakes
    have hs : m.Stops .assignment := stops_of_kind (by simp [Cursor.kind_of_at? hr]) _
    obtain ⟨e, he, hi⟩ := ih .lowest c.advance m (by decide) hts hs
    exact ⟨e, he, reaches_of_primary (primary_of_parenthesized hl hi hr) floor⟩

/-! ### Whole inputs -/

theorem whole_eq_ok_iff {α : Type} {n : Nat} {r : Reply n α} {a : α} :
    whole r = .ok a ↔ ∃ c, r.Gives a c ∧ c.atEnd = true := by
  cases r with
  | ok b c h =>
    simp only [whole, Reply.gives_ok]
    split
    · rename_i hend
      constructor
      · rintro ⟨⟩
        exact ⟨c, ⟨rfl, rfl⟩, hend⟩
      · rintro ⟨_, ⟨rfl, rfl⟩, -⟩
        rfl
    · rename_i hend
      simp only [reduceCtorEq, false_iff]
      rintro ⟨_, ⟨rfl, rfl⟩, hend'⟩
      exact hend hend'
  | error e c => simp [whole]

/-- The tokens are an expression with the tree `t` up to spans. -/
def Reads (tokens : List Token) (t : Expr) : Prop := ∃ e, Expr.ofTokens tokens = .ok e ∧ e.bare = t

theorem reads_iff_derives {tokens : List Token} {t : Expr} :
    Reads tokens t ↔ Derives .expression (visible tokens) t := by
  simp only [Reads, Expr.ofTokens, whole_eq_ok_iff]
  constructor
  · rintro ⟨e, ⟨c, he, hend⟩, rfl⟩
    obtain ⟨ts, hts, hd⟩ := expression_between he
    exact hts.visible_eq hend ▸ hd
  · intro h
    obtain ⟨c, hc, hend⟩ := (Cursor.ofTokens tokens).exists_takes_visible
    have hs : ∀ floor, c.Stops floor := stops_of_kind (by simp_all [Cursor.atEnd])
    obtain ⟨e, he, hr⟩ := h.reaches .lowest _ c (Nat.le_refl _) hc (hs _)
    exact ⟨e, ⟨c, hr.gives (hs _), hend⟩, he⟩

/-! ### Grouping -/

theorem Target.kind_ne {ts : List Token} {name : String} (h : Target ts name) :
    ∀ t ∈ ts, t.kind ≠ .endOfFile := by
  induction h with
  | name hk => simp [hk]
  | parenthesized hl _ hr ih => simpa [kind_of_is hl, kind_of_is hr, or_imp, forall_and] using ih

theorem Derives.kind_ne {n : Nonterminal} {ts : List Token} {e : Expr} (h : Derives n ts e) :
    ∀ t ∈ ts, t.kind ≠ .endOfFile := by
  induction h with
  | assign ht hop _ ih => simpa [kind_of_is hop, or_imp, forall_and] using ⟨ht.kind_ne, ih⟩
  | binary _ _ _ hop _ ih1 ih2 => simpa [kind_of_is hop, or_imp, forall_and] using ⟨ih1, ih2⟩
  | operand _ _ ih => exact ih
  | unary hop _ ih => simpa [kind_of_is hop] using ih
  | number hk | string hk | var hk => simp [hk]
  | boolean hb => simp [kind_of_is hb]
  | parenthesized hl _ hr ih => simpa [kind_of_is hl, kind_of_is hr, or_imp, forall_and] using ih

/-- All tokens of a derived list are visible. -/
theorem Derives.reads {ts : List Token} {e : Expr} (h : Derives .expression ts e) :
    Reads ts e :=
  reads_iff_derives.mpr (by rwa [visible_eq_self h.kind_ne])

/-- An operator joins a left operand in its own layer or tighter and a right one that is tighter. -/
theorem Derives.join {n m : Nonterminal} {op : BinaryOp} {o : Token} {as bs : List Token}
    {a b : Expr} (ha : Derives n as a) (hn : (layer op).depth ≤ n.depth)
    (ho : o.is .operator op.symbol = true) (hb : Derives m bs b)
    (hm : (layer op).depth < m.depth) :
    Derives (layer op) (as ++ o :: bs) (.binary op a b .nowhere) := by
  have hd := Nonterminal.depth_of_operand? (operand?_layer op)
  exact .binary rfl (operand?_layer op) (ha.loosen hn) ho (hb.loosen (by omega))

theorem depth_layer_lt (op : BinaryOp) : (layer op).depth < Nonterminal.prefixed.depth := by
  cases op <;> decide

/-- The looser of two operators is applied last, and of two in one layer the right one is. -/
theorem Derives.two_operators {op₁ op₂ : BinaryOp} {o₁ o₂ : Token} {as bs cs : List Token}
    {a b c : Expr} (ha : Derives .prefixed as a) (ho₁ : o₁.is .operator op₁.symbol = true)
    (hb : Derives .prefixed bs b) (ho₂ : o₂.is .operator op₂.symbol = true)
    (hc : Derives .prefixed cs c) :
    Derives .expression (as ++ o₁ :: (bs ++ o₂ :: cs))
      (if (layer op₁).depth < (layer op₂).depth then
        .binary op₁ a (.binary op₂ b c .nowhere) .nowhere
      else .binary op₂ (.binary op₁ a b .nowhere) c .nowhere) := by
  have h₁ := depth_layer_lt op₁
  have h₂ := depth_layer_lt op₂
  split
  · rename_i hlt
    have hright := hb.join (by omega) ho₂ hc h₂
    exact (ha.join (by omega) ho₁ hright hlt).loosen (Nat.zero_le _)
  · rename_i hle
    have hleft := ha.join (by omega) ho₁ hb h₁
    have h := (hleft.join (by omega) ho₂ hc h₂).loosen (m := .expression) (Nat.zero_le _)
    rwa [List.append_assoc] at h

/-- The expressions are what the grammar derives. Two operators between three operands group by
their layers and to the left within one, and assignments group to the right. -/
theorem reads_grammar :
    (∀ tokens t, Reads tokens t ↔ Derives .expression (visible tokens) t) ∧
    (∀ op₁ op₂ o₁ o₂ as bs cs a b c, Derives .prefixed as a → o₁.is .operator op₁.symbol →
      Derives .prefixed bs b → o₂.is .operator op₂.symbol → Derives .prefixed cs c →
      Reads (as ++ o₁ :: (bs ++ o₂ :: cs))
        (if (layer op₁).depth < (layer op₂).depth then
          .binary op₁ a (.binary op₂ b c .nowhere) .nowhere
        else .binary op₂ (.binary op₁ a b .nowhere) c .nowhere)) ∧
    (∀ o₁ o₂ xs ys ts x y e, Target xs x → o₁.is .operator "=" → Target ys y →
      o₂.is .operator "=" → Derives .expression ts e →
      Reads (xs ++ o₁ :: (ys ++ o₂ :: ts))
        (.assign (.ofName x) (.assign (.ofName y) e .nowhere) .nowhere)) := by
  refine ⟨fun _ _ => reads_iff_derives, ?_, ?_⟩
  · intro op₁ op₂ o₁ o₂ as bs cs a b c ha ho₁ hb ho₂ hc
    exact (ha.two_operators ho₁ hb ho₂ hc).reads
  · intro o₁ o₂ xs ys ts x y e hx ho₁ hy ho₂ he
    exact (Derives.assign hx ho₁ (.assign hy ho₂ he)).reads

/-- `a & b | c` and `a = b = c`. -/
theorem reads_and_or_assign :
    Reads [.ofText .identifier "a", .ofText .operator "&", .ofText .identifier "b",
        .ofText .operator "|", .ofText .identifier "c"]
      (.binary .and (.var (.ofName "a"))
        (.binary .or (.var (.ofName "b")) (.var (.ofName "c")) .nowhere) .nowhere) ∧
    Reads [.ofText .identifier "a", .ofText .operator "=", .ofText .identifier "b",
        .ofText .operator "=", .ofText .identifier "c"]
      (.assign (.ofName "a") (.assign (.ofName "b") (.var (.ofName "c")) .nowhere) .nowhere) := by
  have hword : ∀ name, Derives .prefixed [.ofText .identifier name] (.var (.ofName name)) :=
    fun name => .operand rfl (.var rfl)
  have h := reads_grammar.2
  constructor
  · exact h.1 .and .or _ _ [_] [_] [_] _ _ _ (hword "a") (by decide) (hword "b") (by decide)
      (hword "c")
  · exact h.2 _ _ [_] [_] [_] "a" "b" _ (.name rfl) (by decide) (.name rfl) (by decide)
      ((hword "c").loosen (by decide))

end EggLang.Grammar
