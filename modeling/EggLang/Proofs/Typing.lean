import EggLang.Operator.Apply
import EggLang.Proofs.Environment
import EggLang.Tree

/-! The types of expressions and the rules for statements, in a context of the names declared so
far. A statement leads to the context of the statements behind it. -/

namespace EggLang

/-- The type of an operator's value on an operand of a type, where it takes that. -/
def UnaryOp.resultType? : UnaryOp → DataType → Option DataType
  | identity, .number | negate, .number => some .number
  | not, .boolean => some .boolean
  | _, _ => none

/-- The type of an operator's value on two operands of one type, where it takes those. No operator
takes operands of two types. -/
def BinaryOp.resultType? : BinaryOp → DataType → Option DataType
  | add, .number | subtract, .number | multiply, .number | divide, .number => some .number
  | add, .string => some .string
  | and, .boolean | or, .boolean => some .boolean
  | equal, _ | notEqual, _ => some .boolean
  | greater, .number | greaterEqual, .number | less, .number | lessEqual, .number => some .boolean
  | _, _ => none

theorem UnaryOp.apply_of_resultType? {op : UnaryOp} {v : Value} {type : DataType}
    (h : op.resultType? v.type = some type) : ∃ w, op.apply v = .ok w ∧ w.type = type := by
  cases op <;> cases v <;> cases h <;> exact ⟨_, rfl, rfl⟩

theorem UnaryOp.apply_of_resultType?_eq_none {op : UnaryOp} {v : Value}
    (h : op.resultType? v.type = none) : op.apply v = .error (.illegalUnary op v.type) := by
  cases op <;> cases v <;> first | rfl | exact nomatch h

theorem UnaryOp.resultType?_of_apply {op : UnaryOp} {v w : Value} (h : op.apply v = .ok w) :
    op.resultType? v.type = some w.type := by
  cases op <;> cases v <;> cases h <;> rfl

/-- The values of an operator are of the types that it is given, and it has no others. -/
theorem BinaryOp.type_on? (op : BinaryOp) (v w : Value) :
    (op.on? v w).map Value.type = if v.type = w.type then op.resultType? v.type else none := by
  cases v <;> cases w <;> cases op <;> rfl

theorem BinaryOp.apply_of_resultType? {op : BinaryOp} {v w : Value} {type : DataType}
    (hvw : v.type = w.type) (h : op.resultType? v.type = some type) :
    ∃ u, op.apply v w = .ok u ∧ u.type = type := by
  have hon := op.type_on? v w
  rw [if_pos hvw, h] at hon
  obtain ⟨u, hu, htype⟩ := Option.map_eq_some_iff.mp hon
  exact ⟨u, by rw [apply, hu], htype⟩

namespace Expr

/-- The expressions that have a type in a context. -/
inductive HasType (Γ : Context) : Expr → DataType → Prop
  | literal {v : Value} {span : Span} : HasType Γ (.literal v span) v.type
  | var {id : Ident} {s : Signature} : Γ.find? id.name = some s → HasType Γ (.var id) s.type
  | unary {op : UnaryOp} {operand : Expr} {span : Span} {type result : DataType} :
      HasType Γ operand type → op.resultType? type = some result →
      HasType Γ (.unary op operand span) result
  | binary {op : BinaryOp} {lhs rhs : Expr} {span : Span} {type result : DataType} :
      HasType Γ lhs type → HasType Γ rhs type → op.resultType? type = some result →
      HasType Γ (.binary op lhs rhs span) result
  | assign {target : Ident} {value : Expr} {span : Span} {s : Signature} :
      Γ.find? target.name = some s → s.isConstant = false → HasType Γ value s.type →
      HasType Γ (.assign target value span) s.type

end Expr

namespace Stmt

mutual

/-- The statements that are well-typed in a context, with the context behind them. -/
inductive Checks : Context → Stmt → Context → Prop
  | print {Γ : Context} {value : Expr} {span : Span} {type : DataType} :
      value.HasType Γ type → Checks Γ (.print value span) Γ
  | declare {Γ : Context} {d : Declaration} {span : Span} :
      Γ.innermost.lookup d.id.name = none →
      (∀ value, d.initializer = some value → value.HasType Γ d.type) →
      Checks Γ (.declare d span) (Γ.declare d.id.name ⟨d.type, d.isConstant⟩)
  | assign {Γ : Context} {target : Ident} {value : Expr} {span : Span} {type : DataType} :
      (Expr.assign target value span).HasType Γ type → Checks Γ (.assign target value span) Γ
  | ifThen {Γ Δ : Context} {condition : Expr} {body : List Stmt} {span : Span} :
      condition.HasType Γ .boolean → ChecksAll Γ.enter body Δ →
      Checks Γ (.ifElse condition body none span) Γ
  | ifElse {Γ Δ Δ' : Context} {condition : Expr} {body otherwise : List Stmt} {span : Span} :
      condition.HasType Γ .boolean → ChecksAll Γ.enter body Δ → ChecksAll Γ.enter otherwise Δ' →
      Checks Γ (.ifElse condition body (some otherwise) span) Γ
  | block {Γ Δ : Context} {body : List Stmt} {span : Span} :
      ChecksAll Γ.enter body Δ → Checks Γ (.block body span) Γ

/-- The lists of statements that are well-typed one after the other. -/
inductive ChecksAll : Context → List Stmt → Context → Prop
  | nil {Γ : Context} : ChecksAll Γ [] Γ
  | cons {Γ Δ Δ' : Context} {s : Stmt} {rest : List Stmt} :
      Checks Γ s Δ → ChecksAll Δ rest Δ' → ChecksAll Γ (s :: rest) Δ'

end

theorem Checks.outer_eq {Γ Δ : Context} {s : Stmt} (h : Checks Γ s Δ) : Δ.outer = Γ.outer := by
  cases h <;> rfl

/-- Statements declare in the innermost scope alone. -/
theorem ChecksAll.outer_eq {Γ Δ : Context} {body : List Stmt} (h : ChecksAll Γ body Δ) :
    Δ.outer = Γ.outer := by
  induction body generalizing Γ with
  | nil =>
    cases h
    rfl
  | cons s rest ih =>
    cases h with
    | cons hs hr => rw [ih hr, hs.outer_eq]

end Stmt

/-! ### Computing types -/

/-- The type of an expression, where it has one. -/
def Expr.type? (Γ : Context) : Expr → Option DataType
  | literal v _ => some v.type
  | var id => (Γ.find? id.name).map Signature.type
  | unary op operand _ => (operand.type? Γ).bind op.resultType?
  | binary op lhs rhs _ =>
    (lhs.type? Γ).bind fun type =>
      if rhs.type? Γ = some type then op.resultType? type else none
  | assign target value _ =>
    (Γ.find? target.name).bind fun s =>
      if s.isConstant = false ∧ value.type? Γ = some s.type then some s.type else none

theorem Expr.hasType_iff_type? {Γ : Context} {e : Expr} {type : DataType} :
    e.HasType Γ type ↔ e.type? Γ = some type := by
  constructor
  · intro h
    induction h with
    | literal => rfl
    | var hs => simp [type?, hs]
    | unary _ hop ih => simp [type?, ih, hop]
    | binary _ _ hop ihl ihr => simp [type?, ihl, ihr, hop]
    | assign hs hc _ ih => simp [type?, hs, hc, ih]
  · intro h
    induction e generalizing type with
    | literal v span =>
      cases h
      exact .literal
    | var id =>
      obtain ⟨s, hs, rfl⟩ := Option.map_eq_some_iff.mp h
      exact .var hs
    | unary op operand span ih =>
      obtain ⟨operandType, ho, hop⟩ := Option.bind_eq_some_iff.mp h
      exact .unary (ih ho) hop
    | binary op lhs rhs span ihl ihr =>
      obtain ⟨operandType, hl, hr⟩ := Option.bind_eq_some_iff.mp h
      split at hr
      · exact .binary (ihl hl) (ihr ‹_›) hr
      · exact nomatch hr
    | assign target value span ih =>
      obtain ⟨s, hs, hv⟩ := Option.bind_eq_some_iff.mp h
      split at hv
      · rename_i hc
        cases hv
        exact .assign hs hc.1 (ih hc.2)
      · exact nomatch hv

namespace Stmt

mutual

/-- The context behind a statement, where it is well-typed. -/
def check? : Stmt → Context → Option Context
  | print value _, Γ => (value.type? Γ).map fun _ => Γ
  | declare d _, Γ =>
    if Γ.innermost.lookup d.id.name = none ∧
        ∀ value ∈ d.initializer, value.type? Γ = some d.type then
      some (Γ.declare d.id.name ⟨d.type, d.isConstant⟩)
    else none
  | assign target value span, Γ => ((Expr.assign target value span).type? Γ).map fun _ => Γ
  | ifElse condition body none _, Γ =>
    if condition.type? Γ = some .boolean then (checkAll? body Γ.enter).map fun _ => Γ else none
  | ifElse condition body (some otherwise) _, Γ =>
    if condition.type? Γ = some .boolean then
      (checkAll? body Γ.enter).bind fun _ => (checkAll? otherwise Γ.enter).map fun _ => Γ
    else none
  | block body _, Γ => (checkAll? body Γ.enter).map fun _ => Γ

def checkAll? : List Stmt → Context → Option Context
  | [], Γ => some Γ
  | s :: rest, Γ => (s.check? Γ).bind fun Δ => checkAll? rest Δ

end

mutual

theorem Checks.check? {Γ Δ : Context} {s : Stmt} : Checks Γ s Δ → s.check? Γ = some Δ
  | .print he => by simp [Stmt.check?, Expr.hasType_iff_type?.mp he]
  | .declare hname hvalue => by
    simp only [Expr.hasType_iff_type?] at hvalue
    simpa [Stmt.check?, hname] using hvalue
  | .assign he => by simp [Stmt.check?, Expr.hasType_iff_type?.mp he]
  | .ifThen hc hb => by simp [Stmt.check?, Expr.hasType_iff_type?.mp hc, hb.checkAll?]
  | .ifElse hc hb ho => by
    simp [Stmt.check?, Expr.hasType_iff_type?.mp hc, hb.checkAll?, ho.checkAll?]
  | .block hb => by simp [Stmt.check?, hb.checkAll?]

theorem ChecksAll.checkAll? {Γ Δ : Context} {body : List Stmt} :
    ChecksAll Γ body Δ → Stmt.checkAll? body Γ = some Δ
  | .nil => rfl
  | .cons hs hr => by simp [Stmt.checkAll?, hs.check?, hr.checkAll?]

end

mutual

theorem checks_of_check? {Γ Δ : Context} : {s : Stmt} → s.check? Γ = some Δ → Checks Γ s Δ
  | .print value span, h => by
    obtain ⟨type, he, rfl⟩ := Option.map_eq_some_iff.mp h
    exact .print (Expr.hasType_iff_type?.mpr he)
  | .declare d span, h => by
    rw [check?] at h
    split at h
    · rename_i hd
      cases h
      exact .declare hd.1 fun value hvalue => Expr.hasType_iff_type?.mpr (hd.2 value hvalue)
    · exact nomatch h
  | .assign target value span, h => by
    obtain ⟨type, he, rfl⟩ := Option.map_eq_some_iff.mp h
    exact .assign (Expr.hasType_iff_type?.mpr he)
  | .ifElse condition body none span, h => by
    rw [check?] at h
    split at h
    · obtain ⟨Δ, hb, rfl⟩ := Option.map_eq_some_iff.mp h
      exact .ifThen (Expr.hasType_iff_type?.mpr ‹_›) (checksAll_of_checkAll? hb)
    · exact nomatch h
  | .ifElse condition body (some otherwise) span, h => by
    rw [check?] at h
    split at h
    · obtain ⟨Δ, hb, h⟩ := Option.bind_eq_some_iff.mp h
      obtain ⟨Δ', ho, rfl⟩ := Option.map_eq_some_iff.mp h
      exact .ifElse (Expr.hasType_iff_type?.mpr ‹_›) (checksAll_of_checkAll? hb)
        (checksAll_of_checkAll? ho)
    · exact nomatch h
  | .block body span, h => by
    obtain ⟨Δ, hb, rfl⟩ := Option.map_eq_some_iff.mp h
    exact .block (checksAll_of_checkAll? hb)

theorem checksAll_of_checkAll? {Γ Δ : Context} :
    {body : List Stmt} → checkAll? body Γ = some Δ → ChecksAll Γ body Δ
  | [], h => by
    cases h
    exact .nil
  | s :: rest, h => by
    obtain ⟨Δ, hs, hr⟩ := Option.bind_eq_some_iff.mp h
    exact .cons (checks_of_check? hs) (checksAll_of_checkAll? hr)

end

instance {Γ Δ : Context} {body : List Stmt} : Decidable (ChecksAll Γ body Δ) :=
  decidable_of_iff (checkAll? body Γ = some Δ) ⟨checksAll_of_checkAll?, ChecksAll.checkAll?⟩

end Stmt

end EggLang
