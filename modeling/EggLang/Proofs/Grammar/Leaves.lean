import EggLang.Proofs.Grammar.Statement

/-! The names and literals in a tree. Each of them is made from a token of its own, so that what
holds of all tokens of a text holds of the leaves of its trees. -/

namespace EggLang

/-- `name` holds of each name in the expression, and `value` of each literal. -/
inductive Expr.Leaves (name : String → Prop) (value : Value → Prop) : Expr → Prop
  | literal {v : Value} {span : Span} : value v → Leaves name value (literal v span)
  | var {id : Ident} : name id.name → Leaves name value (var id)
  | unary {op : UnaryOp} {operand : Expr} {span : Span} : Leaves name value operand →
      Leaves name value (unary op operand span)
  | binary {op : BinaryOp} {lhs rhs : Expr} {span : Span} : Leaves name value lhs →
      Leaves name value rhs → Leaves name value (binary op lhs rhs span)
  | assign {target : Ident} {e : Expr} {span : Span} : name target.name → Leaves name value e →
      Leaves name value (assign target e span)

/-- `name` holds of each name in the statement, and `value` of each literal. -/
inductive Stmt.Leaves (name : String → Prop) (value : Value → Prop) : Stmt → Prop
  | print {e : Expr} {span : Span} : e.Leaves name value → Leaves name value (print e span)
  | declare {d : Declaration} {span : Span} : name d.id.name →
      (∀ e ∈ d.initializer, e.Leaves name value) → Leaves name value (declare d span)
  | assign {target : Ident} {e : Expr} {span : Span} : name target.name → e.Leaves name value →
      Leaves name value (assign target e span)
  | ifElse {condition : Expr} {body : List Stmt} {otherwise : Option (List Stmt)} {span : Span} :
      condition.Leaves name value → (∀ s ∈ body, Leaves name value s) →
      (∀ other ∈ otherwise, ∀ s ∈ other, Leaves name value s) →
      Leaves name value (ifElse condition body otherwise span)
  | block {body : List Stmt} {span : Span} : (∀ s ∈ body, Leaves name value s) →
      Leaves name value (block body span)

section

variable {name : String → Prop} {value : Value → Prop}

/-- A tree without its spans has the same leaves. -/
theorem Expr.Leaves.of_bare {e : Expr} (h : e.bare.Leaves name value) : e.Leaves name value := by
  induction e with
  | literal v span =>
    rw [bare_literal] at h
    cases h with
    | literal hv => exact .literal hv
  | var id =>
    rw [bare_var] at h
    cases h with
    | var hname => exact .var hname
  | unary op operand span ih =>
    rw [bare_unary] at h
    cases h with
    | unary h => exact .unary (ih h)
  | binary op lhs rhs span ihl ihr =>
    rw [bare_binary] at h
    cases h with
    | binary hl hr => exact .binary (ihl hl) (ihr hr)
  | assign target e span ih =>
    rw [bare_assign] at h
    cases h with
    | assign hname he => exact .assign hname (ih he)

theorem Stmt.Leaves.of_bare : (s : Stmt) → s.bare.Leaves name value → s.Leaves name value
  | .print e span, h => by
    rw [bare_print] at h
    cases h with
    | print he => exact .print he.of_bare
  | .declare d span, h => by
    rw [bare_declare] at h
    cases h with
    | declare hname hinitial =>
      exact .declare hname fun e he => (hinitial e.bare (Option.mem_map_of_mem _ he)).of_bare
  | .assign target e span, h => by
    rw [bare_assign] at h
    cases h with
    | assign hname he => exact .assign hname he.of_bare
  | .ifElse condition body none span, h => by
    rw [bare_ifElse] at h
    cases h with
    | ifElse hcondition hbody _ =>
      exact .ifElse hcondition.of_bare
        (fun s hs => of_bare s (hbody s.bare (List.mem_map_of_mem hs))) (by simp)
  | .ifElse condition body (some other) span, h => by
    rw [bare_ifElse] at h
    cases h with
    | ifElse hcondition hbody hother =>
      refine .ifElse hcondition.of_bare
        (fun s hs => of_bare s (hbody s.bare (List.mem_map_of_mem hs))) ?_
      rintro _ ⟨⟩ s hs
      exact of_bare s (hother _ rfl s.bare (List.mem_map_of_mem hs))
  | .block body span, h => by
    rw [bare_block] at h
    cases h with
    | block hbody => exact .block fun s hs => of_bare s (hbody s.bare (List.mem_map_of_mem hs))

end

/-- What is asked of names and literals holds of the one that the token is, if it is one. -/
structure Token.Stands (name : String → Prop) (value : Value → Prop) (t : Token) : Prop where
  name : t.kind = .identifier → name t.text
  number : t.kind = .number → ∀ x, Number.read? t.text = some x → value (.number x)
  string : t.kind = .string → value (.string t.text)

/-- What is asked of literals holds of those that no token of their own is read for. -/
structure Value.Given (value : Value → Prop) : Prop where
  boolean : ∀ b, value (.boolean b)
  one : value (.number .one)

namespace Grammar

section

variable {name : String → Prop} {value : Value → Prop} {ts us : List Token}

theorem Target.name_of_stands {n : String} (h : Target ts n)
    (hts : ∀ t ∈ ts, t.Stands name value) : name n := by
  induction h with
  | name hk => exact (hts _ List.mem_cons_self).name hk
  | parenthesized _ _ _ ih =>
    refine ih fun t ht => hts t ?_
    simp [ht]

theorem Derives.leaves (hgiven : Value.Given value) {n : Nonterminal} {e : Expr}
    (h : Derives n ts e) (hts : ∀ t ∈ ts, t.Stands name value) : e.Leaves name value := by
  induction h with
  | assign ht _ _ ih =>
    rw [List.forall_mem_append, List.forall_mem_cons] at hts
    exact .assign (ht.name_of_stands hts.1) (ih hts.2.2)
  | binary _ _ _ _ _ ihl ihr =>
    rw [List.forall_mem_append, List.forall_mem_cons] at hts
    exact .binary (ihl hts.1) (ihr hts.2.2)
  | operand _ _ ih => exact ih hts
  | unary _ _ ih => exact .unary (ih (List.forall_mem_cons.mp hts).2)
  | number hk hread => exact .literal ((hts _ List.mem_cons_self).number hk _ hread)
  | string hk => exact .literal ((hts _ List.mem_cons_self).string hk)
  | boolean _ => exact .literal (hgiven.boolean _)
  | var hk => exact .var ((hts _ List.mem_cons_self).name hk)
  | parenthesized _ _ _ ih =>
    refine ih fun t ht => hts t ?_
    simp [ht]

theorem Heading.name_of_stands {isConstant : Bool} {n : String} {type : DataType}
    (h : Heading ts isConstant n type) (hts : ∀ t ∈ ts, t.Stands name value) : name n := by
  cases h with
  | bracketed _ hd | constantBracketed _ hd =>
    cases hd with
    | mk hi => exact (hts _ (by simp)).name hi
  | typeFirst hd | constantTypeFirst _ hd =>
    cases hd with
    | mk _ hi => exact (hts _ (by simp)).name hi

theorem Initial.leaves (hgiven : Value.Given value) {initializer : Option Expr}
    (h : Initial ts initializer) (hts : ∀ t ∈ ts, t.Stands name value) :
    ∀ e ∈ initializer, e.Leaves name value := by
  cases h with
  | none => exact nofun
  | some _ hd =>
    rintro _ ⟨⟩
    exact hd.leaves hgiven (List.forall_mem_cons.mp hts).2

mutual

theorem Statement.leaves (hgiven : Value.Given value) {ts : List Token} {next : Option Token}
    {s : Stmt} :
    Statement ts next s → (∀ t ∈ ts, t.Stands name value) → s.Leaves name value
  | .print _ _ hd _ _, hts => .print (hd.leaves hgiven fun t ht => hts t (by simp [ht]))
  | .ifThen _ hd hb _, hts =>
    .ifElse (hd.leaves hgiven fun t ht => hts t (by simp [ht]))
      (hb.leaves hgiven fun t ht => hts t (by simp [ht])) (by simp)
  | .ifElse _ hd hb _ ho, hts => by
    refine .ifElse (hd.leaves hgiven fun t ht => hts t (by simp [ht]))
      (hb.leaves hgiven fun t ht => hts t (by simp [ht])) ?_
    rintro _ ⟨⟩
    exact ho.leaves hgiven fun t ht => hts t (by simp [ht])
  | .declare hd hi _ _, hts =>
    .declare (hd.name_of_stands fun t ht => hts t (by simp [ht]))
      (hi.leaves hgiven fun t ht => hts t (by simp [ht]))
  | .block _ hb _, hts => .block (hb.leaves hgiven fun t ht => hts t (by simp [ht]))
  | .assign hd _, hts => by
    cases hd.leaves hgiven fun t ht => hts t (by simp [ht]) with
    | assign hname he => exact .assign hname he
  | .increment hd _ _, hts => by
    cases hd.leaves hgiven fun t ht => hts t (by simp [ht]) with
    | var hname => exact .assign hname (.binary (.var hname) (.literal hgiven.one))

theorem Body.leaves (hgiven : Value.Given value) {ts : List Token} {next : Option Token}
    {body : List Stmt} :
    Body ts next body → (∀ t ∈ ts, t.Stands name value) → ∀ s ∈ body, s.Leaves name value
  | .braces _ hb _, hts => hb.leaves hgiven fun t ht => hts t (by simp [ht])
  | .single _ hs, hts => List.forall_mem_singleton.mpr (hs.leaves hgiven hts)

theorem Statements.leaves (hgiven : Value.Given value) {ts : List Token} {next : Option Token}
    {body : List Stmt} :
    Statements ts next body → (∀ t ∈ ts, t.Stands name value) → ∀ s ∈ body, s.Leaves name value
  | .nil, _ => List.forall_mem_nil _
  | .cons hs hr, hts => by
    rw [List.forall_mem_append] at hts
    exact List.forall_mem_cons.mpr ⟨hs.leaves hgiven hts.1, hr.leaves hgiven hts.2⟩

end

end

end Grammar

end EggLang
