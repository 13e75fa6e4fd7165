import EggLang.Tree

/-! Trees up to the places of their nodes: `mapSpans` changes every span in a tree, and `bare`
forgets them all, so that two trees are the same up to spans when their `bare` trees are equal. -/

namespace EggLang

def Token.mapSpan (f : Span → Span) (t : Token) : Token := ⟨t.kind, t.text, f t.span⟩

def Ident.mapSpan (f : Span → Span) (id : Ident) : Ident := ⟨id.name, f id.span⟩

def Expr.mapSpans (f : Span → Span) : Expr → Expr
  | literal v span => literal v (f span)
  | var id => var (id.mapSpan f)
  | unary op operand span => unary op (operand.mapSpans f) (f span)
  | binary op lhs rhs span => binary op (lhs.mapSpans f) (rhs.mapSpans f) (f span)
  | assign target value span => assign (target.mapSpan f) (value.mapSpans f) (f span)

def Declaration.mapSpans (f : Span → Span) (d : Declaration) : Declaration :=
  ⟨d.id.mapSpan f, d.type, d.isConstant, d.initializer.map (·.mapSpans f)⟩

namespace Stmt

mutual

def mapSpans (f : Span → Span) : Stmt → Stmt
  | print value span => print (value.mapSpans f) (f span)
  | declare d span => declare (d.mapSpans f) (f span)
  | assign target value span => assign (target.mapSpan f) (value.mapSpans f) (f span)
  | ifElse condition body none span =>
    ifElse (condition.mapSpans f) (mapAllSpans f body) none (f span)
  | ifElse condition body (some otherwise) span =>
    ifElse (condition.mapSpans f) (mapAllSpans f body) (some (mapAllSpans f otherwise)) (f span)
  | block body span => block (mapAllSpans f body) (f span)

def mapAllSpans (f : Span → Span) : List Stmt → List Stmt
  | [] => []
  | s :: rest => s.mapSpans f :: mapAllSpans f rest

end

theorem mapAllSpans_eq_map (f : Span → Span) (body : List Stmt) :
    mapAllSpans f body = body.map (mapSpans f) := by
  induction body with
  | nil => rfl
  | cons s rest ih => simp [mapAllSpans, ih]

@[simp] theorem mapSpans_print (f : Span → Span) (value : Expr) (span : Span) :
    (print value span).mapSpans f = print (value.mapSpans f) (f span) := by
  rw [mapSpans]

@[simp] theorem mapSpans_declare (f : Span → Span) (d : Declaration) (span : Span) :
    (declare d span).mapSpans f = declare (d.mapSpans f) (f span) := by
  rw [mapSpans]

@[simp] theorem mapSpans_assign (f : Span → Span) (target : Ident) (value : Expr) (span : Span) :
    (assign target value span).mapSpans f =
      assign (target.mapSpan f) (value.mapSpans f) (f span) := by
  rw [mapSpans]

@[simp] theorem mapSpans_ifElse (f : Span → Span) (condition : Expr) (body : List Stmt)
    (otherwise : Option (List Stmt)) (span : Span) :
    (ifElse condition body otherwise span).mapSpans f =
      ifElse (condition.mapSpans f) (body.map (mapSpans f)) (otherwise.map (·.map (mapSpans f)))
        (f span) := by
  cases otherwise <;> simp [mapSpans, mapAllSpans_eq_map]

@[simp] theorem mapSpans_block (f : Span → Span) (body : List Stmt) (span : Span) :
    (block body span).mapSpans f = block (body.map (mapSpans f)) (f span) := by
  rw [mapSpans, mapAllSpans_eq_map]

end Stmt

/-! ### With no span changed -/

theorem Expr.mapSpans_id (e : Expr) : e.mapSpans (fun span => span) = e := by
  induction e with
  | literal v span => rfl
  | var id => rfl
  | unary op operand span ih => rw [mapSpans, ih]
  | binary op lhs rhs span ihl ihr => rw [mapSpans, ihl, ihr]
  | assign target value span ih => rw [mapSpans, ih]; rfl

theorem Declaration.mapSpans_id (d : Declaration) : d.mapSpans (fun span => span) = d := by
  obtain ⟨id, type, isConstant, initializer⟩ := d
  cases initializer with
  | none => rfl
  | some value => rw [mapSpans, Option.map_some, Expr.mapSpans_id]; rfl

namespace Stmt

mutual

theorem mapSpans_id : (s : Stmt) → s.mapSpans (fun span => span) = s
  | print value _ => by rw [mapSpans, value.mapSpans_id]
  | declare d _ => by rw [mapSpans, d.mapSpans_id]
  | assign target value _ => by rw [mapSpans, value.mapSpans_id]; rfl
  | ifElse condition body none _ => by
    rw [mapSpans, condition.mapSpans_id, mapAllSpans_id body]
  | ifElse condition body (some otherwise) _ => by
    rw [mapSpans, condition.mapSpans_id, mapAllSpans_id body, mapAllSpans_id otherwise]
  | block body _ => by rw [mapSpans, mapAllSpans_id body]

theorem mapAllSpans_id : (body : List Stmt) → mapAllSpans (fun span => span) body = body
  | [] => rfl
  | s :: rest => by rw [mapAllSpans, mapSpans_id s, mapAllSpans_id rest]

end

theorem map_mapSpans_id (body : List Stmt) : body.map (mapSpans fun span => span) = body := by
  rw [← mapAllSpans_eq_map, mapAllSpans_id]

end Stmt

/-! ### Without any span -/

/-- The identifier `name` at no place. -/
def Ident.ofName (name : String) : Ident := ⟨name, .nowhere⟩

/-- The token `text` at no place. -/
def Token.ofText (kind : TokenKind) (text : String) : Token := ⟨kind, text, .nowhere⟩

def Token.bare (t : Token) : Token := t.mapSpan fun _ => .nowhere

def Expr.bare (e : Expr) : Expr := e.mapSpans fun _ => .nowhere

def Declaration.bare (d : Declaration) : Declaration := d.mapSpans fun _ => .nowhere

def Stmt.bare (s : Stmt) : Stmt := s.mapSpans fun _ => .nowhere

namespace Expr

@[simp] theorem bare_literal (v : Value) (span : Span) :
    (literal v span).bare = literal v .nowhere := rfl

@[simp] theorem bare_var (id : Ident) : (var id).bare = var (.ofName id.name) := rfl

@[simp] theorem bare_unary (op : UnaryOp) (operand : Expr) (span : Span) :
    (unary op operand span).bare = unary op operand.bare .nowhere := rfl

@[simp] theorem bare_binary (op : BinaryOp) (lhs rhs : Expr) (span : Span) :
    (binary op lhs rhs span).bare = binary op lhs.bare rhs.bare .nowhere := rfl

@[simp] theorem bare_assign (target : Ident) (value : Expr) (span : Span) :
    (assign target value span).bare = assign (.ofName target.name) value.bare .nowhere := rfl

end Expr

@[simp] theorem Declaration.bare_mk (id : Ident) (type : DataType) (isConstant : Bool)
    (value : Option Expr) : (Declaration.mk id type isConstant value).bare =
      ⟨.ofName id.name, type, isConstant, value.map Expr.bare⟩ := rfl

namespace Stmt

@[simp] theorem bare_print (value : Expr) (span : Span) :
    (print value span).bare = print value.bare .nowhere :=
  mapSpans_print _ value span

@[simp] theorem bare_declare (d : Declaration) (span : Span) :
    (declare d span).bare = declare d.bare .nowhere :=
  mapSpans_declare _ d span

@[simp] theorem bare_assign (target : Ident) (value : Expr) (span : Span) :
    (assign target value span).bare = assign (.ofName target.name) value.bare .nowhere :=
  mapSpans_assign _ target value span

@[simp] theorem bare_ifElse (condition : Expr) (body : List Stmt)
    (otherwise : Option (List Stmt)) (span : Span) :
    (ifElse condition body otherwise span).bare =
      ifElse condition.bare (body.map bare) (otherwise.map (·.map bare)) .nowhere :=
  mapSpans_ifElse _ condition body otherwise span

@[simp] theorem bare_block (body : List Stmt) (span : Span) :
    (block body span).bare = block (body.map bare) .nowhere :=
  mapSpans_block _ body span

end Stmt

end EggLang
