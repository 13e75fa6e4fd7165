import EggLang.Proofs.Grammar.Places
import EggLang.Proofs.Parse.Failure

/-! The statements in a tree and the expressions in them. Each statement in a parsed tree was itself
parsed as a statement, and each of its expressions as an expression, at a place that tokens of the
input lead to. -/

namespace EggLang

open Parse

/-- The statement is a node of another one. -/
inductive Stmt.OccursIn (s : Stmt) : Stmt → Prop
  | here : OccursIn s s
  | body {condition : Expr} {body : List Stmt} {otherwise : Option (List Stmt)} {span : Span}
      {t : Stmt} : t ∈ body → OccursIn s t → OccursIn s (.ifElse condition body otherwise span)
  | otherwise {condition : Expr} {body other : List Stmt} {span : Span} {t : Stmt} : t ∈ other →
      OccursIn s t → OccursIn s (.ifElse condition body (some other) span)
  | block {body : List Stmt} {span : Span} {t : Stmt} : t ∈ body → OccursIn s t →
      OccursIn s (.block body span)

/-- The expression is one of the statement itself. An increment has none, as its value is made from
its target. What is written behind a `=` is never such a value, as its names stand elsewhere. -/
inductive Expr.PartOf (e : Expr) : Stmt → Prop
  | printed {span : Span} : PartOf e (.print e span)
  | initial {d : Declaration} {span : Span} : d.initializer = some e → PartOf e (.declare d span)
  | assigned {target : Ident} {span : Span} : (∀ op, e ≠ increment target op) →
      PartOf e (.assign target e span)
  | condition {body : List Stmt} {otherwise : Option (List Stmt)} {span : Span} :
      PartOf e (.ifElse e body otherwise span)

/-- The expression is a node of an expression of a statement in the given one. -/
def Expr.WrittenIn (e : Expr) (s : Stmt) : Prop :=
  ∃ t whole, t.OccursIn s ∧ whole.PartOf t ∧ e.OccursIn whole

namespace Parse

/-- Tokens from the first cursor on lead to the second. -/
def Cursor.LeadsTo (c m : Cursor) : Prop := ∃ ts, c.Takes ts m

namespace Cursor.LeadsTo

variable {c m c' : Cursor}

theorem refl : c.LeadsTo c := ⟨[], rfl⟩

theorem trans (h : c.LeadsTo m) (h' : m.LeadsTo c') : c.LeadsTo c' := by
  obtain ⟨ts, hts⟩ := h
  obtain ⟨us, hus⟩ := h'
  exact ⟨ts ++ us, hts.append hus⟩

theorem of_at? {kind : TokenKind} {text : String} (h : c.at? kind text = true)
    (hk : kind ≠ .endOfFile := by decide) : c.LeadsTo c.advance :=
  ⟨[c.current], Grammar.takes_of_at? h hk⟩

theorem of_gives {α : Type} {n : Nat} {x : Reply n α} {a : α} (hx : x.Progress c)
    (h : x.Gives a m) : c.LeadsTo m := by
  obtain ⟨t, ts, hts⟩ := hx.pos_of_gives a m h
  exact ⟨t :: ts, hts⟩

end Cursor.LeadsTo

/-- What a statement between two cursors was made from. -/
inductive Makes (c : Cursor) : Stmt → Cursor → Prop
  | print {k m c' : Cursor} {value : Expr} {span : Span} : c.LeadsTo k →
      (expression .lowest k).Gives value m → Makes c (.print value span) c'
  | declare {d : Declaration} {c' : Cursor} {span : Span} : (∀ value ∈ d.initializer, ∃ k m,
      c.LeadsTo k ∧ (expression .lowest k).Gives value m) → Makes c (.declare d span) c'
  | assign {m c' : Cursor} {target : Ident} {value : Expr} {place span : Span} :
      (expression .lowest c).Gives (.assign target value place) m →
      Makes c (.assign target value span) c'
  | increment {m c' : Cursor} {id : Ident} {span : Span} :
      (expression .lowest c).Gives (.var id) m → m.at? .operator "++" = true →
      Makes c (.assign id (increment id m.current.span) span) c'
  | ifElse {k m n c' : Cursor} {condition : Expr} {body : List Stmt}
      {otherwise : Option (List Stmt)} {span : Span} : c.LeadsTo k →
      (expression .lowest k).Gives condition m → (branch m).Gives body n →
      (alternative n).Gives otherwise c' → Makes c (.ifElse condition body otherwise span) c'
  | block {k c' : Cursor} {body : List Stmt} {span : Span} : c.LeadsTo k →
      (items k).Gives body c' → Makes c (.block body span) c'

section

variable {c k m c' : Cursor}

theorem makes_of_declaring {isConstant : Bool} {id : Ident} {type : DataType} {place : Unplaced}
    (hm : c.LeadsTo m) (h : (declaring isConstant id type m).Gives place c') (span : Span) :
    Makes c (place span) c' ∧ (place span).span = span := by
  obtain ⟨value, k, hv, -, -, rfl, rfl⟩ := declaring_gives.mp h
  refine ⟨.declare fun e he => ?_, rfl⟩
  rcases initializer_gives.mp hv with ⟨hop, e', he', rfl⟩ | ⟨-, rfl, -⟩
  · cases he
    exact ⟨m.advance, k, hm.trans (.of_at? hop), he'⟩
  · cases he

theorem leadsTo_of_bracketed {id : Ident} {type : DataType}
    (h : (bracketed c).Gives (id, type) m) : c.LeadsTo m := by
  obtain ⟨ts, hts, -⟩ := Grammar.bracketed_of_gives h
  exact ⟨ts, hts⟩

theorem leadsTo_of_typeFirst {id : Ident} {type : DataType}
    (h : (typeFirst c).Gives (id, type) m) : c.LeadsTo m := by
  obtain ⟨ts, hts, -⟩ := Grammar.typeFirst_of_gives h
  exact ⟨ts, hts⟩

/-- A statement is made from what stands between its cursors, and its span goes from the first token
to the last one. -/
theorem makes_of_statement {s : Stmt} (h : (statement c).Gives s c') :
    Makes c s c' ∧ s.span = c.current.span.join c'.behind := by
  obtain ⟨place, rfl, hplace⟩ := statement_gives.mp h
  rcases hplace with ⟨hk, h⟩ | ⟨hk, condition, k, hc, body, m, hb, otherwise, ho, rfl⟩ |
    ⟨hk, id, type, m, hd, h⟩ | ⟨hk, h⟩ | ⟨-, id, type, m, hd, h⟩ | ⟨hl, body, hb, rfl⟩ | ⟨-, h⟩
  · obtain ⟨hl, e, m, he, -, -, rfl, rfl⟩ := printing_gives.mp h
    exact ⟨.print (.trans (.of_at? hk) (.of_at? hl)) he, rfl⟩
  · exact ⟨.ifElse (.of_at? hk) hc hb ho, rfl⟩
  · exact makes_of_declaring (.trans (.of_at? hk) (leadsTo_of_bracketed hd)) h _
  · obtain ⟨id, type, m, hd, h⟩ := constant_gives.mp h
    have hm : c.advance.LeadsTo m := hd.elim leadsTo_of_bracketed leadsTo_of_typeFirst
    exact makes_of_declaring (.trans (.of_at? hk) hm) h _
  · exact makes_of_declaring (leadsTo_of_typeFirst hd) h _
  · exact ⟨.block (.of_at? hl) hb, rfl⟩
  · obtain ⟨e, m, he, h⟩ := assignment_gives.mp h
    rcases h with ⟨target, value, span, rfl, -, rfl, rfl⟩ | ⟨id, rfl, hop, -, rfl, rfl⟩
    · exact ⟨.assign he, rfl⟩
    · exact ⟨.increment he hop, rfl⟩

/-! ### Every statement and every expression -/

/-- The statement was parsed at a place that tokens from the cursor on lead to. -/
def Cursor.Has (c : Cursor) (s : Stmt) : Prop :=
  ∃ m m', c.LeadsTo m ∧ (statement m).Gives s m'

theorem Cursor.Has.behind {s : Stmt} (hm : c.LeadsTo m) (h : m.Has s) : c.Has s := by
  obtain ⟨k, k', hk, hs⟩ := h
  exact ⟨k, k', hm.trans hk, hs⟩

theorem has_of_items {body : List Stmt} (h : (items c).Gives body c') {s : Stmt} (hs : s ∈ body) :
    c.Has s := by
  induction body generalizing c with
  | nil => exact nomatch hs
  | cons t rest ih =>
    rcases items_gives.mp h with ⟨-, hnil, -⟩ | ⟨-, -, t', m, rest', ht, hrest, hcons⟩
    · cases hnil
    · cases hcons
      rcases List.mem_cons.mp hs with rfl | hs
      · exact ⟨c, m, .refl, ht⟩
      · exact .behind (.of_gives (statement_progress c) ht) (ih hrest hs)

theorem has_of_branch {body : List Stmt} (h : (branch c).Gives body c') {s : Stmt}
    (hs : s ∈ body) : c.Has s := by
  rcases branch_gives.mp h with ⟨hl, h⟩ | ⟨-, t, ht, rfl⟩
  · exact .behind (.of_at? hl) (has_of_items h hs)
  · obtain rfl := List.mem_singleton.mp hs
    exact ⟨c, c', .refl, ht⟩

theorem has_of_program {body : List Stmt} (h : program c = .ok body) {s : Stmt} (hs : s ∈ body) :
    c.Has s := by
  induction body generalizing c with
  | nil => exact nomatch hs
  | cons t rest ih =>
    rcases program_eq_ok_iff.mp h with ⟨-, hnil⟩ | ⟨-, t', m, ht, rest', hrest, hcons⟩
    · cases hnil
    · cases hcons
      rcases List.mem_cons.mp hs with rfl | hs
      · exact ⟨c, m, .refl, ht⟩
      · exact .behind (.of_gives (statement_progress c) ht) (ih hrest hs)

/-- The statements below a parsed one were parsed too. -/
theorem Cursor.Has.of_occursIn {s t : Stmt} (h : c.Has t) (hs : s.OccursIn t) : c.Has s := by
  induction hs generalizing c with
  | here => exact h
  | body ht _ ih =>
    obtain ⟨m, m', hm, hgives⟩ := h
    cases (makes_of_statement hgives).1 with
    | ifElse hk hc hb _ =>
      have hbranch := has_of_branch hb ht
      exact ih (.behind (.trans hm (.trans hk (.of_gives (expression_progress _ _) hc))) hbranch)
  | otherwise ht _ ih =>
    obtain ⟨m, m', hm, hgives⟩ := h
    cases (makes_of_statement hgives).1 with
    | ifElse hk hc hb ho =>
      rcases alternative_gives.mp ho with ⟨he, other, hother, hsome⟩ | ⟨-, hnone, -⟩
      · cases hsome
        have hbranch := has_of_branch hother ht
        have hfirst := hk.trans (.of_gives (expression_progress _ _) hc)
        have hsecond := hfirst.trans (.of_gives (branch_progress _) hb)
        exact ih (.behind (hm.trans (hsecond.trans (.of_at? he))) hbranch)
      · cases hnone
  | block ht _ ih =>
    obtain ⟨m, m', hm, hgives⟩ := h
    cases (makes_of_statement hgives).1 with
    | block hk hb => exact ih (.behind (hm.trans hk) (has_of_items hb ht))

/-- The expression is a node of one that was parsed at a place that tokens from the cursor on lead
to. -/
def Cursor.HasExpr (c : Cursor) (e : Expr) : Prop :=
  ∃ m m' whole, c.LeadsTo m ∧ (expression .lowest m).Gives whole m' ∧ e.OccursIn whole

theorem Cursor.HasExpr.exists_places {e : Expr} (h : c.HasExpr e) :
    ∃ pre us m n, c.Takes (pre ++ us) m ∧ Grammar.Places n us e := by
  obtain ⟨m, m', whole, ⟨pre, hpre⟩, hgives, he⟩ := h
  obtain ⟨ts, hts, hplaces⟩ := Grammar.expression_places hgives
  obtain ⟨n, us, ⟨front, back, rfl⟩, hnode⟩ := hplaces.of_occursIn he
  obtain ⟨k, hus, -⟩ := Cursor.takes_append.mp hts
  exact ⟨pre ++ front, us, k, n, by rw [List.append_assoc]; exact hpre.append hus, hnode⟩

theorem Cursor.Takes.isInfix {ts pre us : List Token} {m : Cursor}
    (h : (Cursor.ofTokens ts).Takes (pre ++ us) m) : us <:+: ts :=
  ⟨pre, m.ahead, h.ahead_eq.symm⟩

/-- What was taken off the tokens of a text stands in it one behind the other. -/
theorem Cursor.Takes.successive {text : String} {ts pre us : List Token} {m : Cursor}
    (hts : tokenize text = .ok ts) (h : (Cursor.ofTokens ts).Takes (pre ++ us) m) :
    Successive us :=
  successive_of_tokenize hts h.isInfix.sublist fun t ht => h.kind_ne t (List.mem_append_right _ ht)

theorem Cursor.Has.hasExpr {s : Stmt} {e : Expr} (h : c.Has s) (he : e.WrittenIn s) :
    c.HasExpr e := by
  obtain ⟨t, whole, ht, hwhole, he⟩ := he
  obtain ⟨m, m', hm, hgives⟩ := h.of_occursIn ht
  cases (makes_of_statement hgives).1 with
  | print hk hvalue =>
    cases hwhole
    exact ⟨_, _, _, hm.trans hk, hvalue, he⟩
  | declare hvalue =>
    cases hwhole with
    | initial hd =>
      obtain ⟨k, k', hk, hvalue⟩ := hvalue whole hd
      exact ⟨k, k', whole, hm.trans hk, hvalue, he⟩
  | assign hvalue =>
    cases hwhole
    exact ⟨_, _, _, hm, hvalue, .value he⟩
  | increment _ _ =>
    cases hwhole with
    | assigned hnot => exact absurd rfl (hnot _)
  | ifElse hk hcondition _ _ =>
    cases hwhole
    exact ⟨_, _, _, hm.trans hk, hcondition, he⟩
  | block _ _ => cases hwhole

end

end Parse

end EggLang
