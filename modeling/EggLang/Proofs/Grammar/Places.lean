import EggLang.Proofs.Excerpt
import EggLang.Proofs.Grammar.Expression

/-! Expressions in their places. Each node of a tree was parsed from tokens of its own, which its
span goes over, but for parentheses that open before its first operand. A target of an assignment is
an identifier, in parentheses or not. -/

namespace EggLang

open Parse

/-- The expression is a node of another one. -/
inductive Expr.OccursIn (x : Expr) : Expr → Prop
  | here : OccursIn x x
  | operand {op : UnaryOp} {operand : Expr} {span : Span} : OccursIn x operand →
      OccursIn x (.unary op operand span)
  | left {op : BinaryOp} {lhs rhs : Expr} {span : Span} : OccursIn x lhs →
      OccursIn x (.binary op lhs rhs span)
  | right {op : BinaryOp} {lhs rhs : Expr} {span : Span} : OccursIn x rhs →
      OccursIn x (.binary op lhs rhs span)
  | value {target : Ident} {value : Expr} {span : Span} : OccursIn x value →
      OccursIn x (.assign target value span)

namespace Grammar

/-! ### Parentheses around tokens -/

/-- The first list is the second one in any number of parentheses. -/
inductive Wraps : List Token → List Token → Prop
  | refl {us : List Token} : Wraps us us
  | parentheses {l r : Token} {ts us : List Token} : l.is .punctuation "(" → Wraps ts us →
      r.is .punctuation ")" → Wraps (l :: ts ++ [r]) us

theorem Wraps.exists_append {ts us : List Token} (h : Wraps ts us) :
    ∃ ls rs, ts = ls ++ us ++ rs ∧ ∀ t ∈ ls, t.is .punctuation "(" = true := by
  induction h with
  | refl => exact ⟨[], [], by simp, nofun⟩
  | @parentheses l r ts us hl _ _ ih =>
    obtain ⟨ls, rs, rfl, hls⟩ := ih
    exact ⟨l :: ls, rs ++ [r], by simp, List.forall_mem_cons.mpr ⟨hl, hls⟩⟩

/-- One token in parentheses is among them. -/
theorem Wraps.mem {ts : List Token} {t : Token} (h : Wraps ts [t]) : t ∈ ts := by
  obtain ⟨ls, rs, rfl, -⟩ := h.exists_append
  simp

/-! ### The place of a tree -/

/-- The span of the expression goes over the tokens `us`, before which parentheses `ls` open that
belong to the expression. -/
structure Stands (ls us : List Token) (e : Expr) : Prop where
  opens : ∀ t ∈ ls, t.is .punctuation "(" = true
  spans : Spans us e.span
  derives : Derives .expression (ls ++ us) e.bare

theorem literal_or_var_of_atom {t : Token} {e : Expr} (h : atom t = .ok e) :
    (∃ v, e = .literal v t.span) ∨ t.kind = .identifier ∧ e = .var ⟨t.text, t.span⟩ := by
  unfold atom at h
  split at h
  · split at h
    · cases h
      exact .inl ⟨_, rfl⟩
    · cases h
  · cases h
    exact .inl ⟨_, rfl⟩
  · split at h
    · cases h
      exact .inl ⟨_, rfl⟩
    · split at h
      · cases h
        exact .inl ⟨_, rfl⟩
      · cases h
  · rename_i hkind
    cases h
    exact .inr ⟨hkind, rfl⟩
  · cases h

theorem span_of_atom {t : Token} {e : Expr} (h : atom t = .ok e) : e.span = t.span := by
  rcases literal_or_var_of_atom h with ⟨v, rfl⟩ | ⟨-, rfl⟩
  · rfl
  · rfl

namespace Places

variable {n : Nonterminal} {ts us : List Token} {e x : Expr}

/-- An operation that starts with an operand starts inside the parentheses around it. -/
theorem stands_behind {lhs : Expr} {ls vs : List Token} {t u : Token} {ws : List Token}
    (h : Derives .expression (ts ++ t :: ws) e.bare) (hs : Successive (ts ++ t :: ws))
    (hts : Wraps ts (ls ++ vs)) (hlhs : Stands ls vs lhs) (hu : u ∈ ws.getLast?)
    (he : e.span = lhs.span.join u.span) :
    ∃ ls us, Wraps (ts ++ t :: ws) (ls ++ us) ∧ Stands ls us e := by
  obtain ⟨os, rs, rfl, hos⟩ := hts.exists_append
  have hu : u ∈ (rs ++ t :: ws).getLast? := by
    rw [List.getLast?_append, List.getLast?_cons, hu]
    rfl
  have hall : os ++ (ls ++ vs) ++ rs ++ t :: ws = (os ++ ls) ++ (vs ++ (rs ++ t :: ws)) := by simp
  rw [hall] at h hs ⊢
  refine ⟨os ++ ls, vs ++ (rs ++ t :: ws), .refl, ?_, ?_, h⟩
  · exact List.forall_mem_append.mpr ⟨hos, hlhs.opens⟩
  · rw [he]
    exact (hs.sublist (List.sublist_append_right _ _)).spans_append hlhs.spans hu

/-- An expression stands in the parentheses around it. -/
theorem stands (h : Places n ts e) (hs : Successive ts) :
    ∃ ls us, Wraps ts (ls ++ us) ∧ Stands ls us e := by
  have hderives := h.derives.loosen (m := .expression) (Nat.zero_le _)
  induction h with
  | @atom t e ha =>
    refine ⟨[], [t], .refl, nofun, ?_, hderives⟩
    rw [span_of_atom ha]
    exact .single t
  | @parenthesized l r ts e hl h hr ih =>
    have hinner : Successive ts := hs.sublist (by simp)
    obtain ⟨ls, us, hts, hstands⟩ := ih hinner h.derives
    exact ⟨ls, us, .parentheses hl hts hr, hstands⟩
  | @unary op t u ts e hop h hu ih =>
    refine ⟨[], t :: ts, .refl, nofun, hs.spans_cons ?_, hderives⟩
    rw [List.getLast?_cons, hu]
    rfl
  | @binary n m op ts us t u lhs rhs hn hm hl hop hr hu ihl ihr =>
    obtain ⟨ls, vs, hts, hlhs⟩ := ihl (hs.sublist (List.sublist_append_left _ _))
      (hl.derives.loosen (Nat.zero_le _))
    exact stands_behind hderives hs hts hlhs hu rfl
  | @assign n ts us t u target rhs hl hop hr hu ihl ihr =>
    obtain ⟨ls, vs, hts, hlhs⟩ := ihl (hs.sublist (List.sublist_append_left _ _))
      (hl.derives.loosen (Nat.zero_le _))
    exact stands_behind hderives hs hts hlhs hu rfl
  | operand _ _ ih => exact ih hs hderives

/-- Each node comes from a stretch of the tokens. -/
theorem of_occursIn (h : Places n ts e) (hx : x.OccursIn e) :
    ∃ m us, us <:+: ts ∧ Places m us x := by
  induction h with
  | atom ha =>
    cases hx with
    | here => exact ⟨_, _, List.infix_refl _, .atom ha⟩
    | _ => obtain ⟨v, ⟨⟩⟩ | ⟨-, ⟨⟩⟩ := literal_or_var_of_atom ha
  | @parenthesized l r ts e _ _ _ ih =>
    obtain ⟨m, us, hus, hplaces⟩ := ih hx
    exact ⟨m, us, hus.trans ⟨[l], [r], rfl⟩, hplaces⟩
  | @unary op t u ts e hop h hu ih =>
    cases hx with
    | here => exact ⟨_, _, List.infix_refl _, .unary hop h hu⟩
    | operand hx =>
      obtain ⟨m, us, hus, hplaces⟩ := ih hx
      exact ⟨m, us, hus.trans (List.suffix_cons t ts).isInfix, hplaces⟩
  | @binary n m op ts us t u lhs rhs hn hm hl hop hr hu ihl ihr =>
    cases hx with
    | here => exact ⟨_, _, List.infix_refl _, .binary hn hm hl hop hr hu⟩
    | left hx =>
      obtain ⟨k, vs, hvs, hplaces⟩ := ihl hx
      exact ⟨k, vs, hvs.trans (List.prefix_append ts (t :: us)).isInfix, hplaces⟩
    | right hx =>
      obtain ⟨k, vs, hvs, hplaces⟩ := ihr hx
      exact ⟨k, vs, hvs.trans ⟨ts ++ [t], [], by simp⟩, hplaces⟩
  | @assign n ts us t u target rhs hl hop hr hu ihl ihr =>
    cases hx with
    | here => exact ⟨_, _, List.infix_refl _, .assign hl hop hr hu⟩
    | value hx =>
      obtain ⟨k, vs, hvs, hplaces⟩ := ihr hx
      exact ⟨k, vs, hvs.trans ⟨ts ++ [t], [], by simp⟩, hplaces⟩
  | operand _ _ ih => exact ih hx

/-- A name is an identifier, in parentheses or not. -/
theorem name {id : Ident} (h : Places n ts (.var id)) :
    ∃ t, Wraps ts [t] ∧ t.kind = .identifier ∧ id = ⟨t.text, t.span⟩ := by
  generalize he : Expr.var id = e at h
  induction h with
  | @atom t e ha =>
    subst he
    obtain ⟨v, ⟨⟩⟩ | ⟨hkind, ⟨⟩⟩ := literal_or_var_of_atom ha
    exact ⟨t, .refl, hkind, rfl⟩
  | parenthesized hl _ hr ih =>
    obtain ⟨t, hts, h⟩ := ih he
    exact ⟨t, .parentheses hl hts hr, h⟩
  | operand _ _ ih => exact ih he
  | _ => cases he

/-- An assignment is its target, the operator and its value, in parentheses or not. -/
theorem target_value {id : Ident} {value : Expr} {span : Span}
    (h : Places n ts (.assign id value span)) :
    ∃ m us o vs, Places m us (.var id) ∧ o.is .operator "=" = true ∧ Places .expression vs value ∧
      us ++ o :: vs <:+: ts := by
  generalize he : Expr.assign id value span = e at h
  induction h with
  | atom ha =>
    subst he
    obtain ⟨v, ⟨⟩⟩ | ⟨-, ⟨⟩⟩ := literal_or_var_of_atom ha
  | @parenthesized l r ts e _ _ _ ih =>
    obtain ⟨m, us, o, vs, hname, hop, hvalue, hus⟩ := ih he
    exact ⟨m, us, o, vs, hname, hop, hvalue, hus.trans ⟨[l], [r], rfl⟩⟩
  | @assign n ts us t u target rhs hl hop hr hu _ _ =>
    cases he
    exact ⟨n, ts, t, us, hl, hop, hr, List.infix_refl _⟩
  | operand _ _ ih => exact ih he
  | _ => cases he

/-- The value of an assignment does not name the target with the target's own token. -/
theorem value_ne_increment {id : Ident} {value : Expr} {span : Span}
    (h : Places n ts (.assign id value span)) (hs : Successive ts) (op : Span) :
    value ≠ increment id op := by
  rintro rfl
  obtain ⟨m, us, o, vs, htarget, -, hvalue, hus⟩ := h.target_value
  obtain ⟨k, ws, hws, hname⟩ := hvalue.of_occursIn (.left (.here (x := .var id)))
  obtain ⟨t, ht, -, hid⟩ := htarget.name
  obtain ⟨t', ht', -, hid'⟩ := hname.name
  have hmem : t ∈ us := ht.mem
  have hmem' : t' ∈ o :: vs := List.mem_cons_of_mem o (hws.subset ht'.mem)
  have hordered := (List.pairwise_append.mp (hs.sublist hus.sublist).ordered).2.2 t hmem t' hmem'
  have hpos := hs.pos t (hus.subset (List.mem_append_left _ hmem))
  have hsame : t.span = t'.span := (Ident.mk.inj (hid.symm.trans hid')).2
  rw [← hsame] at hordered
  exact absurd hordered (Nat.not_le_of_lt hpos)

end Places

/-! ### Parentheses that are left out -/

/-- As many parentheses open as close. -/
def Balanced (ts : List Token) : Prop :=
  ts.countP (·.is .punctuation "(") = ts.countP (·.is .punctuation ")")

namespace Balanced

variable {ts us : List Token} {t : Token}

theorem append (hts : Balanced ts) (hus : Balanced us) : Balanced (ts ++ us) := by
  simp only [Balanced, List.countP_append] at hts hus ⊢
  omega

theorem cons (hkind : t.kind ≠ .punctuation) (hts : Balanced ts) : Balanced (t :: ts) := by
  have his : ∀ text, t.is .punctuation text = false := by simp [Token.is, hkind]
  simpa [Balanced, List.countP_cons, his] using hts

theorem parentheses {l r : Token} (hl : l.is .punctuation "(" = true) (hts : Balanced ts)
    (hr : r.is .punctuation ")" = true) : Balanced (l :: ts ++ [r]) := by
  have hl' : l.is .punctuation ")" = false := by simp_all [Token.is]
  have hr' : r.is .punctuation "(" = false := by simp_all [Token.is]
  simp only [Balanced, List.countP_append, List.countP_cons, hl, hl', hr, hr'] at hts ⊢
  simp [hts]

end Balanced

theorem Target.balanced {ts : List Token} {name : String} (h : Target ts name) : Balanced ts := by
  induction h with
  | name hkind => exact .cons (by simp [hkind]) rfl
  | parenthesized hl _ hr ih => exact .parentheses hl ih hr

theorem Derives.balanced {n : Nonterminal} {ts : List Token} {e : Expr} (h : Derives n ts e) :
    Balanced ts := by
  induction h with
  | assign ht hop _ ih => exact ht.balanced.append (.cons (by simp [kind_of_is hop]) ih)
  | binary _ _ _ hop _ ihl ihr => exact ihl.append (.cons (by simp [kind_of_is hop]) ihr)
  | operand _ _ ih => exact ih
  | unary hop _ ih => exact .cons (by simp [kind_of_is hop]) ih
  | number hkind | string hkind | var hkind => exact .cons (by simp [hkind]) rfl
  | boolean hb => exact .cons (by simp [kind_of_is hb]) rfl
  | parenthesized hl _ hr ih => exact .parentheses hl ih hr

/-- What the span goes over is no expression where parentheses open before it. -/
theorem Stands.eq_nil {ls us : List Token} {e x : Expr} {n : Nonterminal} (h : Stands ls us e)
    (hus : Derives n us x) : ls = [] := by
  have hall := h.derives.balanced
  have hopen : ls.countP (·.is .punctuation "(") = ls.length :=
    List.countP_eq_length.mpr h.opens
  have hclose : ls.countP (·.is .punctuation ")") = 0 := by
    rw [List.countP_eq_zero]
    intro t ht
    have hl := h.opens t ht
    simp_all [Token.is]
  have hbalanced := hus.balanced
  simp only [Balanced, List.countP_append, hopen, hclose] at hall hbalanced
  exact List.eq_nil_of_length_eq_zero (by omega)

end Grammar

end EggLang
