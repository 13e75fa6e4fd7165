import EggLang.Proofs.Parse.Nodes
import EggLang.Proofs.Program

/-! The targets of assignments. Each of them is written as an identifier before the operator, though
it may stand in parentheses there. -/

namespace EggLang

open Parse

/-- Among the tokens, the name stands before the operator `op` as an identifier in any number of
parentheses. -/
def Ident.AssignedBy (op : String) (ts : List Token) (id : Ident) : Prop :=
  ∃ us t o, us ++ [o] <:+: ts ∧ Grammar.Wraps us [t] ∧ t.kind = .identifier ∧
    id = ⟨t.text, t.span⟩ ∧ o.is .operator op = true

section

variable {text : String} {ts : List Token} {target : Ident} {value : Expr} {span : Span}

/-- What is written behind a `=` is not the value that an increment makes, even where it says the
same. -/
theorem Parse.Cursor.HasExpr.assignedBy (hts : tokenize text = .ok ts)
    (h : (Cursor.ofTokens ts).HasExpr (.assign target value span)) :
    target.AssignedBy "=" ts ∧ ∀ op, value ≠ increment target op := by
  obtain ⟨pre, vs, m, n, hvs, hnode⟩ := h.exists_places
  refine ⟨?_, hnode.value_ne_increment (hvs.successive hts)⟩
  obtain ⟨k, us, o, ws, hname, hop, -, hus⟩ := hnode.target_value
  obtain ⟨t, ht, hkind, hid⟩ := hname.name
  have hoperator : us ++ [o] <:+: us ++ o :: ws := ⟨[], ws, by simp⟩
  exact ⟨us, t, o, hoperator.trans (hus.trans hvs.isInfix), ht, hkind, hid, hop⟩

/-- How an assignment is written: with a `=`, or with a `++` that the value is made from. -/
def AssignedIn (ts : List Token) (target : Ident) (value : Expr) : Prop :=
  target.AssignedBy "=" ts ∧ (∀ op, value ≠ increment target op) ∨
    target.AssignedBy "++" ts ∧ ∃ op, value = increment target op

theorem Parse.Cursor.Has.assignedIn (hts : tokenize text = .ok ts)
    (h : (Cursor.ofTokens ts).Has (.assign target value span)) : AssignedIn ts target value := by
  obtain ⟨m, m', ⟨pre, hpre⟩, hgives⟩ := h
  cases (makes_of_statement hgives).1 with
  | assign hvalue =>
    exact .inl (Cursor.HasExpr.assignedBy hts ⟨m, _, _, ⟨pre, hpre⟩, hvalue, .here⟩)
  | @increment k _ _ _ hvalue hop =>
    obtain ⟨us, hus, hplaces⟩ := Grammar.expression_places hvalue
    obtain ⟨t, ht, hkind, hid⟩ := hplaces.name
    have hall := hpre.append (hus.append (Grammar.takes_of_at? hop))
    exact .inr ⟨⟨us, t, k.current, hall.isInfix, ht, hkind, hid, hop⟩, _, rfl⟩

end

/-- Whatever a program assigns to is an identifier before the operator, in parentheses or not. -/
theorem targets_of_program {text : String} {body : List Stmt} (h : parseProgram text = .ok body) :
    ∃ ts, tokenize text = .ok ts ∧ ∀ s ∈ body,
      (∀ target value span, (Stmt.assign target value span).OccursIn s →
        AssignedIn ts target value) ∧
      ∀ target value span, (Expr.assign target value span).WrittenIn s →
        target.AssignedBy "=" ts := by
  obtain ⟨ts, hts, hp⟩ := parseWith_eq_ok_iff.mp h
  refine ⟨ts, hts, fun s hs => ⟨fun target value span hnode => ?_, fun target value span he => ?_⟩⟩
  · exact ((has_of_program hp hs).of_occursIn hnode).assignedIn hts
  · exact (((has_of_program hp hs).hasExpr he).assignedBy hts).1

/-- An increment in parentheses, and assignments one in the other. -/
theorem targets_of_program_chained : ∃ body ts, parseProgram "(a)++; ((b)) = c = d;" = .ok body ∧
    tokenize "(a)++; ((b)) = c = d;" = .ok ts ∧ ∀ s ∈ body,
      (∀ target value span, (Stmt.assign target value span).OccursIn s →
        AssignedIn ts target value) ∧
      ∀ target value span, (Expr.assign target value span).WrittenIn s →
        target.AssignedBy "=" ts := by
  obtain ⟨body, hbody⟩ := exists_of_isOk
    (show (parseProgram "(a)++; ((b)) = c = d;").isOk = true by decide +kernel)
  obtain ⟨ts, hts, htargets⟩ := targets_of_program hbody
  exact ⟨body, ts, hbody, hts, htargets⟩

theorem target_parsed :
    (match parseProgram "(x) = 1;" with
    | .ok [.assign target _ _] => decide (target.span = ⟨⟨1, 1, 2⟩, ⟨2, 1, 3⟩⟩)
    | _ => false) = true := by decide +kernel

/-- The program `(x) = 1;` has a target with a parenthesis behind it. -/
theorem target_in_parentheses : ∃ before t o after target value span,
    tokenize "(x) = 1;" = .ok (before ++ t :: o :: after) ∧
    parseProgram "(x) = 1;" = .ok [.assign target value span] ∧
    t.kind = .identifier ∧ t.span = target.span ∧ o.is .punctuation ")" = true := by
  have hshape := target_parsed
  have htokens : tokenize "(x) = 1;" = .ok ([⟨.punctuation, "(", ⟨⟨0, 1, 1⟩, ⟨1, 1, 2⟩⟩⟩] ++
      ⟨.identifier, "x", ⟨⟨1, 1, 2⟩, ⟨2, 1, 3⟩⟩⟩ :: ⟨.punctuation, ")", ⟨⟨2, 1, 3⟩, ⟨3, 1, 4⟩⟩⟩ ::
      [⟨.operator, "=", ⟨⟨4, 1, 5⟩, ⟨5, 1, 6⟩⟩⟩, ⟨.number, "1", ⟨⟨6, 1, 7⟩, ⟨7, 1, 8⟩⟩⟩,
       ⟨.punctuation, ";", ⟨⟨7, 1, 8⟩, ⟨8, 1, 9⟩⟩⟩, .endOfFile ⟨8, 1, 9⟩]) := by decide +kernel
  split at hshape
  · rename_i target value span hparse
    exact ⟨_, _, _, _, target, value, span, htokens, hparse, rfl,
      (of_decide_eq_true hshape).symm, by decide⟩
  · cases hshape

end EggLang
