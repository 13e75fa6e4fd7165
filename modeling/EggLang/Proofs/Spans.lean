import EggLang.Proofs.Parse.Nodes
import EggLang.Proofs.Spacing

/-! What the spans of a tree cover, read back. The span of a statement covers it all. That of an
expression leaves out the parentheses that open before its first operand, though not those that
close behind it, and covers no expression then. -/

namespace EggLang

open Parse

/-! ### Tokens read back elsewhere -/

theorem Stmt.ofTokens_bare (ts : List Token) :
    ofTokens (ts.map Token.bare) = Change.bare.answer bare (ofTokens ts) :=
  whole_mirrors simulation_bare (simulation_bare.statement rfl)

theorem Expr.ofTokens_bare (ts : List Token) :
    ofTokens (ts.map Token.bare) = Change.bare.answer bare (ofTokens ts) :=
  whole_mirrors simulation_bare (simulation_bare.expression rfl .lowest)

section

variable {α : Type} {parse : List Token → Except SyntaxError α} {f : α → α}

theorem exists_parse_of_bare
    (hparse : ∀ ts, parse (ts.map Token.bare) = Change.bare.answer f (parse ts))
    {ts us : List Token} (hus : us.map Token.bare = ts.map Token.bare) {a : α}
    (h : parse ts = .ok a) : ∃ b, parse us = .ok b ∧ f b = f a := by
  have hanswer := hparse us
  rw [hus, hparse ts, h] at hanswer
  exact exists_of_answer_eq_ok hanswer.symm

/-- A text that is cut into tokens is parsed as they are. -/
theorem CutInto.parseWith_iff
    (hparse : ∀ ts, parse (ts.map Token.bare) = Change.bare.answer f (parse ts)) {text : String}
    {ts : List Token} (h : CutInto text ts) (p : Position) {a : α} :
    (∃ b, parseWith parse text = .ok b ∧ f b = a) ↔
      ∃ b, parse (ts ++ [.endOfFile p]) = .ok b ∧ f b = a := by
  obtain ⟨us, hus, hbare⟩ := h
  have hsame : us.map Token.bare = (ts ++ [Token.endOfFile p]).map Token.bare := by
    rw [hbare, List.map_append]
    rfl
  constructor
  · rintro ⟨b, hb, rfl⟩
    obtain ⟨us', hus', hb⟩ := parseWith_eq_ok_iff.mp hb
    cases hus.symm.trans hus'
    exact exists_parse_of_bare hparse hsame.symm hb
  · rintro ⟨b, hb, rfl⟩
    obtain ⟨b', hb', hfb⟩ := exists_parse_of_bare hparse hsame hb
    exact ⟨b', parseWith_eq_ok_iff.mpr ⟨us, hus, hb'⟩, hfb⟩

end

theorem CutInto.parseExpression_iff {text : String} {ts : List Token} (h : CutInto text ts)
    (hkind : ∀ t ∈ ts, t.kind ≠ .endOfFile) {e : Expr} :
    (∃ e', parseExpression text = .ok e' ∧ e'.bare = e) ↔ Grammar.Derives .expression ts e := by
  have hreads := h.parseWith_iff Expr.ofTokens_bare .start (a := e)
  rw [← visible_append_endOfFile hkind .start, ← Grammar.reads_iff_derives]
  exact hreads

mutual

/-- A statement before an `else` or not is one at the end of the input. -/
theorem Grammar.Statement.alone {ts : List Token} {next : Option Token} {s : Stmt} :
    Statement ts next s → Statement ts none s
  | .print hk hl hd hr hs => .print hk hl hd hr hs
  | .ifThen hk hd hb _ => .ifThen hk hd hb.alone rfl
  | .ifElse hk hd hb he ho => .ifElse hk hd hb he ho.alone
  | .declare hd hi hc hs => .declare hd hi hc hs
  | .block hl hb hr => .block hl hb hr
  | .assign hd hs => .assign hd hs
  | .increment hd hop hs => .increment hd hop hs

theorem Grammar.Body.alone {ts : List Token} {next : Option Token} {body : List Stmt} :
    Body ts next body → Body ts none body
  | .braces hl hb hr => .braces hl hb hr
  | .single hl hs => .single hl hs.alone

end

theorem CutInto.parseStatement {text : String} {ts : List Token} (h : CutInto text ts)
    (hkind : ∀ t ∈ ts, t.kind ≠ .endOfFile) {s : Stmt} (hs : Grammar.Statement ts none s) :
    ∃ s', parseStatement text = .ok s' ∧ s'.bare = s := by
  refine (h.parseWith_iff Stmt.ofTokens_bare .start).mpr ?_
  rw [← visible_append_endOfFile hkind .start] at hs
  exact Grammar.readsOne_iff_statement.mpr hs

/-! ### Statements -/

/-- What one statement was parsed from, among the tokens of the text. -/
theorem Parse.Cursor.Has.exists_stretch {text : String} {ts : List Token} {s : Stmt}
    (hts : tokenize text = .ok ts) (h : (Cursor.ofTokens ts).Has s) :
    ∃ pre us post next, ts = pre ++ us ++ post ∧ (∀ t ∈ pre ++ us, t.kind ≠ .endOfFile) ∧
      Spans us s.span ∧ Grammar.Statement us next s.bare := by
  obtain ⟨m, m', ⟨pre, hpre⟩, hgives⟩ := h
  obtain ⟨us, hus, hs⟩ := Grammar.statement_parser_derives.1 m s m' hgives
  have hall := hpre.append hus
  refine ⟨pre, us, m'.ahead, _, hall.ahead_eq, hall.kind_ne, ?_, hs⟩
  rw [(makes_of_statement hgives).2]
  cases us with
  | nil => exact absurd rfl hs.ne_nil
  | cons t us =>
    have hlast := List.getLast?_eq_some_getLast (List.cons_ne_nil t us)
    rw [hus.1, hus.behind_eq hlast]
    exact (hall.successive hts).spans_cons hlast

/-- The span of a statement in a program covers a text that is the same statement by itself. -/
theorem statement_of_span {text : String} {body : List Stmt} (h : parseProgram text = .ok body)
    {s t : Stmt} (hs : s ∈ body) (ht : t.OccursIn s) :
    ∃ part, t.span.Covers text part ∧ ∃ t', parseStatement part = .ok t' ∧ t'.bare = t.bare := by
  obtain ⟨ts, hts, hp⟩ := parseWith_eq_ok_iff.mp h
  have hhas : (Cursor.ofTokens ts).Has t := (has_of_program hp hs).of_occursIn ht
  obtain ⟨pre, us, post, next, rfl, hkind, hspans, hstatement⟩ := hhas.exists_stretch hts
  obtain ⟨part, hcovers, hcut⟩ := covers_of_spans hts hkind hspans
  have hus := (List.forall_mem_append.mp hkind).2
  exact ⟨part, hcovers, hcut.parseStatement hus hstatement.alone⟩

theorem branches_parsed :
    (match parseProgram "if a b++; else \x7b print(-(c)); \x7d // end" with
    | .ok [.ifElse _ [_] (some [_]) _] => true
    | _ => false) = true := by decide +kernel

/-- The other branch of a conditional, before its closing brace and a comment. -/
theorem statement_of_span_in_branch : ∃ condition s t span,
    parseProgram "if a b++; else \x7b print(-(c)); \x7d // end" =
      .ok [.ifElse condition [s] (some [t]) span] ∧
    ∃ part, t.span.Covers "if a b++; else \x7b print(-(c)); \x7d // end" part ∧
      ∃ t', parseStatement part = .ok t' ∧ t'.bare = t.bare := by
  have hshape := branches_parsed
  split at hshape
  · rename_i condition s t span hparse
    have ht : t.OccursIn (.ifElse condition [s] (some [t]) span) :=
      .otherwise List.mem_cons_self .here
    exact ⟨condition, s, t, span, hparse, statement_of_span hparse List.mem_cons_self ht⟩
  · cases hshape

/-! ### Expressions -/

/-- What one expression was parsed from, among the tokens of the text. -/
theorem Parse.Cursor.HasExpr.exists_stretch {text : String} {ts : List Token} {e : Expr}
    (hts : tokenize text = .ok ts) (h : (Cursor.ofTokens ts).HasExpr e) :
    ∃ pre ls us post, ts = pre ++ (ls ++ us) ++ post ∧
      (∀ t ∈ pre ++ (ls ++ us), t.kind ≠ .endOfFile) ∧ Grammar.Stands ls us e := by
  obtain ⟨pre, vs, m, n, hvs, hplaces⟩ := h.exists_places
  obtain ⟨ls, us, hwraps, hstands⟩ := hplaces.stands (hvs.successive hts)
  obtain ⟨os, rs, rfl, -⟩ := hwraps.exists_append
  have htokens : ts = pre ++ (os ++ (ls ++ us) ++ rs) ++ m.ahead := hvs.ahead_eq
  refine ⟨pre ++ os, ls, us, rs ++ m.ahead, by simp [htokens], fun t ht => ?_, hstands⟩
  have hmem : t ∈ pre ++ (os ++ (ls ++ us) ++ rs) := by
    rw [← List.append_assoc, ← List.append_assoc]
    exact List.mem_append_left _ ht
  exact hvs.kind_ne t hmem

/-- The expression is read back from the text at its span with what opens before it there, which is
nothing but parentheses. Without them the text is no expression. -/
def Expr.ReadsBack (text : String) (e : Expr) : Prop :=
  ∃ before opening part after : String, text = before ++ opening ++ part ++ after ∧
    e.span = ⟨.behind (before ++ opening).toList, .behind (before ++ opening ++ part).toList⟩ ∧
    (∃ ts, tokenize opening = .ok ts ∧
      ∀ t ∈ ts, t.kind ≠ .endOfFile → t.is .punctuation "(" = true) ∧
    (∃ e', parseExpression (opening ++ part) = .ok e' ∧ e'.bare = e.bare) ∧
    ((∃ e', parseExpression part = .ok e') ↔ opening = "")

theorem Parse.Cursor.HasExpr.readsBack {text : String} {ts : List Token} {e : Expr}
    (hts : tokenize text = .ok ts) (h : (Cursor.ofTokens ts).HasExpr e) : e.ReadsBack text := by
  obtain ⟨pre, ls, us, post, rfl, hkind, hstands⟩ := h.exists_stretch hts
  obtain ⟨before, opening, part, after, htext, hspan, hopening, hpart, hwhole, hnil⟩ :=
    exists_excerpt hts hkind hstands.spans
  have hkinds := (List.forall_mem_append.mp hkind).2
  have hread := (hwhole.parseExpression_iff hkinds).mpr hstands.derives
  refine ⟨before, opening, part, after, htext, hspan, ?_, hread, fun ⟨e', he'⟩ => ?_, ?_⟩
  · obtain ⟨vs, hvs, hbare⟩ := hopening
    refine ⟨vs, hvs, fun t ht hkind => ?_⟩
    have hmem : t.bare ∈ ls.map Token.bare ++ [.ofText .endOfFile ""] :=
      hbare ▸ List.mem_map_of_mem ht
    rcases List.mem_append.mp hmem with hmem | hlast
    · obtain ⟨l, hl, hsame⟩ := List.mem_map.mp hmem
      have his : l.bare.is .punctuation "(" = true := hstands.opens l hl
      rwa [hsame] at his
    · exact absurd (congrArg Token.kind (List.mem_singleton.mp hlast)) hkind
  · have hus := (List.forall_mem_append.mp hkinds).2
    have hderives := (hpart.parseExpression_iff hus).mp ⟨e', he', rfl⟩
    exact hnil (hstands.eq_nil hderives)
  · rintro rfl
    obtain ⟨e', he', -⟩ := hread
    exact ⟨e', by rwa [String.empty_append] at he'⟩

/-- The expressions of parsed trees are read back from their spans and the parentheses that open
before them. An increment has no expression. -/
theorem parsed_readsBack (text : String) :
    (∀ body, parseProgram text = .ok body → ∀ s ∈ body, ∀ e : Expr, e.WrittenIn s →
      e.ReadsBack text) ∧
    (∀ s, parseStatement text = .ok s → ∀ e : Expr, e.WrittenIn s → e.ReadsBack text) ∧
    ∀ whole, parseExpression text = .ok whole → ∀ e : Expr, e.OccursIn whole →
      e.ReadsBack text := by
  refine ⟨fun body h s hs e he => ?_, fun s h e he => ?_, fun whole h e he => ?_⟩
  · obtain ⟨ts, hts, hp⟩ := parseWith_eq_ok_iff.mp h
    exact ((has_of_program hp hs).hasExpr he).readsBack hts
  · obtain ⟨ts, hts, hp⟩ := parseWith_eq_ok_iff.mp h
    obtain ⟨m, hgives, -⟩ := Grammar.whole_eq_ok_iff.mp hp
    exact (Cursor.Has.hasExpr ⟨_, m, .refl, hgives⟩ he).readsBack hts
  · obtain ⟨ts, hts, hp⟩ := parseWith_eq_ok_iff.mp h
    obtain ⟨m, hgives, -⟩ := Grammar.whole_eq_ok_iff.mp hp
    exact Cursor.HasExpr.readsBack hts ⟨_, m, whole, .refl, hgives, he⟩

/-- A sum in parentheses, the first operand of which stands in parentheses too. -/
theorem parsed_readsBack_sum :
    (∃ body, parseProgram "print(((a) + b) * 2); c++;" = .ok body ∧
      ∀ s ∈ body, ∀ e : Expr, e.WrittenIn s → e.ReadsBack "print(((a) + b) * 2); c++;") ∧
    ∃ e, parseExpression "(a) + b" = .ok e ∧ e.ReadsBack "(a) + b" := by
  obtain ⟨body, hbody⟩ := exists_of_isOk
    (show (parseProgram "print(((a) + b) * 2); c++;").isOk = true by decide +kernel)
  obtain ⟨e, he⟩ := exists_of_isOk (show (parseExpression "(a) + b").isOk = true by decide +kernel)
  exact ⟨⟨body, hbody, (parsed_readsBack _).1 body hbody⟩,
    e, he, (parsed_readsBack _).2.2 e he e .here⟩

/-- The span of `(a) + b` starts behind the parenthesis. -/
theorem span_of_sum_not_expression : ∃ e, parseExpression "(a) + b" = .ok e ∧
    e.span.Covers "(a) + b" "a) + b" ∧ ∀ e', parseExpression "a) + b" ≠ .ok e' := by
  have hparse : parseExpression "(a) + b" = .ok (.binary .add
      (.var ⟨"a", ⟨⟨1, 1, 2⟩, ⟨2, 1, 3⟩⟩⟩) (.var ⟨"b", ⟨⟨6, 1, 7⟩, ⟨7, 1, 8⟩⟩⟩)
      ⟨⟨1, 1, 2⟩, ⟨7, 1, 8⟩⟩) := by decide +kernel
  obtain ⟨error, herror⟩ := exists_of_not_isOk
    (show (parseExpression "a) + b").isOk = false by decide +kernel)
  refine ⟨_, hparse, ⟨"(", "", by decide, by decide +kernel⟩, fun e' he' => ?_⟩
  exact nomatch herror.symm.trans he'

end EggLang
