import EggLang.Proofs.Spans
import EggLang.Proofs.WellFormed

/-! What syntax errors point at. Each is about a token of the text that is not what was asked for,
or about an expression, and its place is always one in the text. -/

namespace EggLang

open Parse

/-- The token is not what was expected of it. What is expected of a statement or of what is assigned
to is expected of an expression, and not of a token. -/
def Token.Misses (t : Token) : Expectation → Prop
  | .after symbol _ | .before symbol _ => t.is .punctuation symbol = false
  | .expression => t.is .punctuation "(" = false ∧ atom t = .error .expression
  | .numeral => t.is .punctuation "(" = false ∧ atom t = .error .numeral
  | .identifier _ => t.kind ≠ .identifier
  | .typeName => ∀ type : DataType, t.is .freeKeyword type.keyword = false
  | .initializer _ => t.is .operator "=" = false
  | .closingBrace => t.kind = .endOfFile
  | .endOfInput => t.kind ≠ .endOfFile
  | .statement | .assignable => False

/-- The errors about a text with the tokens `ts`. An expression that is no statement is one that
stands there before the end of the input. -/
inductive PointsInto (ts : List Token) : SyntaxError → Prop
  | token {t : Token} {expected : Expectation} : t ∈ ts → t.Misses expected →
      PointsInto ts ⟨expected, .token t, t.span⟩
  | assignable {t : Token} {lhs : Expr} : t ∈ ts → t.is .operator "=" = true →
      (∀ id, lhs ≠ .var id) → PointsInto ts ⟨.assignable, .expression lhs, t.span⟩
  | statement {pre ls us post : List Token} {e : Expr} : ts = pre ++ (ls ++ us) ++ post →
      (∀ t ∈ pre ++ (ls ++ us), t.kind ≠ .endOfFile) → Grammar.Stands ls us e →
      (∀ target value span, e ≠ .assign target value span) →
      PointsInto ts ⟨.statement, .expression e, e.span⟩

theorem expected_of_atom {t : Token} {expected : Expectation} :
    atom t = .error expected → expected = .expression ∨ expected = .numeral := by
  fun_cases atom t with
  | case2 =>
    rintro ⟨⟩
    exact .inr rfl
  | case6 | case8 =>
    rintro ⟨⟩
    exact .inl rfl
  | _ => rintro ⟨⟩

/-- The token ahead is one of the text, as its last one is not taken. -/
theorem current_mem_of_tokenize {text : String} {ts us : List Token} {m : Cursor}
    (hts : tokenize text = .ok ts) (hus : (Cursor.ofTokens ts).Takes us m) : m.current ∈ ts := by
  obtain ⟨-, ⟨init, rfl, -⟩, -⟩ := layout_of_tokenize hts
  have hahead : init ++ [.endOfFile (.behind text.toList)] = us ++ m.ahead := hus.ahead_eq
  obtain ⟨ahead, behind⟩ := m
  cases ahead with
  | nil =>
    rw [List.append_nil] at hahead
    exact absurd rfl (hus.kind_ne (.endOfFile (.behind text.toList)) (by simp [← hahead]))
  | cons t rest =>
    rw [hahead]
    exact List.mem_append_right _ List.mem_cons_self

theorem pointsInto_of_raises {text : String} {ts us : List Token} {m : Cursor} {e : SyntaxError}
    (hts : tokenize text = .ok ts) (hus : (Cursor.ofTokens ts).Takes us m) (h : m.Raises e) :
    PointsInto ts e := by
  have hmem := current_mem_of_tokenize hts hus
  cases h with
  | after hat | before hat | identifier hat | initializer hat => exact .token hmem hat
  | typeName hnone =>
    refine .token hmem fun type => Bool.eq_false_iff.mpr fun his => ?_
    exact nomatch hnone.symm.trans (Grammar.typeAhead?_eq_some_iff.mpr his)
  | operand hat herror =>
    rcases expected_of_atom herror with rfl | rfl
    · exact .token hmem ⟨hat, herror⟩
    · exact .token hmem ⟨hat, herror⟩
  | closingBrace hend =>
    have hkind : m.current.kind = .endOfFile := of_decide_eq_true hend
    exact .token hmem hkind
  | endOfInput hend =>
    have hkind : m.current.kind ≠ .endOfFile := of_decide_eq_false hend
    exact .token hmem hkind
  | assignable hop hlhs =>
    exact .assignable hmem (Grammar.operator_ofToken?_eq_assignment_iff.mp hop) hlhs
  | statement hgives hnot =>
    obtain ⟨pre, ls, vs, post, htokens, hkind, hstands⟩ :=
      Cursor.HasExpr.exists_stretch hts ⟨m, _, _, ⟨us, hus⟩, hgives, .here⟩
    exact .statement htokens hkind hstands hnot

theorem PointsInto.covers {text : String} {ts : List Token} {e : SyntaxError}
    (hts : tokenize text = .ok ts) (h : PointsInto ts e) : ∃ part, e.span.Covers text part := by
  cases h with
  | token ht _ => exact covers_of_tokenize hts ht
  | assignable ht _ _ => exact covers_of_tokenize hts ht
  | @statement pre ls us post x htokens hkind hstands _ =>
    rw [htokens, ← List.append_assoc] at hts
    rw [← List.append_assoc] at hkind
    obtain ⟨part, hcovers, -⟩ := covers_of_spans hts hkind hstands.spans
    exact ⟨part, hcovers⟩

/-- A syntax error points into its text. Unless it is about an expression, its place is that of a
token which is not what was asked for, and which it shows. An expression that cannot be assigned to
is shown at the `=`, and one that is no statement at its own place. -/
theorem error_points_into_text {text : String} {e : SyntaxError}
    (h : parseProgram text = .error (.grammatical e) ∨
      parseStatement text = .error (.grammatical e) ∨
      parseExpression text = .error (.grammatical e)) :
    ∃ ts, tokenize text = .ok ts ∧
      (e.expected ≠ .statement → e.expected ≠ .assignable → ∃ t ∈ ts, t.Misses e.expected ∧
        e.span = t.span ∧ e.found.text = t.describe) ∧
      (e.expected = .assignable → ∃ t ∈ ts, ∃ lhs : Expr, t.is .operator "=" = true ∧
        (∀ id, lhs ≠ .var id) ∧ e.span = t.span ∧ e.found.text = s!"expression {lhs.text}") ∧
      (e.expected = .statement → ∃ (us : List Token) (x : Expr), us <:+: ts ∧ Spans us x.span ∧
        (∀ target value span, x ≠ .assign target value span) ∧ e.span = x.span ∧
        e.found.text = s!"expression {x.text}") ∧
      e.span ≠ .nowhere ∧ ∃ part, e.span.Covers text part := by
  obtain ⟨ts, hts, us, m, hus, hraises⟩ := blames_of_parse h
  have hpoints := pointsInto_of_raises hts hus hraises
  obtain ⟨part, hcovers⟩ := hpoints.covers hts
  refine ⟨ts, hts, ?_, ?_, ?_, hcovers.ne_nowhere, part, hcovers⟩
  · intro hstatement hassignable
    cases hpoints with
    | @token t expected ht hmisses => exact ⟨t, ht, hmisses, rfl, rfl⟩
    | assignable => exact absurd rfl hassignable
    | statement => exact absurd rfl hstatement
  · intro hassignable
    cases hpoints with
    | token _ hmisses =>
      obtain rfl : _ = Expectation.assignable := hassignable
      exact hmisses.elim
    | @assignable t lhs ht hop hlhs => exact ⟨t, ht, lhs, hop, hlhs, rfl, rfl⟩
    | statement => cases hassignable
  · intro hstatement
    cases hpoints with
    | token _ hmisses =>
      obtain rfl : _ = Expectation.statement := hstatement
      exact hmisses.elim
    | assignable => cases hstatement
    | @statement pre ls us post x htokens _ hstands hnot =>
      exact ⟨us, x, ⟨pre ++ ls, post, by simp [htokens]⟩, hstands.spans, hnot, rfl, rfl⟩

/-- A sum on the left of a `=`. -/
theorem error_points_into_text_sum : ∃ e : SyntaxError,
    parseExpression "(1 + x) = 2" = .error (.grammatical e) ∧ e.expected = .assignable ∧
    ∃ ts, tokenize "(1 + x) = 2" = .ok ts ∧ ∃ t ∈ ts, ∃ lhs : Expr, t.is .operator "=" = true ∧
      (∀ id, lhs ≠ .var id) ∧ e.span = t.span ∧ e.found.text = s!"expression {lhs.text}" := by
  have hparse : parseExpression "(1 + x) = 2" = .error (.grammatical ⟨.assignable,
      .expression (.binary .add (.literal (.number .one) ⟨⟨1, 1, 2⟩, ⟨2, 1, 3⟩⟩)
        (.var ⟨"x", ⟨⟨5, 1, 6⟩, ⟨6, 1, 7⟩⟩⟩) ⟨⟨1, 1, 2⟩, ⟨6, 1, 7⟩⟩),
      ⟨⟨8, 1, 9⟩, ⟨9, 1, 10⟩⟩⟩) := by decide +kernel
  obtain ⟨ts, hts, -, hassignable, -⟩ := error_points_into_text (.inr (.inr hparse))
  exact ⟨_, hparse, rfl, ts, hts, hassignable rfl⟩

end EggLang
