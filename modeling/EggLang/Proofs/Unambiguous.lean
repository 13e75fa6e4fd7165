import EggLang.Proofs.Grammar.Leaves
import EggLang.Proofs.Numeral
import EggLang.Proofs.Program
import EggLang.Proofs.Sexp
import EggLang.Proofs.Spelling

/-! Trees and what they are shown as. The S-expression that a parsed tree is shown as is read back
as the tree without its spans: its numbers are those of its words that are digits and points, and
its names are not `true` or `false`. So a text shows one parsed tree at most, up to spans. -/

namespace EggLang

/-! ### Names and literals -/

/-- The text is a name: word characters, the first of them no digit, and no reserved word. -/
structure IsName (w : String) : Prop where
  ne_empty : w ≠ ""
  word : ∀ c ∈ w.toList, Text.isWord c = true
  first : ∀ c ∈ w.toList.head?, c.isDigit = false
  free : w ∉ reservedWords

/-- The value is one that a token spells, or a boolean. -/
def Value.Written : Value → Prop
  | number x => x.isFinite = true ∧ x.isNegative = false
  | string s => '"' ∉ s.toList
  | boolean _ => True

/-- The value is one that a literal can stand for. A number may be too great to be finite. -/
def Value.Literal : Value → Prop
  | number x => x.isNaN = false ∧ x.isNegative = false
  | string s => '"' ∉ s.toList
  | boolean _ => True

def Number.isNumeralChar (c : Char) : Bool := c.isDigit || c == '.'

namespace IsName

variable {w : String}

theorem of_spells (h : Spells .identifier w.toList) : IsName w := by
  generalize hcs : w.toList = cs at h
  cases h with
  | identifier hword hdigit hfree =>
    rw [← hcs, String.ofList_toList] at hfree
    refine ⟨?_, hcs ▸ hword, ?_, hfree⟩
    · rintro rfl
      cases hcs
    · intro c hc
      rw [hcs] at hc
      cases hc
      exact hdigit

theorem toList_ne_nil (h : IsName w) : w.toList ≠ [] := fun hnil =>
  h.ne_empty (String.toList_eq_nil_iff.mp hnil)

theorem plain (h : IsName w) : Sexp.Plain w :=
  Sexp.plain_of_forall (by decide +kernel) h.toList_ne_nil h.word

/-- A name is no numeral, as no digit and no point starts it. -/
theorem not_numeral (h : IsName w) : w.toList.all Number.isNumeralChar = false := by
  obtain ⟨c, cs, hw⟩ := List.exists_cons_of_ne_nil h.toList_ne_nil
  have hdigit := h.first c (by rw [hw]; rfl)
  have hpoint : c ≠ '.' := by
    rintro rfl
    exact absurd (h.word '.' (by rw [hw]; exact List.mem_cons_self)) (by decide +kernel)
  simp [hw, Number.isNumeralChar, hdigit, hpoint]

end IsName

theorem Number.all_text {x : Number} (hfinite : x.isFinite = true)
    (hsign : x.isNegative = false) : x.text.toList.all isNumeralChar = true := by
  obtain ⟨_, _, hnumeral, -⟩ := numeral_text hfinite hsign
  simpa [isNumeralChar] using hnumeral.digit_or_point

theorem Number.plain_text {x : Number} (hfinite : x.isFinite = true)
    (hsign : x.isNegative = false) : Sexp.Plain x.text := by
  obtain ⟨_, _, hnumeral, -⟩ := numeral_text hfinite hsign
  exact Sexp.plain_of_forall (by decide) hnumeral.ne_nil
    (List.all_eq_true.mp (all_text hfinite hsign))

/-! ### Trees with such names and literals are S-expressions -/

theorem UnaryOp.plain_symbol (op : UnaryOp) : Sexp.Plain op.symbol := by
  cases op <;> decide

theorem BinaryOp.plain_symbol (op : BinaryOp) : Sexp.Plain op.symbol := by
  cases op <;> decide

theorem DataType.plain_keyword (type : DataType) : Sexp.Plain type.keyword := by
  cases type <;> decide

theorem Expr.Leaves.wellFormed_sexp {e : Expr} (h : e.Leaves IsName Value.Written) :
    e.sexp.WellFormed := by
  induction h with
  | @literal v span hv =>
    cases v with
    | number x => exact .word (Number.plain_text hv.1 hv.2)
    | string s => exact .quoted hv
    | boolean b => cases b <;> exact .word (by decide)
  | var hname => exact .word hname.plain
  | @unary op _ _ _ ih => exact .node op.plain_symbol (by simpa using ih)
  | @binary op _ _ _ _ _ ihl ihr => exact .node op.plain_symbol (by simpa using ⟨ihl, ihr⟩)
  | assign hname _ ih => exact .node (by decide) (by simpa using ⟨.word hname.plain, ih⟩)

theorem Stmt.Leaves.wellFormed_sexp {s : Stmt} (h : s.Leaves IsName Value.Written) :
    s.sexp.WellFormed := by
  have hblock : ∀ {body : List Stmt}, (∀ s ∈ body, s.sexp.WellFormed) →
      (Sexp.node "block" (sexps body)).WellFormed := fun hbody =>
    .node (by decide) (by simpa [sexps_eq_map] using hbody)
  induction h with
  | print he => exact .node (by decide) (by simpa using he.wellFormed_sexp)
  | @declare d span hname hinitial =>
    refine .node (by split <;> decide) ?_
    simp only [Declaration.items, List.forall_mem_cons, List.forall_mem_map, Option.mem_toList]
    exact ⟨.word d.type.plain_keyword, .word hname.plain, fun e he =>
      (hinitial e he).wellFormed_sexp⟩
  | assign hname he =>
    exact .node (by decide) (by simpa using ⟨.word hname.plain, he.wellFormed_sexp⟩)
  | @ifElse condition body otherwise span hcondition _ _ ihbody ihother =>
    cases otherwise with
    | none =>
      rw [sexp]
      exact .node (by decide) (by simpa using ⟨hcondition.wellFormed_sexp, hblock ihbody⟩)
    | some other =>
      rw [sexp]
      exact .node (by decide) (by
        simpa using ⟨hcondition.wellFormed_sexp, hblock ihbody, hblock (ihother other rfl)⟩)
  | block _ ih => exact hblock ih

/-! ### Trees read back -/

namespace Expr

/-- The expression that a word shows. -/
def ofWord? (w : String) : Option Expr :=
  if w.toList.all Number.isNumeralChar then
    (Number.read? w).map fun x => .literal (.number x) .nowhere
  else if w = "true" then some (.literal (.boolean true) .nowhere)
  else if w = "false" then some (.literal (.boolean false) .nowhere)
  else some (.var (.ofName w))

def ofSexp? : Sexp → Option Expr
  | .word w => ofWord? w
  | .quoted s => some (.literal (.string s) .nowhere)
  | .node head [x] => return .unary (← UnaryOp.ofSymbol? head) (← ofSexp? x) .nowhere
  | .node "set" [.word name, x] => return .assign (.ofName name) (← ofSexp? x) .nowhere
  | .node head [x, y] =>
    return .binary (← BinaryOp.ofSymbol? head) (← ofSexp? x) (← ofSexp? y) .nowhere
  | .node _ _ => none

theorem ofSexp?_sexp {e : Expr} (h : e.Leaves IsName Value.Written) :
    ofSexp? e.sexp = some e.bare := by
  induction h with
  | @literal v span hv =>
    cases v with
    | number x =>
      rw [sexp, ofSexp?, ofWord?, Value.text, if_pos (Number.all_text hv.1 hv.2),
        Number.read?_text hv.1 hv.2]
      · rfl
      · simp
    | string s => rfl
    | boolean b =>
      have hall : ∀ b, ofWord? (Value.booleanText b) = some (literal (.boolean b) .nowhere) := by
        decide
      exact hall b
  | @var id hname =>
    -- `true` and `false` are reserved, so that no name is one of them.
    have htrue : id.name ≠ "true" := fun h => hname.free (by rw [h]; decide)
    have hfalse : id.name ≠ "false" := fun h => hname.free (by rw [h]; decide)
    simp [sexp, ofSexp?, ofWord?, hname.not_numeral, htrue, hfalse]
  | @unary op _ _ _ ih =>
    rw [sexp, ofSexp?, UnaryOp.ofSymbol?_eq_some_iff.mpr rfl, ih]
    rfl
  | @binary op lhs rhs _ _ _ ihl ihr =>
    have hset : op.symbol ≠ "set" := by cases op <;> decide
    rw [sexp, ofSexp?, BinaryOp.ofSymbol?_eq_some_iff.mpr rfl, ihl, ihr]
    · rfl
    · simp [hset]
  | assign _ _ ih =>
    rw [sexp, ofSexp?, ih]
    rfl

end Expr

namespace Declaration

/-- The declaration that S-expressions show behind its keyword. -/
def ofSexps? (isConstant : Bool) : List Sexp → Option Declaration
  | [.word type, .word name] =>
    return ⟨.ofName name, ← DataType.ofKeyword? type, isConstant, none⟩
  | [.word type, .word name, x] =>
    return ⟨.ofName name, ← DataType.ofKeyword? type, isConstant, ← Expr.ofSexp? x⟩
  | _ => none

theorem ofSexps?_items {d : Declaration}
    (h : ∀ e ∈ d.initializer, e.Leaves IsName Value.Written) :
    ofSexps? d.isConstant d.items = some d.bare := by
  obtain ⟨id, type, isConstant, initializer⟩ := d
  have htype := DataType.ofKeyword?_eq_some_iff.mpr (rfl : type.keyword = type.keyword)
  cases initializer with
  | none => simp [items, ofSexps?, htype]
  | some e => simp [items, ofSexps?, htype, Expr.ofSexp?_sexp (h e rfl)]

end Declaration

namespace Stmt

mutual

def ofSexp? : Sexp → Option Stmt
  | .node "print" [x] => return .print (← Expr.ofSexp? x) .nowhere
  | .node "const" items => return .declare (← Declaration.ofSexps? true items) .nowhere
  | .node "var" items => return .declare (← Declaration.ofSexps? false items) .nowhere
  | .node "set" [.word name, x] => return .assign (.ofName name) (← Expr.ofSexp? x) .nowhere
  | .node "if" [x, .node "block" body] =>
    return .ifElse (← Expr.ofSexp? x) (← ofSexps? body) none .nowhere
  | .node "if" [x, .node "block" body, .node "block" otherwise] =>
    return .ifElse (← Expr.ofSexp? x) (← ofSexps? body) (← ofSexps? otherwise) .nowhere
  | .node "block" body => return .block (← ofSexps? body) .nowhere
  | _ => none

def ofSexps? : List Sexp → Option (List Stmt)
  | [] => some []
  | x :: rest => return (← ofSexp? x) :: (← ofSexps? rest)

end

theorem ofSexps?_sexps {body : List Stmt} (h : ∀ s ∈ body, ofSexp? s.sexp = some s.bare) :
    ofSexps? (sexps body) = some (body.map bare) := by
  induction body with
  | nil => rfl
  | cons s rest ih =>
    rw [List.forall_mem_cons] at h
    rw [sexps, ofSexps?, h.1, ih h.2]
    rfl

theorem ofSexp?_sexp {s : Stmt} (h : s.Leaves IsName Value.Written) :
    ofSexp? s.sexp = some s.bare := by
  induction h with
  | print he => simp [sexp, ofSexp?, Expr.ofSexp?_sexp he]
  | @declare d span hname hinitial =>
    have hread := Declaration.ofSexps?_items hinitial
    cases hconstant : d.isConstant <;> rw [hconstant] at hread <;>
      simp [sexp, Declaration.sexp, ofSexp?, hconstant, hread]
  | assign _ he => simp [sexp, ofSexp?, Expr.ofSexp?_sexp he]
  | @ifElse condition body otherwise span hcondition _ _ ihbody ihother =>
    have hcond := Expr.ofSexp?_sexp hcondition
    cases otherwise with
    | none => simp [sexp, ofSexp?, hcond, ofSexps?_sexps ihbody]
    | some other =>
      simp [sexp, ofSexp?, hcond, ofSexps?_sexps ihbody, ofSexps?_sexps (ihother other rfl)]
  | block _ ih => simp [sexp, ofSexp?, ofSexps?_sexps ih]

end Stmt

/-! ### Names and literals of parsed trees -/

/-- No number in the text is too great to be finite. -/
def NumbersFit (text : String) : Prop :=
  ∀ ts ∈ (tokenize text).toOption, ∀ t ∈ ts, t.kind = .number →
    ∀ x ∈ Number.read? t.text, x.isInfinite = false

instance (text : String) : Decidable (NumbersFit text) :=
  inferInstanceAs (Decidable (∀ ts ∈ (tokenize text).toOption, ∀ t ∈ ts, _))

theorem exists_numeral_of_spells {cs : List Char} (h : Spells .number cs) :
    ∃ value places, Number.Numeral cs value places := by
  cases h with
  | whole hne hdigits => exact ⟨_, _, .whole hne hdigits⟩
  | fraction hdigits hne hfraction => exact ⟨_, _, .point (by simp [hne]) hdigits hfraction⟩

theorem Token.Spelled.stands {t : Token} (h : t.Spelled) : t.Stands IsName Value.Literal := by
  have htext : t.kind ≠ .string → Spells t.kind t.text.toList := by
    intro hk
    rwa [Token.Spelled, Token.written, if_neg hk] at h
  refine ⟨fun hk => ?_, fun hk x hread => ?_, h.not_mem_text⟩
  · rw [hk] at htext
    exact .of_spells (htext (by simp))
  · rw [hk] at htext
    obtain ⟨_, _, hnumeral⟩ := exists_numeral_of_spells (htext (by simp))
    exact hnumeral.unsigned_of_read? hread

theorem spelled_of_standIn {text : String} {ts : List Token} (h : StandIn text ts) :
    ∀ t ∈ ts, t.Spelled := by
  obtain ⟨us, hus, hts⟩ := h
  exact fun t ht => Source.spelled_of_tokens hus t (hts t ht).1 (hts t ht).2

theorem stands_of_standIn {text : String} {ts : List Token} (hfit : NumbersFit text)
    (h : StandIn text ts) : ∀ t ∈ ts, t.Stands IsName Value.Written := by
  intro t ht
  have hstands := (spelled_of_standIn h t ht).stands
  obtain ⟨us, hus, hts⟩ := h
  refine ⟨hstands.name, fun hk x hread => ?_, hstands.string⟩
  have hinfinite := hfit us (by rw [hus]; rfl) t (hts t ht).1 hk x hread
  have hliteral := hstands.number hk x hread
  exact ⟨Number.isFinite_of_not_infinite hliteral.1 hinfinite, hliteral.2⟩

theorem given_written : Value.Given Value.Written where
  boolean _ := trivial
  one := ⟨by decide +kernel, by decide +kernel⟩

/-- What holds of all tokens of a text holds of the leaves of its trees. -/
theorem leaves_of_parse {name : String → Prop} {value : Value → Prop} (hgiven : Value.Given value)
    {text : String} (hstands : ∀ ts, StandIn text ts → ∀ t ∈ ts, t.Stands name value) :
    (∀ body, parseProgram text = .ok body → ∀ s ∈ body, s.Leaves name value) ∧
    (∀ s, parseStatement text = .ok s → s.Leaves name value) ∧
    ∀ e, parseExpression text = .ok e → e.Leaves name value := by
  refine ⟨fun body h s hs => ?_, fun s h => ?_, fun e h => ?_⟩
  · obtain ⟨ts, hts, hread⟩ := statements_of_parseProgram h
    exact .of_bare s (hread.leaves hgiven (hstands ts hts) s.bare (List.mem_map_of_mem hs))
  · obtain ⟨ts, next, hts, hread⟩ := statement_of_parseStatement h
    exact .of_bare s (hread.leaves hgiven (hstands ts hts))
  · obtain ⟨ts, hts, hread⟩ := derives_of_parseExpression h
    exact .of_bare (hread.leaves hgiven (hstands ts hts))

theorem leaves_of_parseProgram {text : String} {body : List Stmt} (hfit : NumbersFit text)
    (h : parseProgram text = .ok body) : ∀ s ∈ body, s.Leaves IsName Value.Written :=
  (leaves_of_parse given_written fun _ => stands_of_standIn hfit).1 body h

theorem leaves_of_parseStatement {text : String} {s : Stmt} (hfit : NumbersFit text)
    (h : parseStatement text = .ok s) : s.Leaves IsName Value.Written :=
  (leaves_of_parse given_written fun _ => stands_of_standIn hfit).2.1 s h

theorem leaves_of_parseExpression {text : String} {e : Expr} (hfit : NumbersFit text)
    (h : parseExpression text = .ok e) : e.Leaves IsName Value.Written :=
  (leaves_of_parse given_written fun _ => stands_of_standIn hfit).2.2 e h

/-! ### One tree for a text -/

theorem Sexp.eq_of_render_eq {α : Type} {read? : Sexp → Option α} {x y : Sexp} {a b : α}
    (hx : x.WellFormed) (hy : y.WellFormed) (ha : read? x = some a) (hb : read? y = some b)
    (h : x.render = y.render) : a = b := by
  rw [render_injective hx hy h, hb] at ha
  exact (Option.some.inj ha).symm

theorem Expr.bare_eq_of_text_eq {e e' : Expr} (h : e.Leaves IsName Value.Written)
    (h' : e'.Leaves IsName Value.Written) (htext : e.text = e'.text) : e.bare = e'.bare := by
  have hrender : e.sexp.render = e'.sexp.render := by rw [← toList_text, htext, toList_text]
  exact Sexp.eq_of_render_eq h.wellFormed_sexp h'.wellFormed_sexp (ofSexp?_sexp h)
    (ofSexp?_sexp h') hrender

namespace Stmt

theorem bare_eq_of_text_eq {s s' : Stmt} (h : s.Leaves IsName Value.Written)
    (h' : s'.Leaves IsName Value.Written) (htext : s.text = s'.text) : s.bare = s'.bare := by
  have hrender : s.sexp.render = s'.sexp.render := by rw [← toList_text, htext, toList_text]
  exact Sexp.eq_of_render_eq h.wellFormed_sexp h'.wellFormed_sexp (ofSexp?_sexp h)
    (ofSexp?_sexp h') hrender

theorem map_bare_eq_of_map_text_eq {body body' : List Stmt}
    (h : ∀ s ∈ body, s.Leaves IsName Value.Written)
    (h' : ∀ s ∈ body', s.Leaves IsName Value.Written)
    (htext : body.map text = body'.map text) : body.map bare = body'.map bare := by
  induction body generalizing body' with
  | nil =>
    cases body' with
    | nil => rfl
    | cons s' rest' => cases htext
  | cons s rest ih =>
    cases body' with
    | nil => cases htext
    | cons s' rest' =>
      rw [List.forall_mem_cons] at h h'
      rw [List.map_cons, List.map_cons, List.cons.injEq] at htext
      rw [List.map_cons, List.map_cons, bare_eq_of_text_eq h.1 h'.1 htext.1,
        ih h.2 h'.2 htext.2]

end Stmt

/-- What `parse` makes of two texts whose numbers fit is the same but for spans, if it is shown as
the same. -/
def Unambiguous {α β : Type} (parse : String → Except ProgramError α) (text : α → β)
    (bare : α → α) : Prop :=
  ∀ source source' a a', NumbersFit source → NumbersFit source' → parse source = .ok a →
    parse source' = .ok a' → text a = text a' → bare a = bare a'

/-- Programs, statements and expressions that are shown alike are alike, up to spans. -/
theorem parsed_unambiguous :
    Unambiguous parseProgram (List.map Stmt.text) (List.map Stmt.bare) ∧
      Unambiguous parseStatement Stmt.text Stmt.bare ∧
      Unambiguous parseExpression Expr.text Expr.bare := by
  refine ⟨?_, ?_, ?_⟩
  · intro source source' body body' hfit hfit' h h'
    exact Stmt.map_bare_eq_of_map_text_eq (leaves_of_parseProgram hfit h)
      (leaves_of_parseProgram hfit' h')
  · intro source source' s s' hfit hfit' h h'
    exact Stmt.bare_eq_of_text_eq (leaves_of_parseStatement hfit h)
      (leaves_of_parseStatement hfit' h')
  · intro source source' e e' hfit hfit' h h'
    exact Expr.bare_eq_of_text_eq (leaves_of_parseExpression hfit h)
      (leaves_of_parseExpression hfit' h')

-- A number that is too great would be shown as a name is.
example : (Expr.literal (.number .infinity) .nowhere).text = (Expr.var (.ofName "inf")).text := by
  decide +kernel

theorem Unambiguous.exists_alike {α β : Type} {parse : String → Except ProgramError α}
    {text : α → β} {bare : α → α} (h : Unambiguous parse text bare) {source source' : String}
    (hfit : NumbersFit source) (hfit' : NumbersFit source') (hok : (parse source).isOk = true)
    (hsame : (parse source).toOption.map text = (parse source').toOption.map text) :
    ∃ a a', parse source = .ok a ∧ parse source' = .ok a' ∧ bare a = bare a' := by
  obtain ⟨a, ha⟩ := exists_of_isOk hok
  rw [ha] at hsame
  cases ha' : parse source' with
  | error e =>
    rw [ha'] at hsame
    cases hsame
  | ok a' =>
    rw [ha'] at hsame
    exact ⟨a, a', ha, rfl, h source source' a a' hfit hfit' ha ha' (Option.some.inj hsame)⟩

/-- A program, a statement and an expression, each spelled in two ways. -/
theorem parsed_unambiguous_spellings :
    (∃ body body', parseProgram "x++; if (x) print(\"(a b)\");" = .ok body ∧
      parseProgram "x = x + 1.0; if x \x7b print((\"(a b)\")); \x7d" = .ok body' ∧
      body.map Stmt.bare = body'.map Stmt.bare) ∧
    (∃ s s', parseStatement "const num half = .5;" = .ok s ∧
      parseStatement "const half[num] = 0.50;" = .ok s' ∧ s.bare = s'.bare) ∧
    ∃ e e', parseExpression "a == -x & b" = .ok e ∧
      parseExpression "(a) == (-(x)) & b" = .ok e' ∧ e.bare = e'.bare :=
  ⟨parsed_unambiguous.1.exists_alike (by decide +kernel) (by decide +kernel) (by decide +kernel)
      (by decide +kernel),
    parsed_unambiguous.2.1.exists_alike (by decide +kernel) (by decide +kernel)
      (by decide +kernel) (by decide +kernel),
    parsed_unambiguous.2.2.exists_alike (by decide +kernel) (by decide +kernel)
      (by decide +kernel) (by decide +kernel)⟩

end EggLang
