import EggLang.Program
import EggLang.Proofs.Grammar.Statement

/-! When a text is parsed: it has tokens, and the grammar derives them. -/

namespace EggLang

theorem exists_of_isOk {ε α : Type} {r : Except ε α} (h : r.isOk = true) : ∃ a, r = .ok a := by
  cases r with
  | ok a => exact ⟨a, rfl⟩
  | error e => exact nomatch h

theorem exists_of_not_isOk {ε α : Type} {r : Except ε α} (h : r.isOk = false) :
    ∃ e, r = .error e := by
  cases r with
  | ok a => exact nomatch h
  | error e => exact ⟨e, rfl⟩

theorem parseWith_of_tokenize {α : Type} {parse : List Token → Except SyntaxError α}
    {text : String} {ts : List Token} (h : tokenize text = .ok ts) :
    parseWith parse text = (parse ts).mapError .grammatical := by
  rw [parseWith, h]
  rfl

theorem mapError_grammatical_inj {α : Type} {x y : Except SyntaxError α} :
    x.mapError ProgramError.grammatical = y.mapError ProgramError.grammatical ↔ x = y := by
  refine ⟨fun h => ?_, congrArg _⟩
  cases x <;> cases y <;> cases h <;> rfl

/-- What a text with tokens is parsed to. -/
theorem parseWith_eq_mapError_iff {α : Type} {parse : List Token → Except SyntaxError α}
    {text : String} {r : Except SyntaxError α} : parseWith parse text = r.mapError .grammatical ↔
      ∃ ts, tokenize text = .ok ts ∧ parse ts = r := by
  cases htokens : tokenize text with
  | error e =>
    have hparse : parseWith parse text = .error (.lexical e) := by
      rw [parseWith, htokens]
      rfl
    rw [hparse]
    constructor
    · intro h
      cases r <;> cases h
    · rintro ⟨ts, hts, -⟩
      cases hts
  | ok ts => simp [parseWith_of_tokenize htokens, mapError_grammatical_inj]

theorem parseWith_eq_ok_iff {α : Type} {parse : List Token → Except SyntaxError α} {text : String}
    {a : α} : parseWith parse text = .ok a ↔ ∃ ts, tokenize text = .ok ts ∧ parse ts = .ok a :=
  parseWith_eq_mapError_iff (r := .ok a)

theorem parseWith_eq_grammatical_iff {α : Type} {parse : List Token → Except SyntaxError α}
    {text : String} {e : SyntaxError} : parseWith parse text = .error (.grammatical e) ↔
      ∃ ts, tokenize text = .ok ts ∧ parse ts = .error e :=
  parseWith_eq_mapError_iff (r := .error e)

/-- The tokens stand in the text before its end. -/
def StandIn (text : String) (ts : List Token) : Prop :=
  ∃ us, tokenize text = .ok us ∧ ∀ t ∈ ts, t ∈ us ∧ t.kind ≠ .endOfFile

theorem statements_of_parseProgram {text : String} {body : List Stmt}
    (h : parseProgram text = .ok body) :
    ∃ ts, StandIn text ts ∧ Grammar.Statements ts none (body.map Stmt.bare) := by
  obtain ⟨us, hus, hp⟩ := parseWith_eq_ok_iff.mp h
  exact ⟨_, ⟨us, hus, fun _ => Parse.mem_of_mem_visible⟩,
    Grammar.readsAll_iff_statements.mp ⟨body, hp, rfl⟩⟩

theorem statement_of_parseStatement {text : String} {s : Stmt}
    (h : parseStatement text = .ok s) :
    ∃ ts next, StandIn text ts ∧ Grammar.Statement ts next s.bare := by
  obtain ⟨us, hus, hp⟩ := parseWith_eq_ok_iff.mp h
  exact ⟨_, _, ⟨us, hus, fun _ => Parse.mem_of_mem_visible⟩,
    Grammar.readsOne_iff_statement.mp ⟨s, hp, rfl⟩⟩

theorem derives_of_parseExpression {text : String} {e : Expr}
    (h : parseExpression text = .ok e) :
    ∃ ts, StandIn text ts ∧ Grammar.Derives .expression ts e.bare := by
  obtain ⟨us, hus, hp⟩ := parseWith_eq_ok_iff.mp h
  exact ⟨_, ⟨us, hus, fun _ => Parse.mem_of_mem_visible⟩,
    Grammar.reads_iff_derives.mp ⟨e, hp, rfl⟩⟩

end EggLang
