import EggLang.Proofs.History
import EggLang.Proofs.Parse.Failure
import EggLang.Proofs.Unambiguous

/-! What parsing makes of a text: trees that can be run and shown, or an error that is not about a
numeral, as every number that a text spells can be read. -/

namespace EggLang

open Parse

/-- The names and literals in the statement are ones that tokens spell, and its constants have
values. -/
structure Stmt.WellFormed (s : Stmt) : Prop where
  leaves : s.Leaves IsName Value.Literal
  constants : s.ConstantsSet

theorem given_literal : Value.Given Value.Literal where
  boolean _ := trivial
  one := ⟨by decide +kernel, by decide +kernel⟩

/-! ### Errors of a text -/

/-- Parsing a text stops where tokens of the text lead to. -/
theorem blames_of_parse {text : String} {e : SyntaxError}
    (h : parseProgram text = .error (.grammatical e) ∨
      parseStatement text = .error (.grammatical e) ∨
      parseExpression text = .error (.grammatical e)) :
    ∃ ts, tokenize text = .ok ts ∧ (Cursor.ofTokens ts).Blames e := by
  rcases h with h | h | h
  · obtain ⟨ts, hts, he⟩ := parseWith_eq_grammatical_iff.mp h
    exact ⟨ts, hts, program_blames he⟩
  · obtain ⟨ts, hts, he⟩ := parseWith_eq_grammatical_iff.mp h
    exact ⟨ts, hts, (grounded_statement (.ofTokens ts)).blames he⟩
  · obtain ⟨ts, hts, he⟩ := parseWith_eq_grammatical_iff.mp h
    exact ⟨ts, hts, (grounded_expression .lowest (.ofTokens ts)).blames he⟩

theorem Token.Spelled.read?_ne_none {t : Token} (h : t.Spelled) (hkind : t.kind = .number) :
    Number.read? t.text ≠ none := by
  rw [Spelled, written, if_neg (by simp [hkind]), hkind] at h
  obtain ⟨_, _, hnumeral⟩ := exists_numeral_of_spells h
  rw [hnumeral.read?]
  exact Option.some_ne_none _

/-- The error could only be about an operand, and that would be a token that spells a number. -/
theorem not_numeral_of_blames {text : String} {ts : List Token} {e : SyntaxError}
    (hts : tokenize text = .ok ts) (h : (Cursor.ofTokens ts).Blames e) : e.expected ≠ .numeral := by
  obtain ⟨us, m, hus, he⟩ := h
  cases he with
  | @operand expected _ hatom =>
    rintro ⟨⟩
    obtain ⟨hkind, hread⟩ := numeral_of_atom hatom
    have hmem : m.current ∈ ts := hus.current_mem (by simp [hkind])
    have hspelled : m.current.Spelled := Source.spelled_of_tokens hts _ hmem (by simp [hkind])
    exact hspelled.read?_ne_none hkind hread
  | _ => exact nofun

/-- Trees that are parsed from a text are well-formed, and no error is about a numeral. -/
theorem parsed_wellFormed (text : String) :
    (∀ body, parseProgram text = .ok body → ∀ s ∈ body, s.WellFormed) ∧
    (∀ s, parseStatement text = .ok s → s.WellFormed) ∧
    (∀ e, parseExpression text = .ok e → e.Leaves IsName Value.Literal) ∧
    ∀ e : SyntaxError, parseProgram text = .error (.grammatical e) ∨
      parseStatement text = .error (.grammatical e) ∨
      parseExpression text = .error (.grammatical e) → e.expected ≠ .numeral := by
  have hleaves := leaves_of_parse given_literal fun ts (hts : StandIn text ts) t ht =>
    (spelled_of_standIn hts t ht).stands
  refine ⟨fun body h s hs => ?_, fun s h => ?_, hleaves.2.2, fun e h => ?_⟩
  · exact ⟨hleaves.1 body h s hs, Stmt.Parsed.constantsSet (.program h hs)⟩
  · exact ⟨hleaves.2.1 s h, Stmt.Parsed.constantsSet (.statement h)⟩
  · obtain ⟨ts, hts, hblames⟩ := blames_of_parse h
    exact not_numeral_of_blames hts hblames

/-- A constant and an increment, and an error behind two numbers. -/
theorem parsed_wellFormed_constant :
    (∃ body, parseProgram "const num half = .5; half++;" = .ok body ∧
      ∀ s ∈ body, s.WellFormed) ∧
    ∃ e, parseExpression "1.2.3" = .error (.grammatical e) ∧ e.expected ≠ .numeral := by
  obtain ⟨body, hbody⟩ := exists_of_isOk
    (show (parseProgram "const num half = .5; half++;").isOk = true by decide +kernel)
  have herror : parseExpression "1.2.3" = .error (.grammatical
      ⟨.endOfInput, .token ⟨.number, ".3", ⟨⟨3, 1, 4⟩, ⟨5, 1, 6⟩⟩⟩, ⟨⟨3, 1, 4⟩, ⟨5, 1, 6⟩⟩⟩) := by
    decide +kernel
  exact ⟨⟨body, hbody, (parsed_wellFormed _).1 body hbody⟩,
    _, herror, (parsed_wellFormed _).2.2.2 _ (.inr (.inr herror))⟩

end EggLang
