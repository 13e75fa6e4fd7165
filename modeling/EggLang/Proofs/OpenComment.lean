import EggLang.Proofs.Concatenation
import EggLang.Proofs.Truncation

/-! Comments that are left open. A comment that nothing closes is read as the operators `/` and `*`,
and no parser takes a `*` behind a `/`, so that a text with such a comment is never accepted. -/

namespace EggLang

open Lexeme Pattern Parse

/-- The text is a program, a statement or an expression. -/
def Accepted (text : String) : Prop :=
  (∃ body, parseProgram text = .ok body) ∨ (∃ s, parseStatement text = .ok s) ∨
    ∃ e, parseExpression text = .ok e

/-- Each way to parse the text ends with an error. -/
def Refused (text : String) : Prop :=
  (∃ e, parseProgram text = .error e) ∧ (∃ e, parseStatement text = .error e) ∧
    ∃ e, parseExpression text = .error e

theorem refused_of_not_accepted {text : String} (h : ¬Accepted text) : Refused text := by
  rw [Accepted, not_or, not_or] at h
  obtain ⟨hprogram, hstatement, hexpression⟩ := h
  refine ⟨?_, ?_, ?_⟩
  · cases hparse : parseProgram text with
    | ok body => exact absurd ⟨body, hparse⟩ hprogram
    | error e => exact ⟨e, rfl⟩
  · cases hparse : parseStatement text with
    | ok s => exact absurd ⟨s, hparse⟩ hstatement
    | error e => exact ⟨e, rfl⟩
  · cases hparse : parseExpression text with
    | ok e => exact absurd ⟨e, hparse⟩ hexpression
    | error e => exact ⟨e, rfl⟩

/-- Whatever a text is accepted as, no `/` has a `*` behind it there. -/
theorem Accepted.exists_apart {text : String} (h : Accepted text) :
    ∃ ts, tokenize text = .ok ts ∧ ts.IsChain Token.Apart := by
  obtain ⟨body, h⟩ | ⟨s, h⟩ | ⟨e, h⟩ := h
  · obtain ⟨ts, hts, hp⟩ := parseWith_eq_ok_iff.mp h
    exact ⟨ts, hts, apart_of_parse hts hp⟩
  · obtain ⟨ts, hts, hp⟩ := parseWith_eq_ok_iff.mp h
    exact ⟨ts, hts, apart_of_sealed hts (Grammar.readsOne_iff_statement.mp ⟨s, hp, rfl⟩).sealed⟩
  · obtain ⟨ts, hts, hp⟩ := parseWith_eq_ok_iff.mp h
    exact ⟨ts, hts, apart_of_sealed hts (Grammar.reads_iff_derives.mp ⟨e, hp, rfl⟩).sealed⟩

/-- Where an open comment starts, two tokens are read that are not apart. -/
theorem Source.Scans.not_apart {s : Source} {ts us : List Token} {p : Position}
    {inside : List Char} (h : s.Scans ts ⟨p, '/' :: '*' :: inside⟩)
    (hopen : ¬['*', '/'] <:+: inside) (hus : s.tokens = .ok us) : ¬us.IsChain Token.Apart := by
  intro hchain
  rw [h.tokens_eq] at hus
  obtain ⟨vs, hbehind, rfl⟩ := exists_of_map_eq_ok hus
  have hslash : recognize? ('/' :: '*' :: inside) = some (.token .operator, 1) :=
    recognize?_of_unclosed (closing?_eq_none_iff.mpr hopen)
  obtain ⟨ws, hws, rfl⟩ := exists_tail_of_tokens
    (next_of_token (s := ⟨p, '/' :: '*' :: inside⟩) hslash) (kind_of_recognize? hslash) hbehind
  exact rest_ne_star hws hchain.right_of_append rfl inside rfl

/-- A text in which a comment is opened, and never closed, is not accepted. In what is accepted, no
token `/` has a token `*` behind it. -/
theorem open_comment_refused (text : String) :
    (∀ ts p inside, (Source.ofString text).Scans ts ⟨p, '/' :: '*' :: inside⟩ →
      ¬['*', '/'] <:+: inside → Refused text) ∧
    (Accepted text → ∃ ts, tokenize text = .ok ts ∧ ∀ front t u back,
      ts = front ++ t :: u :: back → t.is .operator "/" = true → u.is .operator "*" = false) := by
  constructor
  · intro ts p inside hscans hopen
    refine refused_of_not_accepted fun haccepted => ?_
    obtain ⟨us, hus, happart⟩ := haccepted.exists_apart
    exact hscans.not_apart hopen hus happart
  · intro haccepted
    obtain ⟨ts, hts, happart⟩ := haccepted.exists_apart
    refine ⟨ts, hts, fun front t u back hat => ?_⟩
    rw [hat] at happart
    exact (List.isChain_cons_cons.mp happart.right_of_append).1

/-- Behind a string with `/*` in it and a comment, `/*/2` opens a comment that nothing closes. -/
theorem open_comment_refused_of_slash :
    (∃ ts p, (Source.ofString "\"/*\"+/**/6/*/2").Scans ts ⟨p, ['/', '*', '/', '2']⟩ ∧
      ¬['*', '/'] <:+: ['/', '2'] ∧ Refused "\"/*\"+/**/6/*/2") ∧
    Accepted "6 / /* by */ (2 * 3)" ∧ ∃ ts, tokenize "6 / /* by */ (2 * 3)" = .ok ts ∧
      ∀ front t u back, ts = front ++ t :: u :: back → t.is .operator "/" = true →
        u.is .operator "*" = false := by
  have hquoted : recognize? (Source.ofString "\"/*\"+/**/6/*/2").rest =
      some (.token .string, 4) := by decide +kernel
  have hplus : recognize? ((Source.ofString "\"/*\"+/**/6/*/2").skip 4).rest =
      some (.token .operator, 1) := by decide +kernel
  have hcomment : recognize? (((Source.ofString "\"/*\"+/**/6/*/2").skip 4).skip 1).rest =
      some (.comment, 4) := by decide +kernel
  have hnumber : recognize? ((((Source.ofString "\"/*\"+/**/6/*/2").skip 4).skip 1).skip 4).rest =
      some (.token .number, 1) := by decide +kernel
  obtain ⟨ts, p, hscans⟩ : ∃ ts p,
      (Source.ofString "\"/*\"+/**/6/*/2").Scans ts ⟨p, ['/', '*', '/', '2']⟩ :=
    ⟨_, _, .token hquoted (.token hplus (.gap hcomment (.inr rfl) (.token hnumber .refl)))⟩
  have hopen : ¬['*', '/'] <:+: ['/', '2'] := by decide
  have haccepted : Accepted "6 / /* by */ (2 * 3)" :=
    .inr (.inr (exists_of_isOk (by decide +kernel)))
  exact ⟨⟨ts, p, hscans, hopen, (open_comment_refused _).1 ts p _ hscans hopen⟩,
    haccepted, (open_comment_refused _).2 haccepted⟩

end EggLang
