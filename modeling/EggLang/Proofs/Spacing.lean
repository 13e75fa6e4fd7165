import EggLang.Proofs.Parse.Simulation
import EggLang.Proofs.Program
import EggLang.Proofs.Spelling

/-! Other layouts of the same tokens. Tokens that are written out with blanks between them are cut
into the same tokens again, at other places, and parsing does not depend on places, so that they are
the same program up to spans. -/

namespace EggLang

open Parse

/-! ### Parsing without places -/

/-- The change that forgets all spans. -/
def Change.bare : Change where
  span _ := .nowhere
  token := Token.bare
  span_join _ _ := rfl
  kind_token _ := rfl
  text_token _ _ := rfl
  span_token _ := rfl

theorem Parse.simulation_bare :
    Simulation .bare fun c d => d = ⟨c.ahead.map Token.bare, .nowhere⟩ where
  current := by
    rintro ⟨ahead, behind⟩ _ rfl
    cases ahead <;> rfl
  behind := by
    rintro c _ rfl
    rfl
  advance := by
    rintro ⟨ahead, behind⟩ _ rfl hkind
    cases ahead with
    | nil => exact absurd rfl hkind
    | cons t ts => rfl

section

variable {α : Type} {k : Change} {f : α → α} {x : Except SyntaxError α}

theorem exists_of_answer_eq_ok {b : α} (h : k.answer f x = .ok b) : ∃ a, x = .ok a ∧ f a = b := by
  cases x with
  | ok a =>
    cases h
    exact ⟨a, rfl, rfl⟩
  | error e => cases h

theorem exists_of_answer_eq_error {e' : SyntaxError} (h : k.answer f x = .error e') :
    ∃ e, x = .error e ∧ e.change k = e' := by
  cases x with
  | ok a => cases h
  | error e =>
    cases h
    exact ⟨e, rfl, rfl⟩

end

theorem Stmt.listOfTokens_bare (ts : List Token) :
    listOfTokens (ts.map Token.bare) = Change.bare.answer (List.map bare) (listOfTokens ts) :=
  simulation_bare.program rfl

theorem Expr.text_mapSpans (f : Span → Span) (e : Expr) : (e.mapSpans f).text = e.text := by
  induction e with
  | literal v span => rfl
  | var id => rfl
  | unary op operand span ih => rw [mapSpans, text, text, ih]
  | binary op lhs rhs span ihl ihr => rw [mapSpans, text, text, ihl, ihr]
  | assign target value span ih => rw [mapSpans, text, text, ih]; rfl

theorem Found.text_change_bare (found : Found) : (found.change .bare).text = found.text := by
  cases found with
  | token t => rfl
  | expression e => rw [change, text, text, Change.bare, Expr.text_mapSpans]

/-! ### Tokens written out -/

/-- The tokens are written out one after the other, with blanks between them. -/
inductive Spaced : List Token → List Char → Prop
  | nil : Spaced [] []
  | single (t : Token) : Spaced [t] t.written.toList
  | cons {t u : Token} {ts : List Token} {gap text : List Char} : gap ≠ [] →
      (∀ c ∈ gap, Text.isBlank c = true) → Spaced (u :: ts) text →
      Spaced (t :: u :: ts) (t.written.toList ++ (gap ++ text))

theorem Source.tokens_of_spaced {ts : List Token} {text : List Char} (h : Spaced ts text)
    (hts : ∀ t ∈ ts, t.Spelled) (p : Position) :
    ∃ us, tokens ⟨p, text⟩ = .ok us ∧
      us.map Token.bare = ts.map Token.bare ++ [Token.ofText .endOfFile ""] := by
  induction h generalizing p with
  | nil => exact ⟨_, tokens_of_last (next_of_nil rfl) rfl, rfl⟩
  | single t =>
    have hnil : StartsBlank [] := fun _ hc => nomatch hc
    obtain ⟨q, hq⟩ := tokens_of_written (hts t List.mem_cons_self) hnil p
    have hlast : tokens ⟨q, []⟩ = .ok [.endOfFile q] := tokens_of_last (next_of_nil rfl) rfl
    rw [List.append_nil, hlast] at hq
    exact ⟨_, hq, rfl⟩
  | @cons t u ts gap text hne hblank _ ih =>
    rw [List.forall_mem_cons] at hts
    have hstarts : StartsBlank (gap ++ text) := by
      obtain ⟨c, gap, rfl⟩ := List.exists_cons_of_ne_nil hne
      rintro _ ⟨⟩
      exact hblank c List.mem_cons_self
    obtain ⟨q, hq⟩ := tokens_of_written hts.1 hstarts p
    have hgap : Gap gap text := by simpa using Gap.blanks hblank .nil
    obtain ⟨us, hus, hbare⟩ := ih hts.2 (q.advance gap)
    rw [tokens_congr (next_of_gap_append hgap q), hus] at hq
    exact ⟨_, hq, by rw [List.map_cons, hbare]; rfl⟩

/-- Tokens that are written out anew are the same tokens, and they are the same program, or are
wrong in the same way. -/
theorem parseProgram_spaced {source text : String} {ts : List Token} {e : Token}
    (h : tokenize source = .ok (ts ++ [e])) (htext : Spaced ts text.toList) :
    (∃ us, tokenize text = .ok us ∧
      us.map (fun t => (t.kind, t.text)) = (ts ++ [e]).map fun t => (t.kind, t.text)) ∧
    (∀ body, parseProgram source = .ok body →
      ∃ body', parseProgram text = .ok body' ∧ body'.map Stmt.bare = body.map Stmt.bare) ∧
    ∀ failure, parseProgram source = .error failure → ∃ error error',
      failure = .grammatical error ∧ parseProgram text = .error (.grammatical error') ∧
      error'.expected = error.expected ∧ error'.found.text = error.found.text := by
  obtain ⟨init, hinit, hkinds⟩ := (Source.layout_of_tokens Position.behind_nil.symm h).exists_init
  obtain ⟨rfl, he⟩ := List.append_inj' hinit rfl
  have hspelled : ∀ t ∈ ts, t.Spelled := fun t ht =>
    Source.spelled_of_tokens h t (List.mem_append_left _ ht) (hkinds t ht)
  obtain ⟨us, hus, hbare⟩ := Source.tokens_of_spaced htext hspelled .start
  have hsame : us.map Token.bare = (ts ++ [e]).map Token.bare := by
    rw [hbare, he, List.map_append]
    rfl
  have hanswer := Stmt.listOfTokens_bare us
  rw [hsame, Stmt.listOfTokens_bare] at hanswer
  rw [parseProgram, parseProgram, parseWith_of_tokenize h, parseWith_of_tokenize hus]
  refine ⟨⟨us, hus, ?_⟩, fun body hbody => ?_, fun failure hfailure => ?_⟩
  · simpa [Token.bare, Token.mapSpan, Function.comp_def] using
      congrArg (List.map fun t => (t.kind, t.text)) hsame
  · cases hparse : Stmt.listOfTokens (ts ++ [e]) with
    | error error =>
      rw [hparse] at hbody
      cases hbody
    | ok body₁ =>
      rw [hparse] at hbody hanswer
      cases hbody
      obtain ⟨body', hbody', hmap⟩ := exists_of_answer_eq_ok hanswer.symm
      exact ⟨body', by rw [hbody']; rfl, hmap⟩
  · cases hparse : Stmt.listOfTokens (ts ++ [e]) with
    | ok body =>
      rw [hparse] at hfailure
      cases hfailure
    | error error =>
      rw [hparse] at hfailure hanswer
      cases hfailure
      obtain ⟨error', herror', hchange⟩ := exists_of_answer_eq_error hanswer.symm
      rw [SyntaxError.change, SyntaxError.change, SyntaxError.mk.injEq] at hchange
      refine ⟨error, error', rfl, by rw [herror']; rfl, hchange.1, ?_⟩
      rw [← Found.text_change_bare, hchange.2.1, Found.text_change_bare]

/-! ### One gap everywhere -/

theorem Spaced.intercalate {gap : List Char} (hne : gap ≠ [])
    (hblank : ∀ c ∈ gap, Text.isBlank c = true) (ts : List Token) :
    Spaced ts (gap.intercalate (ts.map (·.written.toList))) := by
  induction ts with
  | nil => exact .nil
  | cons t ts ih =>
    cases ts with
    | nil => simpa [List.intercalate] using Spaced.single t
    | cons u ts => simpa [List.intercalate] using Spaced.cons hne hblank ih

/-- The tokens of a text, written out with `gap` between them. -/
def respaced (gap : List Char) (source : String) : Option (List Char) :=
  (tokenize source).toOption.map fun ts => gap.intercalate (ts.dropLast.map (·.written.toList))

theorem spaced_of_respaced {gap : List Char} {source text : String} (hne : gap ≠ [])
    (hblank : ∀ c ∈ gap, Text.isBlank c = true) (h : respaced gap source = some text.toList) :
    ∃ ts e, tokenize source = .ok (ts ++ [e]) ∧ Spaced ts text.toList := by
  rw [respaced] at h
  cases htokens : tokenize source with
  | error e =>
    rw [htokens] at h
    cases h
  | ok ts =>
    rw [htokens] at h
    have hlast := List.dropLast_append_getLast (Source.ne_nil_of_tokens htokens)
    refine ⟨ts.dropLast, _, by rw [hlast], ?_⟩
    rw [← Option.some.inj h]
    exact .intercalate hne hblank _

/-- A program and a text that is none, with each token on a line of its own. -/
theorem parseProgram_spaced_lines :
    (∃ body body', parseProgram "ifs=1/.5;\x7bprint(\"/*\"+\"*/\");\x7d" = .ok body ∧
      parseProgram "ifs\n=\n1\n/\n.5\n;\n\x7b\nprint\n(\n\"/*\"\n+\n\"*/\"\n)\n;\n\x7d" =
        .ok body' ∧ body'.map Stmt.bare = body.map Stmt.bare) ∧
    ∃ error error', parseProgram "x=1.5.5;" = .error (.grammatical error) ∧
      parseProgram "x\n=\n1.5\n.5\n;" = .error (.grammatical error') ∧
      error'.expected = error.expected ∧ error'.found.text = error.found.text := by
  have hblank : ∀ c ∈ ['\n'], Text.isBlank c = true := List.forall_mem_singleton.mpr rfl
  constructor
  · obtain ⟨body, hbody⟩ := exists_of_isOk (show
      (parseProgram "ifs=1/.5;\x7bprint(\"/*\"+\"*/\");\x7d").isOk = true by decide +kernel)
    obtain ⟨ts, e, htokens, hspaced⟩ := spaced_of_respaced (List.cons_ne_nil _ _) hblank (show
      respaced ['\n'] "ifs=1/.5;\x7bprint(\"/*\"+\"*/\");\x7d" = some (String.toList
        "ifs\n=\n1\n/\n.5\n;\n\x7b\nprint\n(\n\"/*\"\n+\n\"*/\"\n)\n;\n\x7d") by
      decide +kernel)
    obtain ⟨body', h⟩ := (parseProgram_spaced htokens hspaced).2.1 body hbody
    exact ⟨body, body', hbody, h⟩
  · obtain ⟨failure, hfailure⟩ := exists_of_not_isOk (show
      (parseProgram "x=1.5.5;").isOk = false by decide +kernel)
    obtain ⟨ts, e, htokens, hspaced⟩ := spaced_of_respaced (List.cons_ne_nil _ _) hblank (show
      respaced ['\n'] "x=1.5.5;" = some (String.toList "x\n=\n1.5\n.5\n;") by decide +kernel)
    obtain ⟨error, error', rfl, h⟩ := (parseProgram_spaced htokens hspaced).2.2 failure hfailure
    exact ⟨error, error', hfailure, h⟩

end EggLang
