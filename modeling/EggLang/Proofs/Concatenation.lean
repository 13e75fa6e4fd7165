import EggLang.Proofs.Grammar.Adjacency
import EggLang.Proofs.Parse.Graft
import EggLang.Proofs.Program
import EggLang.Proofs.Run

/-! Programs one after the other. Two texts with a newline between them are the program that the two
are by themselves, and it does what the first does and then, where that succeeds, the second. -/

namespace EggLang

open Parse

/-! ### Runs of trees at other places -/

/-- What code does has nothing to do with where it stands. -/
theorem Expr.evaluate_mapSpans (f : Span → Span) (e : Expr) :
    (e.mapSpans f).evaluate = e.evaluate := by
  induction e with
  | literal v span => rfl
  | var id => rfl
  | unary op operand span ih => rw [mapSpans, evaluate, evaluate, ih]
  | binary op lhs rhs span ihl ihr => rw [mapSpans, evaluate, evaluate, ihl, ihr]
  | assign target value span ih => rw [mapSpans, evaluate, evaluate, ih]; rfl

theorem Declaration.evaluate_mapSpans (f : Span → Span) (d : Declaration) :
    (d.mapSpans f).evaluate = d.evaluate := by
  obtain ⟨id, type, isConstant, initializer⟩ := d
  cases initializer with
  | none => rfl
  | some value =>
    rw [mapSpans, evaluate, evaluate, Option.map_some]
    dsimp only
    rw [value.evaluate_mapSpans]
    rfl

namespace Stmt

mutual

theorem execute_mapSpans (f : Span → Span) : (s : Stmt) → (s.mapSpans f).execute = s.execute
  | print value _ => by rw [mapSpans, execute, execute, value.evaluate_mapSpans]
  | declare d _ => by rw [mapSpans, execute, execute, d.evaluate_mapSpans]
  | assign target value span => by
    have hevaluate := (Expr.assign target value span).evaluate_mapSpans f
    rw [Expr.mapSpans] at hevaluate
    rw [mapSpans, execute, execute, hevaluate]
  | ifElse condition body none _ => by
    rw [mapSpans, execute, execute, condition.evaluate_mapSpans, executeAll_mapSpans f body]
  | ifElse condition body (some otherwise) _ => by
    rw [mapSpans, execute, execute, condition.evaluate_mapSpans, executeAll_mapSpans f body,
      executeAll_mapSpans f otherwise]
  | block body _ => by rw [mapSpans, execute, execute, executeAll_mapSpans f body]

theorem executeAll_mapSpans (f : Span → Span) :
    (body : List Stmt) → executeAll (mapAllSpans f body) = executeAll body
  | [] => rfl
  | s :: rest => by
    rw [mapAllSpans, executeAll, executeAll, execute_mapSpans f s, executeAll_mapSpans f rest]

end

theorem executeAll_map (f : Span → Span) (body : List Stmt) :
    executeAll (body.map (mapSpans f)) = executeAll body := by
  rw [← mapAllSpans_eq_map, executeAll_mapSpans]

end Stmt

/-! ### Texts -/

/-- The tokens of a text are all visible but for the last. -/
theorem exists_visible_of_tokenize {text : String} {ts : List Token} (h : tokenize text = .ok ts) :
    ∃ init p, ts = init ++ [.endOfFile p] ∧ visible ts = init := by
  obtain ⟨init, rfl, hinit⟩ := (Source.layout_of_tokens Position.behind_nil.symm h).exists_init
  exact ⟨init, _, rfl, visible_append_endOfFile hinit _⟩

theorem apart_of_sealed {text : String} {ts : List Token} (hts : tokenize text = .ok ts)
    (hsealed : Grammar.Sealed (visible ts)) : ts.IsChain Token.Apart := by
  obtain ⟨init, p, rfl, hvisible⟩ := exists_visible_of_tokenize hts
  rw [hvisible] at hsealed
  refine List.isChain_append.mpr ⟨hsealed.chain, .singleton _, fun t _ u hu _ => ?_⟩
  cases hu
  rfl

/-- No comment starts across two tokens of a text that parses. -/
theorem apart_of_parse {text : String} {ts : List Token} {body : List Stmt}
    (hts : tokenize text = .ok ts) (h : Stmt.listOfTokens ts = .ok body) :
    ts.IsChain Token.Apart :=
  apart_of_sealed hts (Grammar.readsAll_iff_statements.mp ⟨body, h, rfl⟩).sealed

/-- The tokens of a text with other spans, and what ends the input, are its trees with other
spans. -/
theorem program_of_tokenize {f : Span → Span} (hf : ∀ s t, f (s.join t) = (f s).join (f t))
    {text : String} {ts : List Token} {body : List Stmt} (hts : tokenize text = .ok ts)
    (h : Stmt.listOfTokens ts = .ok body) {last : Token} (hlast : last.kind = .endOfFile)
    (behind : Span) : program ⟨ts.dropLast.map (Token.mapSpan f) ++ [last], behind⟩ =
      .ok (body.map (Stmt.mapSpans f)) := by
  have hend : visible [last] = [] := by simp [visible, hlast]
  have happend := program_append hf h (program_nil hend) behind
  obtain ⟨init, p, rfl, hvisible⟩ := exists_visible_of_tokenize hts
  rw [hvisible, List.append_nil] at happend
  rwa [List.dropLast_concat]

/-- A text and another one on a new line behind it parse to the trees of both, those of the second
at their places in the whole. -/
theorem parseProgram_newline {a b : String} {body more : List Stmt}
    (ha : parseProgram a = .ok body) (hb : parseProgram b = .ok more) :
    parseProgram (a ++ "\n" ++ b) =
      .ok (body ++ more.map (Stmt.mapSpans (Span.move (.below a)))) := by
  obtain ⟨ts, hts, ha⟩ := parseWith_eq_ok_iff.mp ha
  obtain ⟨us, hus, hb⟩ := parseWith_eq_ok_iff.mp hb
  have htokens := tokenize_append (b := b) hts (.inl (apart_of_parse hts ha))
  rw [hus] at htokens
  refine parseWith_eq_ok_iff.mpr ⟨_, htokens, ?_⟩
  -- The text behind is parsed at its place in the whole, and the one in front as by itself.
  have hmore : ∀ behind, program ⟨us.map (Token.mapSpan (Span.move (.below a))), behind⟩ =
      .ok (more.map (Stmt.mapSpans (Span.move (.below a)))) := by
    intro behind
    obtain ⟨init, p, rfl, -⟩ := exists_visible_of_tokenize hus
    have hlast : ((Token.endOfFile p).mapSpan (Span.move (.below a))).kind = .endOfFile := rfl
    have hprogram := program_of_tokenize (Span.move_join (.below a)) hus hb hlast behind
    rwa [List.dropLast_concat, ← List.map_singleton, ← List.map_append] at hprogram
  have happend := program_append (f := fun span => span) (fun _ _ => rfl) ha hmore .nowhere
  obtain ⟨init, p, rfl, hvisible⟩ := exists_visible_of_tokenize hts
  rw [hvisible, Stmt.map_mapSpans_id] at happend
  rwa [List.dropLast_concat, Stmt.listOfTokens, Cursor.ofTokens, ← List.map_id' init]

/-- A program and another one on a new line behind it are one program, with the trees of both. It
does what the first does and then, unless that fails, what the second does. -/
theorem runProgram_newline {a b : String} {body more : List Stmt}
    (ha : parseProgram a = .ok body) (hb : parseProgram b = .ok more) :
    parseProgram (a ++ "\n" ++ b) =
      .ok (body ++ more.map (Stmt.mapSpans (Span.move (.below a)))) ∧
    ∀ capacity, runProgram (a ++ "\n" ++ b) capacity =
      match Stmt.executeAll body (.initial capacity) with
      | .error e m => (.error (.runtime e), m.output)
      | .ok _ m =>
        let (result, m') := outcome (Stmt.executeAll more m)
        (result, m'.output) := by
  have hparse := parseProgram_newline ha hb
  refine ⟨hparse, fun capacity => ?_⟩
  rw [runProgram, hparse]
  dsimp only
  rw [Stmt.executeAll_append, Stmt.executeAll_map]
  cases h : Stmt.executeAll body (.initial capacity) with
  | ok _ m => rw [bind_of_ok h]
  | error e m => rw [bind_of_error h]; rfl

/-- A conditional without an `else` and a comment, and a program behind them that divides by what
the first one declares. -/
theorem runProgram_newline_of_conditional : ∃ body more,
    parseProgram "var n [num] = 2; if (n > 1) \x7b n = 3; \x7d // no else" = .ok body ∧
    parseProgram "print(6 / n);" = .ok more ∧
    parseProgram ("var n [num] = 2; if (n > 1) \x7b n = 3; \x7d // no else" ++ "\n" ++
      "print(6 / n);") = .ok (body ++ more.map (Stmt.mapSpans (Span.move ⟨50, 1, 0⟩))) ∧
    runProgram ("var n [num] = 2; if (n > 1) \x7b n = 3; \x7d // no else" ++ "\n" ++
      "print(6 / n);") none =
      match Stmt.executeAll body (.initial none) with
      | .error e m => (.error (.runtime e), m.output)
      | .ok _ m =>
        let (result, m') := outcome (Stmt.executeAll more m)
        (result, m'.output) := by
  obtain ⟨body, hbody⟩ := exists_of_isOk
    (show (parseProgram "var n [num] = 2; if (n > 1) \x7b n = 3; \x7d // no else").isOk = true by
      decide +kernel)
  obtain ⟨more, hmore⟩ := exists_of_isOk
    (show (parseProgram "print(6 / n);").isOk = true by decide +kernel)
  have hbelow : Position.below "var n [num] = 2; if (n > 1) \x7b n = 3; \x7d // no else" =
      ⟨50, 1, 0⟩ := by decide +kernel
  have h := runProgram_newline hbody hmore
  rw [hbelow] at h
  exact ⟨body, more, hbody, hmore, h.1, h.2 none⟩

end EggLang
