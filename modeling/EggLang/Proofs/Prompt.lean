import EggLang.Proofs.Calls
import EggLang.Proofs.Grammar.Ends
import EggLang.Proofs.Program
import EggLang.Session

/-! How a session tells statements from expressions. It looks at the ends of a line alone, where the
parsers go by the grammar. No line of statements is taken for an expression. An expression is taken
for statements only if its first word is cut short, behind a word that statements start with. -/

namespace EggLang

open Lexeme Pattern Grammar Parse

/-! ### The end of a line -/

/-- The last lexeme of the text is a comment. -/
def EndsInComment (text : String) : Prop :=
  ∃ ts s, (Source.ofString text).Scans ts s ∧ recognize? s.rest = some (.comment, s.rest.length)

theorem slash_mem_of_comment {text : String} {ts : List Token} {s : Source} {n : Nat}
    (h : (Source.ofString text).Scans ts s) (hr : recognize? s.rest = some (.comment, n)) :
    '/' ∈ text.toList := by
  obtain ⟨before, htext, -⟩ := h.exists_before
  have hword : '/' ∈ s.rest.take n := by
    have hcomment := comment_of_recognize? hr
    generalize s.rest.take n = word at hcomment
    cases hcomment <;> simp
  rw [htext]
  exact List.mem_append_right _ (List.mem_of_mem_take hword)

theorem Text.isBlank_of_trim (cs : List Char) : ∀ c ∈ (trim cs).getLast?, isBlank c = false := by
  intro c hc
  rw [trim, List.getLast?_reverse] at hc
  have hhead := List.head?_dropWhile_not isBlank (cs.dropWhile isBlank).reverse
  rw [hc] at hhead
  exact hhead

namespace Source.Scans

variable {s s' : Source} {ts : List Token}

theorem eq_nil (h : s.Scans ts s') (hs : s.rest = []) : ts = [] := by
  have hnone : recognize? s.rest = none := by rw [hs]; decide
  cases h with
  | refl => rfl
  | token hr => exact nomatch hnone.symm.trans hr
  | gap hr => exact nomatch hnone.symm.trans hr

/-- Reading up to the end passes the last lexeme last. -/
theorem exists_last_lexeme (h : s.Scans ts s') (hend : s'.rest = []) (hne : s.rest ≠ []) :
    ∃ us m lexeme, s.Scans us m ∧ recognize? m.rest = some (lexeme, m.rest.length) ∧
      ∀ kind, lexeme = .token kind →
        ∃ span, ts = us ++ [⟨kind, tokenText kind m.rest, span⟩] := by
  have hall {m : Source} {lexeme : Lexeme} {n : Nat} (hr : recognize? m.rest = some (lexeme, n))
      (hrest : (m.skip n).rest = []) : n = m.rest.length :=
    Nat.le_antisymm (recognize?_le hr) (List.drop_eq_nil_iff.mp hrest)
  induction h with
  | refl => exact absurd hend hne
  | @token s _ ts kind n hr h ih =>
    by_cases hrest : (s.skip n).rest = []
    · obtain rfl := hall hr hrest
      refine ⟨[], s, _, .refl, hr, ?_⟩
      rintro _ ⟨⟩
      rw [h.eq_nil hrest, List.take_length]
      exact ⟨_, rfl⟩
    · obtain ⟨us, m, lexeme, hscans, hr', hlast⟩ := ih hend hrest
      refine ⟨_, m, lexeme, .token hr hscans, hr', fun kind' hkind => ?_⟩
      obtain ⟨span, hspan⟩ := hlast kind' hkind
      exact ⟨span, congrArg _ hspan⟩
  | @gap s _ ts lexeme n hr hlexeme h ih =>
    by_cases hrest : (s.skip n).rest = []
    · obtain rfl := hall hr hrest
      refine ⟨[], s, lexeme, .refl, hr, fun kind hkind => ?_⟩
      subst hkind
      simp at hlexeme
    · obtain ⟨us, m, lexeme', hscans, hr', hlast⟩ := ih hend hrest
      exact ⟨us, m, lexeme', .gap hr hlexeme hscans, hr', hlast⟩

end Source.Scans

/-- The last token of a trimmed line is what the line ends with, if that is no comment. -/
theorem exists_last_word {line : List Char} {us : List Token} (htrim : Text.trim line = line)
    (hcomment : ¬EndsInComment (.ofList line)) (h : tokenize (.ofList line) = .ok us) :
    ∀ t ∈ (visible us).getLast?, ∃ front word, line = front ++ word ∧ Spells t.kind word ∧
      t.text = tokenText t.kind word := by
  obtain ⟨ts, s', hscans, hnone⟩ := (Source.ofString (.ofList line)).exists_scans
  obtain ⟨last, -, htokens, ⟨rfl, hend⟩ | ⟨e, rfl⟩⟩ := Source.exists_last hnone
  · rw [tokenize, hscans.tokens_eq, htokens] at h
    cases h
    rw [visible_append_endOfFile hscans.kind_ne]
    intro t ht
    have hline : (Source.ofString (.ofList line)).rest = line := String.toList_ofList
    have hne : (Source.ofString (.ofList line)).rest ≠ [] := by
      intro hnil
      rw [hscans.eq_nil hnil] at ht
      cases ht
    obtain ⟨us, m, lexeme, hus, hr, hlast⟩ := hscans.exists_last_lexeme hend hne
    obtain ⟨before, htext, -⟩ := hus.exists_before
    rw [String.toList_ofList] at htext
    cases lexeme with
    | token kind =>
      obtain ⟨span, rfl⟩ := hlast kind rfl
      obtain rfl : _ = t := by simpa using ht
      have hspells := spells_of_recognize? hr
      rw [List.take_length] at hspells
      exact ⟨before, m.rest, htext, hspells, rfl⟩
    | blank =>
      -- A trimmed line does not end in a blank.
      have hblank := gap_of_blank hr
      rw [List.take_length] at hblank
      have hword : m.rest ≠ [] := List.length_pos_iff.mp (recognize?_pos hr)
      have hlast : line.getLast? = some (m.rest.getLast hword) := by
        rw [htext, List.getLast?_append, List.getLast?_eq_some_getLast hword]
        rfl
      have hnot := Text.isBlank_of_trim line (m.rest.getLast hword) (by rw [htrim, hlast]; rfl)
      exact absurd (hblank _ (List.getLast_mem hword)) (by simp [hnot])
    | comment => exact absurd ⟨us, m, hus, hr⟩ hcomment
  · rw [tokenize, hscans.tokens_eq, htokens] at h
    cases h

/-- Of the words that are no punctuation, none ends as a statement does. -/
theorem getLast?_ne_of_spells {kind : TokenKind} {word : List Char} (h : Spells kind word)
    (hkind : kind ≠ .punctuation) :
    word.getLast? ≠ some ';' ∧ word.getLast? ≠ some '\x7d' := by
  have hwords : ∀ w ∈ reservedWords ++ operatorTexts,
      w.toList.getLast? ≠ some ';' ∧ w.toList.getLast? ≠ some '\x7d' := by decide
  have hclass {p : Char → Bool} {cs : List Char} (hcs : ∀ c ∈ cs, p c = true)
      (hmarks : p ';' = false ∧ p '\x7d' = false) :
      cs.getLast? ≠ some ';' ∧ cs.getLast? ≠ some '\x7d' := by
    constructor <;> intro hlast <;> have hmark := hcs _ (List.mem_of_getLast? hlast) <;>
      simp [hmarks] at hmark
  cases h with
  | keyword hw => exact hwords _ (List.mem_append_left _ (mem_reservedWords_iff.mpr (.inl hw)))
  | freeKeyword hw => exact hwords _ (List.mem_append_left _ (mem_reservedWords_iff.mpr (.inr hw)))
  | operator hw => exact hwords _ (List.mem_append_right _ hw)
  | punctuation => exact absurd rfl hkind
  | whole _ hdigits => exact hclass hdigits (by decide)
  | fraction _ hne hdigits =>
    obtain ⟨d, ds, rfl⟩ := List.exists_cons_of_ne_nil hne
    rw [List.getLast?_append_cons, List.getLast?_cons_cons]
    exact hclass hdigits (by decide)
  | string =>
    rw [List.getLast?_concat]
    decide
  | identifier hword => exact hclass hword (by decide +kernel)

/-- Only the tokens that statements end with are written with their last characters. -/
theorem closes_iff {t : Token} {word : List Char} (h : Spells t.kind word)
    (htext : t.text = tokenText t.kind word) :
    Closes t ↔ word.getLast? = some ';' ∨ word.getLast? = some '\x7d' := by
  by_cases hkind : t.kind = .punctuation
  · have hmarks : ∀ w ∈ punctuation, (w = ";" ∨ w = "\x7d") ↔
        w.toList.getLast? = some ';' ∨ w.toList.getLast? = some '\x7d' := by decide
    rw [hkind] at h htext
    cases h with
    | punctuation hw =>
      rw [← hmarks _ hw]
      simp [Closes, Token.is, hkind, htext, tokenText]
  · have hne := getLast?_ne_of_spells h hkind
    constructor
    · intro hcloses
      simp [Closes, Token.is, hkind] at hcloses
    · rintro (hlast | hlast)
      · exact absurd hlast hne.1
      · exact absurd hlast hne.2

/-- A trimmed line ends as its last token does. -/
theorem closes_last_iff {line : List Char} {us : List Token} (htrim : Text.trim line = line)
    (hcomment : ¬EndsInComment (.ofList line)) (h : tokenize (.ofList line) = .ok us) {t : Token}
    (ht : t ∈ (visible us).getLast?) :
    Closes t ↔ line.getLast? = some ';' ∨ line.getLast? = some '\x7d' := by
  obtain ⟨front, word, rfl, hspells, htext⟩ := exists_last_word htrim hcomment h t ht
  have hword : word ≠ [] := List.length_pos_iff.mp (recognize?_pos (recognize?_of_spells hspells))
  have hlast : (front ++ word).getLast? = word.getLast? := by
    rw [List.getLast?_append, List.getLast?_eq_some_getLast hword]
    rfl
  rw [hlast]
  exact closes_iff hspells htext

/-! ### The beginning of a line -/

/-- The first word of the line for the session is a statement word, and goes on behind it as a word
of the language does. -/
def SplitsWord (line : List Char) : Prop :=
  ∃ w ∈ statementWords, ∃ c rest, line = w.toList ++ c :: rest ∧ Text.isWord c = true ∧
    Text.isAlphanumeric c = false ∧ c ≠ '_'

/-- The first lexeme of a line is its first token, if it is one. -/
theorem head?_of_recognize? {line : List Char} {kind : TokenKind} {n : Nat}
    (hr : recognize? line = some (.token kind, n)) {us : List Token}
    (h : tokenize (.ofList line) = .ok us) :
    ∃ span, us.head? = some ⟨kind, tokenText kind (line.take n), span⟩ := by
  have hline : (Source.ofString (.ofList line)).rest = line := String.toList_ofList
  rw [← hline] at hr ⊢
  exact ⟨_, Source.head?_of_tokens (Source.next_of_token hr) h⟩

theorem recognize?_of_brace (rest : List Char) :
    recognize? ('\x7b' :: rest) = some (.token .punctuation, 1) := by
  have hword : Text.isWord '\x7b' = false := by decide +kernel
  have hblank : Text.isBlank '\x7b' = false := by decide
  have hsymbol : symbol punctuation ('\x7b' :: rest) = 1 := rfl
  simp [recognize?, patterns, keywords_eq_zero hword, freeKeywords_eq_zero hword,
    run_cons_of_neg hblank, comment_eq_zero_of_head (show '\x7b' ≠ '/' by decide), hsymbol]

/-- Where a statement word stands by itself, it is a reserved word for the parsers too. -/
theorem recognize?_of_statementWord {w : String} (hw : w ∈ statementWords) {rest : List Char}
    (hrest : wordEnds rest = true) :
    ∃ kind, recognize? (w.toList ++ rest) = some (.token kind, w.toList.length) ∧
      (kind = .keyword ∨ kind = .freeKeyword) := by
  have hreserved : ∀ w ∈ statementWords, w ∈ keywords ∨ w ∈ freeKeywords := by decide
  have hletters : ∀ w ∈ statementWords, w.toList.all Text.isWord = true ∧
      w.toList.head?.any (!·.isDigit) = true := by decide +kernel
  have hfound : reserved keywords (w.toList ++ rest) ≠ 0 ∨
      reserved freeKeywords (w.toList ++ rest) ≠ 0 :=
    (hreserved w hw).imp (reserved_ne_zero · (by decide) hrest)
      (reserved_ne_zero · (by decide) hrest)
  obtain ⟨hword, hdigit⟩ := hletters w hw
  have hrun : run Text.isWord (w.toList ++ rest) = w.toList.length := by
    have hnone : rest.takeWhile Text.isWord = [] := by
      cases rest with
      | nil => rfl
      | cons c rest => simpa [wordEnds] using hrest
    rw [run, List.takeWhile_append_of_pos (List.all_eq_true.mp hword), hnone, List.append_nil]
  cases hcs : w.toList with
  | nil => simp [hcs] at hdigit
  | cons c cs =>
    rw [hcs] at hfound hrun hword hdigit
    have hc : Text.isWord c = true := List.all_eq_true.mp hword c List.mem_cons_self
    have hdigit : c.isDigit = false := by simpa using hdigit
    have hr : recognize? (c :: (cs ++ rest)) = _ := recognize?_of_letter hc hdigit
    rw [List.cons_append] at hfound hrun ⊢
    by_cases hkeyword : reserved keywords (c :: (cs ++ rest)) ≠ 0
    · rw [if_pos hkeyword] at hr
      exact ⟨.keyword, by rw [hr, length_of_letter hc hdigit hr, hrun], .inl rfl⟩
    · rw [if_neg hkeyword, if_pos (hfound.resolve_left hkeyword)] at hr
      exact ⟨.freeKeyword, by rw [hr, length_of_letter hc hdigit hr, hrun], .inr rfl⟩

/-- A statement word that stands by itself is the first token, and no expression begins with it. -/
theorem not_begins_of_statementWord {w : String} (hw : w ∈ statementWords) {rest : List Char}
    (hrest : wordEnds rest = true) {us : List Token}
    (h : tokenize (.ofList (w.toList ++ rest)) = .ok us) : ∀ t ∈ us.head?, ¬Begins t := by
  have hne : ∀ w ∈ statementWords, w ≠ "true" ∧ w ≠ "false" := by decide
  obtain ⟨kind, hr, hkind⟩ := recognize?_of_statementWord hw hrest
  obtain ⟨span, hhead⟩ := head?_of_recognize? hr h
  rw [List.take_left] at hhead
  intro t ht hbegins
  obtain rfl := Option.some.inj (hhead.symm.trans ht)
  obtain rfl | rfl := hkind
  · exact hbegins.keyword rfl
  · have htext : w = "true" ∨ w = "false" := by
      simpa [tokenText] using hbegins.freeKeyword rfl
    exact htext.elim (hne w hw).1 (hne w hw).2

theorem not_begins_of_brace {rest : List Char} {us : List Token}
    (h : tokenize (.ofList ('\x7b' :: rest)) = .ok us) : ∀ t ∈ us.head?, ¬Begins t := by
  obtain ⟨span, hhead⟩ := head?_of_recognize? (recognize?_of_brace rest) h
  intro t ht hbegins
  obtain rfl := Option.some.inj (hhead.symm.trans ht)
  exact Bool.false_ne_true (hbegins.brace.symm.trans rfl)

theorem firstWord_mem_iff {line : List Char} :
    String.ofList (firstWord line) ∈ statementWords ↔ ∃ w ∈ statementWords, ∃ rest,
      line = w.toList ++ rest ∧ ∀ c ∈ rest.head?, Text.isAlphanumeric c = false ∧ c ≠ '_' := by
  constructor
  · intro hw
    refine ⟨_, hw, line.dropWhile fun c => Text.isAlphanumeric c || c == '_', ?_, fun c hc => ?_⟩
    · rw [String.toList_ofList, firstWord, List.takeWhile_append_dropWhile]
    · have hhead := List.head?_dropWhile_not (fun c => Text.isAlphanumeric c || c == '_') line
      rw [hc] at hhead
      simpa using hhead
  · rintro ⟨w, hw, rest, rfl, hrest⟩
    have hall : ∀ w ∈ statementWords, w.toList.all Text.isAlphanumeric = true := by decide +kernel
    have hword : ∀ c ∈ w.toList, (Text.isAlphanumeric c || c == '_') = true := fun c hc => by
      rw [List.all_eq_true.mp (hall w hw) c hc, Bool.true_or]
    have hnone : rest.takeWhile (fun c => Text.isAlphanumeric c || c == '_') = [] := by
      cases rest with
      | nil => rfl
      | cons c rest => simpa using hrest c rfl
    rwa [firstWord, List.takeWhile_append_of_pos hword, hnone, List.append_nil,
      String.ofList_toList]

/-! ### What is done with a line -/

theorem isStatementLine_iff {line : List Char} : isStatementLine line = true ↔
    (line.getLast? = some ';' ∨ line.getLast? = some '\x7d') ∨ line.head? = some '\x7b' ∨
      String.ofList (firstWord line) ∈ statementWords := by
  simp [isStatementLine, or_assoc]

theorem isStatementLine_of_splitsWord {line : List Char} (h : SplitsWord line) :
    isStatementLine line = true := by
  obtain ⟨w, hw, c, rest, rfl, -, hc⟩ := h
  refine isStatementLine_iff.mpr (.inr (.inr (firstWord_mem_iff.mpr ⟨w, hw, c :: rest, rfl, ?_⟩)))
  rintro _ ⟨⟩
  exact hc

theorem isStatementLine_of_derives {line : List Char} {us : List Token} {n : Nonterminal} {e : Expr}
    (htrim : Text.trim line = line) (hcomment : ¬EndsInComment (.ofList line))
    (h : tokenize (.ofList line) = .ok us) (hderives : Derives n (visible us) e)
    (hsplit : ¬SplitsWord line) : isStatementLine line = false := by
  obtain ⟨t, ht, hbegins⟩ := hderives.framed.head
  have hfirst : t ∈ us.head? := by
    rw [visible, List.head?_takeWhile] at ht
    exact (Option.mem_filter_iff.mp ht).1
  rw [← Bool.not_eq_true, isStatementLine_iff]
  rintro (hlast | hbrace | hword)
  · obtain ⟨u, hu, hnot⟩ := hderives.framed.last
    exact hnot ((closes_last_iff htrim hcomment h hu).mpr hlast)
  · obtain ⟨rest, rfl⟩ := List.head?_eq_some_iff.mp hbrace
    exact not_begins_of_brace h t hfirst hbegins
  · obtain ⟨w, hw, rest, rfl, hrest⟩ := firstWord_mem_iff.mp hword
    cases hends : wordEnds rest with
    | true => exact not_begins_of_statementWord hw hends h t hfirst hbegins
    | false =>
      cases rest with
      | nil => cases hends
      | cons c rest =>
        exact hsplit ⟨w, hw, c, rest, rfl, by simpa [wordEnds] using hends, hrest c rfl⟩

/-- A line that is a program is executed as one. -/
theorem program_line_executed {line : List Char} {body : List Stmt} (htrim : Text.trim line = line)
    (hcomment : ¬EndsInComment (.ofList line)) (hparse : parseProgram (.ofList line) = .ok body)
    (hne : body ≠ []) :
    isStatementLine line = true ∧ Session.lineAction line = .ok (Stmt.executeAll body) ∧
      ∀ s : Session, s.runLine line =
        match Stmt.executeAll body s.machine with
        | .ok _ m => { s with machine := m }
        | .error e m => { s with machine := m }.report e.message := by
  obtain ⟨us, hus, hp⟩ := parseWith_eq_ok_iff.mp hparse
  have hstatements : Statements (visible us) none (body.map Stmt.bare) :=
    readsAll_iff_statements.mp ⟨body, hp, rfl⟩
  obtain ⟨t, ht, hcloses⟩ := hstatements.closed (by simpa using hne)
  have hline : isStatementLine line = true :=
    isStatementLine_iff.mpr (.inl ((closes_last_iff htrim hcomment hus ht).mp hcloses))
  have haction : Session.lineAction line = .ok (Stmt.executeAll body) := by
    rw [Session.lineAction, if_pos hline, hparse]
    rfl
  refine ⟨hline, haction, fun s => ?_⟩
  cases hrun : Stmt.executeAll body s.machine <;> simp only [Session.runLine, haction, hrun]

/-- The line ends with a block that belongs to a conditional. -/
theorem program_line_executed_of_branches : ∃ body,
    parseProgram "if (n == 1) print(n); else \x7b n = 1; \x7d" = .ok body ∧
    Session.lineAction "if (n == 1) print(n); else \x7b n = 1; \x7d".toList =
      .ok (Stmt.executeAll body) := by
  have hslash : '/' ∉ "if (n == 1) print(n); else \x7b n = 1; \x7d".toList := by decide
  have hcomment : ¬EndsInComment "if (n == 1) print(n); else \x7b n = 1; \x7d" :=
    fun ⟨_, _, hscans, hr⟩ => hslash (slash_mem_of_comment hscans hr)
  have hsome : (parseProgram "if (n == 1) print(n); else \x7b n = 1; \x7d").toOption.any
      (!·.isEmpty) = true := by decide +kernel
  cases hparse : parseProgram "if (n == 1) print(n); else \x7b n = 1; \x7d" with
  | error e =>
    rw [hparse] at hsome
    cases hsome
  | ok body =>
    have hne : body ≠ [] := by
      rintro rfl
      rw [hparse] at hsome
      cases hsome
    rw [← String.ofList_toList (s := "if (n == 1) print(n); else \x7b n = 1; \x7d")]
      at hparse hcomment
    exact ⟨body, rfl, (program_line_executed (by decide +kernel) hcomment hparse hne).2.1⟩

/-- A line that is an expression has its value printed, unless its first word is split. Then it is
run as the statements that it is not. -/
theorem expression_line_evaluated {line : List Char} {e : Expr} (htrim : Text.trim line = line)
    (hcomment : ¬EndsInComment (.ofList line))
    (hparse : parseExpression (.ofList line) = .ok e) :
    (¬SplitsWord line ∧ isStatementLine line = false ∧
      Session.lineAction line = .ok (do
        let v ← Execution.evaluating e.evaluate
        Execution.printLine v.text)) ∨
    SplitsWord line ∧ isStatementLine line = true ∧
      ∃ e', Session.lineAction line = .error (.grammatical e') := by
  obtain ⟨us, hus, hp⟩ := parseWith_eq_ok_iff.mp hparse
  have hderives : Derives .expression (visible us) e.bare := reads_iff_derives.mp ⟨e, hp, rfl⟩
  by_cases hsplit : SplitsWord line
  · have hline := isStatementLine_of_splitsWord hsplit
    refine .inr ⟨hsplit, hline, ?_⟩
    rw [Session.lineAction, if_pos hline, parseProgram, parseWith_of_tokenize hus]
    cases hbody : Stmt.listOfTokens us with
    | error e' => exact ⟨e', rfl⟩
    | ok body =>
      exact absurd (readsAll_iff_statements.mp ⟨body, hbody, rfl⟩) hderives.not_statements
  · have hline := isStatementLine_of_derives htrim hcomment hus hderives hsplit
    refine .inl ⟨hsplit, hline, ?_⟩
    rw [Session.lineAction, if_neg (by simp [hline]), hparse]
    rfl

/-- A line that begins as a statement word does and ends in a semicolon and a quote. -/
theorem expression_line_evaluated_of_string : ∃ e : Expr,
    parseExpression "printed == \"a;\"" = .ok e ∧
    Session.lineAction "printed == \"a;\"".toList = .ok (do
      let v ← Execution.evaluating e.evaluate
      Execution.printLine v.text) := by
  have hslash : '/' ∉ "printed == \"a;\"".toList := by decide
  have hcomment : ¬EndsInComment "printed == \"a;\"" :=
    fun ⟨_, _, hscans, hr⟩ => hslash (slash_mem_of_comment hscans hr)
  obtain ⟨e, he⟩ := exists_of_isOk
    (show (parseExpression "printed == \"a;\"").isOk = true by decide +kernel)
  refine ⟨e, he, ?_⟩
  rw [← String.ofList_toList (s := "printed == \"a;\"")] at he hcomment
  obtain ⟨-, -, haction⟩ | ⟨-, hline, -⟩ :=
    expression_line_evaluated (by decide +kernel) hcomment he
  · exact haction
  · exact absurd hline (by decide +kernel)

/-- A name that is `num` with an accent on its last letter. It is an expression, and refused. -/
theorem accented_name_not_evaluated :
    Text.trim "num\u0301".toList = "num\u0301".toList ∧
    (∀ ts s n, (Source.ofString "num\u0301").Scans ts s →
      recognize? s.rest ≠ some (.comment, n)) ∧
    (∃ e, parseExpression "num\u0301" = .ok e) ∧
    isStatementLine "num\u0301".toList = true ∧
    ∃ e, Session.lineAction "num\u0301".toList = .error e := by
  have hslash : '/' ∉ "num\u0301".toList := by decide
  have hline : isStatementLine "num\u0301".toList = true := by decide +kernel
  obtain ⟨e, he⟩ := exists_of_not_isOk
    (show (parseProgram "num\u0301").isOk = false by decide +kernel)
  refine ⟨by decide +kernel, fun ts s n h hr => hslash (slash_mem_of_comment h hr),
    exists_of_isOk (by decide +kernel), hline, e, ?_⟩
  rw [Session.lineAction, if_pos hline, String.ofList_toList, he]
  rfl

end EggLang
