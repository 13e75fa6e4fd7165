import EggLang.Lexeme

/-! What the stretches look like that the patterns match: the comments and the gaps that they and
blanks make up, and the texts that tokens are written as. -/

namespace EggLang

/-- The text of a token as it is written. -/
def Token.written (t : Token) : String :=
  if t.kind = .string then "\"" ++ t.text ++ "\"" else t.text

/-- A comment, before the text `rest`. One of the first kind goes on to the end of its line, and one
of the second up to the first `*/`. -/
inductive Comment : List Char → List Char → Prop
  | line {cs rest : List Char} : '\n' ∉ cs → (∀ c ∈ rest.head?, c = '\n') →
      Comment ('/' :: '/' :: cs) rest
  | block {cs rest : List Char} : ¬['*', '/'] <:+: cs ++ ['*'] →
      Comment ('/' :: '*' :: cs ++ ['*', '/']) rest

/-- Blanks and comments one after the other, before the text `rest`. -/
inductive Gap : List Char → List Char → Prop
  | nil {rest : List Char} : Gap [] rest
  | blank {c : Char} {cs rest : List Char} : Text.isBlank c = true → Gap cs rest →
      Gap (c :: cs) rest
  | comment {cs ds rest : List Char} : Comment cs (ds ++ rest) → Gap ds rest → Gap (cs ++ ds) rest

theorem Gap.blanks {cs ds rest : List Char} (hcs : ∀ c ∈ cs, Text.isBlank c = true)
    (h : Gap ds rest) : Gap (cs ++ ds) rest := by
  induction cs with
  | nil => exact h
  | cons c cs ih =>
    rw [List.forall_mem_cons] at hcs
    exact .blank hcs.1 (ih hcs.2)

namespace Pattern

/-- A run goes on as far as it can. -/
theorem exists_run (p : Char → Bool) (cs : List Char) :
    ∃ word rest, cs = word ++ rest ∧ run p cs = word.length ∧ (∀ c ∈ word, p c = true) ∧
      ∀ c ∈ rest.head?, p c = false := by
  induction cs with
  | nil => exact ⟨[], [], rfl, rfl, by simp, by simp⟩
  | cons c cs ih =>
    by_cases h : p c = true
    · obtain ⟨word, rest, rfl, hrun, hword, hrest⟩ := ih
      refine ⟨c :: word, rest, rfl, ?_, List.forall_mem_cons.mpr ⟨h, hword⟩, hrest⟩
      rw [run, List.takeWhile_cons_of_pos h, List.length_cons, List.length_cons, ← hrun, run]
    · exact ⟨[], c :: cs, rfl, by simp [run, h], by simp, by simpa using h⟩

theorem exists_lineComment {cs : List Char} (h : lineComment cs ≠ 0) :
    ∃ word rest, cs = word ++ rest ∧ lineComment cs = word.length ∧ Comment word rest := by
  fun_cases lineComment cs with
  | case1 cs =>
    obtain ⟨inside, rest, rfl, hrun, hinside, hrest⟩ := exists_run (· != '\n') cs
    refine ⟨'/' :: '/' :: inside, rest, rfl, ?_, .line ?_ ?_⟩
    · rw [← run, hrun]
      rfl
    · intro hmem
      simpa using hinside _ hmem
    · intro c hc
      simpa using hrest c hc
  | case2 cs hcs => exact absurd (by rw [lineComment]; exact hcs) h

/-- What `closing?` counts ends with the first `*/`. -/
theorem exists_closing {cs : List Char} {n : Nat} (h : closing? cs = some n) :
    ∃ inside rest, cs = inside ++ '*' :: '/' :: rest ∧ n = inside.length + 2 ∧
      ¬['*', '/'] <:+: inside ++ ['*'] := by
  fun_induction closing? cs generalizing n with
  | case1 => exact nomatch h
  | case2 rest =>
    cases h
    exact ⟨[], rest, rfl, rfl, by decide⟩
  | case3 c cs hopen ih =>
    obtain ⟨m, hm, rfl⟩ := Option.map_eq_some_iff.mp h
    obtain ⟨inside, rest, rfl, rfl, hinside⟩ := ih hm
    refine ⟨c :: inside, rest, rfl, rfl, ?_⟩
    rw [List.cons_append, List.infix_cons_iff]
    rintro (hhead | hinfix)
    · rw [List.cons_prefix_cons] at hhead
      obtain ⟨rfl, hslash⟩ := hhead
      cases inside with
      | nil => exact absurd hslash (by decide)
      | cons d inside =>
        rw [List.cons_append, List.cons_prefix_cons] at hslash
        obtain ⟨rfl, -⟩ := hslash
        exact hopen _ rfl rfl
    · exact hinside hinfix

theorem exists_blockComment {cs : List Char} (h : blockComment cs ≠ 0) :
    ∃ word rest, cs = word ++ rest ∧ blockComment cs = word.length ∧ Comment word rest := by
  fun_cases blockComment cs with
  | case1 cs n hclosing =>
    obtain ⟨inside, rest, rfl, rfl, hinside⟩ := exists_closing hclosing
    exact ⟨'/' :: '*' :: inside ++ ['*', '/'], rest, by simp, by simp, .block hinside⟩
  | case2 cs hclosing => exact absurd (by simp [blockComment, hclosing]) h
  | case3 cs hcs => exact absurd (by rw [blockComment]; exact hcs) h

theorem comment_take_drop {cs : List Char} (h : comment cs ≠ 0) :
    Comment (cs.take (comment cs)) (cs.drop (comment cs)) := by
  have hexists : ∃ word rest, cs = word ++ rest ∧ comment cs = word.length ∧ Comment word rest := by
    rw [comment] at h ⊢
    split
    · rename_i hline
      rw [if_pos hline] at h
      exact exists_blockComment h
    · rename_i hline
      exact exists_lineComment hline
  obtain ⟨word, rest, rfl, hlength, hcomment⟩ := hexists
  rwa [hlength, List.take_left, List.drop_left]

/-- Quoted text is closed by the first quote in it. -/
theorem exists_quoted {cs : List Char} (h : quoted cs ≠ 0) :
    ∃ inside rest, cs = '"' :: inside ++ ['"'] ++ rest ∧ quoted cs = inside.length + 2 ∧
      '"' ∉ inside := by
  fun_cases quoted cs with
  | case1 cs n hclosed =>
    obtain ⟨inside, rest, rfl, hrun, hinside, hrest⟩ := exists_run (· != '"') cs
    have hn : n = inside.length := hrun
    cases rest with
    | nil =>
      rw [hn, List.append_nil] at hclosed
      omega
    | cons c rest =>
      have hc : c = '"' := by simpa using hrest c rfl
      subst hc
      refine ⟨inside, rest, by simp, by rw [hn], fun hmem => ?_⟩
      simpa using hinside _ hmem
  | case2 cs n hopen => exact absurd (if_neg hopen) h
  | case3 cs hcs => exact absurd (by rw [quoted]; exact hcs) h

end Pattern

namespace Lexeme

theorem exists_pattern {cs : List Char} {lexeme : Lexeme} {n : Nat}
    (h : recognize? cs = some (lexeme, n)) :
    ∃ pattern, (lexeme, pattern) ∈ patterns ∧ pattern cs = n ∧ n ≠ 0 := by
  obtain ⟨⟨lexeme', pattern⟩, hmem, hp⟩ := List.exists_of_findSome?_eq_some h
  simp only at hp
  split at hp
  · exact nomatch hp
  · rename_i hn
    cases hp
    exact ⟨pattern, hmem, rfl, hn⟩

theorem gap_of_blank {cs : List Char} {n : Nat} (h : recognize? cs = some (.blank, n)) :
    ∀ c ∈ cs.take n, Text.isBlank c = true := by
  obtain ⟨pattern, hmem, rfl, -⟩ := exists_pattern h
  have hpattern : pattern = Pattern.run Text.isBlank := by simpa [patterns] using hmem
  obtain ⟨word, rest, rfl, hrun, hword, -⟩ := Pattern.exists_run Text.isBlank cs
  rwa [hpattern, hrun, List.take_left]

theorem comment_of_recognize? {cs : List Char} {n : Nat}
    (h : recognize? cs = some (.comment, n)) : Comment (cs.take n) (cs.drop n) := by
  obtain ⟨pattern, hmem, rfl, hn⟩ := exists_pattern h
  have hpattern : pattern = Pattern.comment := by simpa [patterns] using hmem
  subst hpattern
  exact Pattern.comment_take_drop hn

theorem kind_of_recognize? {cs : List Char} {kind : TokenKind} {n : Nat}
    (h : recognize? cs = some (.token kind, n)) : kind ≠ .endOfFile := by
  obtain ⟨pattern, hmem, -⟩ := exists_pattern h
  rintro rfl
  simp [patterns] at hmem

/-- A token is written as the text that it was made from. -/
theorem written_of_recognize? {cs : List Char} {kind : TokenKind} {n : Nat} (span : Span)
    (h : recognize? cs = some (.token kind, n)) :
    (Token.mk kind (tokenText kind (cs.take n)) span).written = String.ofList (cs.take n) := by
  by_cases hkind : kind = .string
  · subst hkind
    obtain ⟨pattern, hmem, rfl, hn⟩ := exists_pattern h
    have hpattern : pattern = Pattern.quoted := by simpa [patterns] using hmem
    subst hpattern
    obtain ⟨inside, rest, rfl, hlength, -⟩ := Pattern.exists_quoted hn
    have htake : ('"' :: inside ++ ['"'] ++ rest).take (inside.length + 2) =
        '"' :: inside ++ ['"'] := List.take_left' (by simp)
    rw [hlength, htake, ← String.toList_inj]
    simp [Token.written, tokenText]
  · rw [Token.written, if_neg hkind]
    cases kind with
    | string => exact absurd rfl hkind
    | _ => rfl

end Lexeme

end EggLang
