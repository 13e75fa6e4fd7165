import EggLang.Proofs.Lexeme
import Mathlib.Data.List.Find

/-! What the patterns make of a text with more text behind it that starts with a blank. Tokens stay
what they are, unless a comment that is not closed in the text is closed behind it. -/

namespace EggLang

namespace Text

theorem Ranges.exists_of_contains {ranges : Ranges} {n : Nat} (h : ranges.contains n = true) :
    ∃ range ∈ ranges, range.1 ≤ n ∧ n ≤ range.2 := by
  induction ranges with
  | nil => exact nomatch h
  | cons range rest ih =>
    simp only [Ranges.contains, Bool.and_eq_true, Bool.or_eq_true, decide_eq_true_eq] at h
    obtain ⟨hlow, hhigh | hrest⟩ := h
    · exact ⟨range, List.mem_cons_self, hlow, hhigh⟩
    · obtain ⟨range', hmem, h⟩ := ih hrest
      exact ⟨range', List.mem_cons_of_mem _ hmem, h⟩

/-- The blanks, one by one. -/
def blanks : List Char :=
  whiteSpace.flatMap fun range =>
    (List.range (range.2 + 1 - range.1)).map fun k => Char.ofNat (range.1 + k)

theorem mem_blanks {c : Char} (h : isBlank c = true) : c ∈ blanks := by
  obtain ⟨range, hrange, hlow, hhigh⟩ := Ranges.exists_of_contains h
  refine List.mem_flatMap.mpr ⟨range, hrange, List.mem_map.mpr ⟨c.toNat - range.1, ?_, ?_⟩⟩
  · rw [List.mem_range]
    omega
  · rw [Nat.add_sub_cancel' hlow, Char.ofNat_toNat]

theorem isWord_of_isBlank {c : Char} (h : isBlank c = true) : isWord c = false := by
  have hnone : blanks.any isWord = false := by decide +kernel
  simpa using List.any_eq_false.mp hnone c (mem_blanks h)

theorem isDigit_of_isBlank {c : Char} (h : isBlank c = true) : c.isDigit = false := by
  have hnone : blanks.any Char.isDigit = false := by decide +kernel
  simpa using List.any_eq_false.mp hnone c (mem_blanks h)

end Text

/-- The text starts with a blank, if with anything. -/
def StartsBlank (cs : List Char) : Prop := ∀ c ∈ cs.head?, Text.isBlank c = true

namespace Pattern

variable {cs ds : List Char}

/-- A word without blanks is not continued by a blank. -/
theorem isPrefixOf_append {word : List Char} (hword : word.any Text.isBlank = false)
    (hds : StartsBlank ds) : word.isPrefixOf (cs ++ ds) = word.isPrefixOf cs := by
  induction word generalizing cs with
  | nil => simp
  | cons c word ih =>
    rw [List.any_cons, Bool.or_eq_false_iff] at hword
    cases cs with
    | cons d cs => rw [List.cons_append, List.isPrefixOf, List.isPrefixOf, ih hword.2]
    | nil =>
      cases ds with
      | nil => rfl
      | cons d ds =>
        have hd : Text.isBlank d = true := hds d rfl
        have hne : (c == d) = false := by
          rw [beq_eq_false_iff_ne]
          rintro rfl
          exact absurd hd (by simp [hword.1])
        rw [List.nil_append, List.isPrefixOf_cons_cons, hne, Bool.false_and]
        rfl

theorem run_append {p : Char → Bool} (hp : ∀ c, Text.isBlank c = true → p c = false)
    (hds : StartsBlank ds) : run p (cs ++ ds) = run p cs := by
  have hnone : ds.takeWhile p = [] := by
    cases ds with
    | nil => rfl
    | cons d ds => rw [List.takeWhile_cons, hp d (hds d rfl), if_neg Bool.false_ne_true]
  rw [run, run, List.takeWhile_append, hnone, List.append_nil]
  split
  · rename_i h
    rw [(List.takeWhile_prefix p).eq_of_length h]
  · rfl

theorem wordEnds_append (hds : StartsBlank ds) : wordEnds (cs ++ ds) = wordEnds cs := by
  cases cs with
  | cons c cs => rfl
  | nil =>
    cases ds with
    | nil => rfl
    | cons d ds => simp [wordEnds, Text.isWord_of_isBlank (hds d rfl)]

theorem reserved_append {words : List String}
    (hwords : ∀ w ∈ words, w.toList.any Text.isBlank = false) (hds : StartsBlank ds) :
    reserved words (cs ++ ds) = reserved words cs := by
  have hfind : words.find? (fun w => w.toList.isPrefixOf (cs ++ ds) &&
      wordEnds ((cs ++ ds).drop w.toList.length)) =
      words.find? (fun w => w.toList.isPrefixOf cs && wordEnds (cs.drop w.toList.length)) := by
    refine List.find?_congr fun w hw => ?_
    rw [isPrefixOf_append (hwords w hw) hds]
    cases hstarts : w.toList.isPrefixOf cs with
    | false => rfl
    | true =>
      have hlength := (List.isPrefixOf_iff_prefix.mp hstarts).length_le
      rw [List.drop_append_of_le_length hlength, wordEnds_append hds]
  rw [reserved, reserved, hfind]

theorem symbol_append {symbols : List String}
    (hsymbols : ∀ w ∈ symbols, w.toList.any Text.isBlank = false) (hds : StartsBlank ds) :
    symbol symbols (cs ++ ds) = symbol symbols cs := by
  have hfind : symbols.find? (fun w => w.toList.isPrefixOf (cs ++ ds)) =
      symbols.find? (fun w => w.toList.isPrefixOf cs) :=
    List.find?_congr fun w hw => isPrefixOf_append (hsymbols w hw) hds
  rw [symbol, symbol, hfind]

theorem run_le (p : Char → Bool) (cs : List Char) : run p cs ≤ cs.length :=
  (List.takeWhile_prefix p).length_le

theorem number_append (hds : StartsBlank ds) : number (cs ++ ds) = number cs := by
  have hdigit : run Char.isDigit (cs ++ ds) = run Char.isDigit cs :=
    run_append (fun _ => Text.isDigit_of_isBlank) hds
  have hle := run_le Char.isDigit cs
  rw [number, number, hdigit, List.drop_append_of_le_length hle]
  cases cs.drop (run Char.isDigit cs) with
  | cons c rest =>
    by_cases hc : c = '.'
    · subst hc
      simp only [List.cons_append, run_append (fun _ => Text.isDigit_of_isBlank) hds]
    · simp [hc]
  | nil =>
    cases ds with
    | nil => rfl
    | cons d ds =>
      have hd : d ≠ '.' := by
        rintro rfl
        exact absurd (hds _ rfl) (by decide)
      simp [hd]

theorem quoted_of_closed {inside : List Char} (h : '"' ∉ inside) (rest : List Char) :
    quoted ('"' :: inside ++ ['"'] ++ rest) = inside.length + 2 := by
  have hrun : run (· != '"') (inside ++ '"' :: rest) = inside.length := by
    rw [run, List.takeWhile_append_of_pos, List.takeWhile_cons_of_neg]
    · simp
    · simp
    · intro c hc
      rw [bne_iff_ne]
      rintro rfl
      exact h hc
  simp [quoted, hrun]

theorem quoted_append (h : quoted cs ≠ 0) : quoted (cs ++ ds) = quoted cs := by
  obtain ⟨inside, rest, rfl, hlength, hinside⟩ := exists_quoted h
  rw [hlength, List.append_assoc, quoted_of_closed hinside]

theorem closing?_of_closed {inside : List Char} (h : ¬['*', '/'] <:+: inside ++ ['*'])
    (rest : List Char) : closing? (inside ++ '*' :: '/' :: rest) = some (inside.length + 2) := by
  induction inside with
  | nil => rfl
  | cons c inside ih =>
    rw [List.cons_append, List.infix_cons_iff, not_or] at h
    rw [List.cons_append, closing?, ih h.2]
    · rfl
    · rintro ds rfl hds
      refine h.1 (List.cons_prefix_cons.mpr ⟨rfl, ?_⟩)
      cases inside with
      | nil => simp at hds
      | cons d inside =>
        cases hds
        exact List.cons_prefix_cons.mpr ⟨rfl, List.nil_prefix⟩

theorem closing?_eq_none_iff : closing? cs = none ↔ ¬['*', '/'] <:+: cs := by
  fun_induction closing? cs with
  | case1 => simp
  | case2 rest => simp [List.infix_cons_iff]
  | case3 c rest hopen ih =>
    have hprefix : ¬['*', '/'] <+: c :: rest := by
      rintro ⟨behind, heq⟩
      cases heq
      exact hopen behind rfl rfl
    rw [Option.map_eq_none_iff, ih, List.infix_cons_iff, or_iff_right hprefix]

/-- A text that starts with a blank closes a comment only by a `*/` of its own. -/
theorem closing?_append_eq_none (h : closing? cs = none) (hds : StartsBlank ds)
    (hclosed : ¬['*', '/'] <:+: ds) : closing? (cs ++ ds) = none := by
  rw [closing?_eq_none_iff] at h ⊢
  rw [List.infix_append_iff]
  rintro (hfront | hback | ⟨front, back, heq, hfront, hback⟩)
  · exact h hfront
  · exact hclosed hback
  -- The `*` is the last character of `cs` and the `/` the first one of `ds`, or both are in one.
  · obtain ⟨rfl, rfl⟩ | ⟨front, rfl, hslash⟩ := List.cons_eq_append_iff.mp heq
    · exact hclosed hback.isInfix
    obtain ⟨rfl, rfl⟩ | ⟨front, rfl, hnil⟩ := List.cons_eq_append_iff.mp hslash
    · obtain ⟨behind, rfl⟩ := hback
      exact absurd (hds '/' rfl) (by decide)
    · obtain ⟨rfl, rfl⟩ := List.append_eq_nil_iff.mp hnil.symm
      exact h hfront.isInfix

theorem comment_of_comment {word rest : List Char} (h : Comment word rest) :
    comment (word ++ rest) = word.length := by
  cases h with
  | @line cs _ hcs hrest =>
    have hrun : (cs ++ rest).takeWhile (· != '\n') = cs := by
      rw [List.takeWhile_append_of_pos]
      · cases rest with
        | nil => simp
        | cons c rest => simp [hrest c rfl]
      · intro c hc
        rw [bne_iff_ne]
        rintro rfl
        exact hcs hc
    simp [comment, lineComment, hrun]
  | @block inside _ hinside =>
    simp [comment, lineComment, blockComment, closing?_of_closed hinside]

theorem lineComment_ne_zero_iff : lineComment cs ≠ 0 ↔ ∃ rest, cs = '/' :: '/' :: rest := by
  fun_cases lineComment cs with
  | case1 rest => simp
  | case2 _ hcs =>
    simp only [ne_eq, not_true_eq_false, false_iff, not_exists]
    exact hcs

theorem blockComment_ne_zero_iff :
    blockComment cs ≠ 0 ↔ ∃ rest, cs = '/' :: '*' :: rest ∧ closing? rest ≠ none := by
  fun_cases blockComment cs with
  | case1 rest n hclosing => simp [hclosing]
  | case2 rest hclosing => simp [hclosing]
  | case3 _ hcs =>
    simp only [ne_eq, not_true_eq_false, false_iff, not_exists]
    exact fun rest h => hcs rest h.1

theorem comment_ne_zero_iff : comment cs ≠ 0 ↔ (∃ rest, cs = '/' :: '/' :: rest) ∨
    ∃ rest, cs = '/' :: '*' :: rest ∧ closing? rest ≠ none := by
  rw [← lineComment_ne_zero_iff, ← blockComment_ne_zero_iff, comment]
  split <;> simp [*]

/-- A comment starts with two characters, neither of them blank. -/
theorem comment_append (h : comment cs = 0) (hne : cs ≠ []) (hds : StartsBlank ds)
    (hopen : ∀ inside, cs = '/' :: '*' :: inside → ¬['*', '/'] <:+: ds) :
    comment (cs ++ ds) = 0 := by
  have hcut : ∀ {d rest}, Text.isBlank d = false → cs ++ ds = '/' :: d :: rest →
      ∃ inside, cs = '/' :: d :: inside ∧ rest = inside ++ ds := by
    intro d rest hd heq
    obtain ⟨c, cs, rfl⟩ := List.exists_cons_of_ne_nil hne
    rw [List.cons_append, List.cons.injEq] at heq
    obtain ⟨rfl, heq⟩ := heq
    cases cs with
    | nil =>
      have hblank := hds d (by rw [← List.nil_append ds, heq]; rfl)
      simp [hd] at hblank
    | cons c cs =>
      rw [List.cons_append, List.cons.injEq] at heq
      exact ⟨cs, by rw [heq.1], heq.2.symm⟩
  by_contra hcomment
  obtain ⟨rest, heq⟩ | ⟨rest, heq, hclosing⟩ := comment_ne_zero_iff.mp hcomment
  · obtain ⟨inside, hcs, -⟩ := hcut (by decide) heq
    exact comment_ne_zero_iff.mpr (.inl ⟨inside, hcs⟩) h
  · obtain ⟨inside, hcs, rfl⟩ := hcut (by decide) heq
    have hinside : closing? inside = none := by
      by_contra hne
      exact comment_ne_zero_iff.mpr (.inr ⟨inside, hcs, hne⟩) h
    exact hclosing (closing?_append_eq_none hinside hds (hopen inside hcs))

/-! ### How far patterns go -/

theorem reserved_le (words : List String) (cs : List Char) : reserved words cs ≤ cs.length := by
  rw [reserved]
  split
  · rename_i w hw
    have hstarts := List.find?_some hw
    rw [Bool.and_eq_true, List.isPrefixOf_iff_prefix] at hstarts
    exact hstarts.1.length_le
  · exact Nat.zero_le _

theorem symbol_le (symbols : List String) (cs : List Char) : symbol symbols cs ≤ cs.length := by
  rw [symbol]
  split
  · rename_i w hw
    have hstarts := List.find?_some hw
    exact (List.isPrefixOf_iff_prefix.mp hstarts).length_le
  · exact Nat.zero_le _

theorem comment_le (cs : List Char) : comment cs ≤ cs.length := by
  by_cases h : comment cs = 0
  · omega
  · have hlength := comment_of_comment (comment_take_drop h)
    rw [List.take_append_drop, List.length_take] at hlength
    omega

theorem number_le (cs : List Char) : number cs ≤ cs.length := by
  have hwhole := run_le Char.isDigit cs
  rw [number]
  split
  · rename_i rest hrest
    have hlength := congrArg List.length hrest
    have hfraction := run_le Char.isDigit rest
    rw [List.length_drop, List.length_cons] at hlength
    dsimp only
    split <;> omega
  · exact hwhole

theorem quoted_le (cs : List Char) : quoted cs ≤ cs.length := by
  by_cases h : quoted cs = 0
  · omega
  · obtain ⟨inside, rest, rfl, hlength, -⟩ := exists_quoted h
    rw [hlength]
    simp

/-! ### Texts that start with a certain character -/

theorem isPrefixOf_cons_of_head {word : List Char} {c : Char}
    (h : word.head?.any (· != c) = true) : word.isPrefixOf (c :: cs) = false := by
  cases word with
  | nil => exact nomatch h
  | cons d word =>
    have hne : (d == c) = false := by simpa using h
    rw [List.isPrefixOf_cons_cons, hne, Bool.false_and]

theorem reserved_eq_zero_of_head {words : List String} {c : Char}
    (h : ∀ w ∈ words, w.toList.head?.any (· != c) = true) : reserved words (c :: cs) = 0 := by
  have hfind : words.find? (fun w => w.toList.isPrefixOf (c :: cs) &&
      wordEnds ((c :: cs).drop w.toList.length)) = none := by
    refine List.find?_eq_none.mpr fun w hw => ?_
    have hstarts : w.toList.isPrefixOf (c :: cs) = false := isPrefixOf_cons_of_head (h w hw)
    simp [hstarts]
  rw [reserved, hfind]

/-- What all words start with, `c` is not. -/
theorem head_ne {words : List String} {p : Char → Bool} {c : Char}
    (hwords : ∀ w ∈ words, w.toList.head?.any p = true) (hc : p c = false) :
    ∀ w ∈ words, w.toList.head?.any (· != c) = true := by
  intro w hw
  obtain ⟨d, hd, hp⟩ := (Option.any_eq_true _ _).mp (hwords w hw)
  have hne : d ≠ c := fun hdc => absurd hp (by simp [hdc, hc])
  simpa [hd] using hne

theorem reserved_eq_zero {words : List String} {c : Char}
    (hwords : ∀ w ∈ words, w.toList.head?.any Text.isWord = true) (hc : Text.isWord c = false) :
    reserved words (c :: cs) = 0 :=
  reserved_eq_zero_of_head (head_ne hwords hc)

theorem symbol_eq_zero {symbols : List String} {c : Char}
    (h : ∀ w ∈ symbols, w.toList.head?.any (· != c) = true) : symbol symbols (c :: cs) = 0 := by
  have hfind : symbols.find? (fun w => w.toList.isPrefixOf (c :: cs)) = none := by
    refine List.find?_eq_none.mpr fun w hw => ?_
    have hstarts : w.toList.isPrefixOf (c :: cs) = false := isPrefixOf_cons_of_head (h w hw)
    simp [hstarts]
  rw [symbol, hfind]

theorem comment_eq_zero_of_head {c : Char} (h : c ≠ '/') : comment (c :: cs) = 0 := by
  by_contra hcomment
  obtain ⟨rest, heq⟩ | ⟨rest, heq, -⟩ := comment_ne_zero_iff.mp hcomment
  · exact h (List.cons.inj heq).1
  · exact h (List.cons.inj heq).1

theorem run_cons_of_neg {p : Char → Bool} {c : Char} (h : p c = false) : run p (c :: cs) = 0 := by
  rw [run, List.takeWhile_cons_of_neg (by simp [h]), List.length_nil]

end Pattern

namespace Lexeme

open Pattern

variable {cs ds : List Char}

theorem recognize?_le {lexeme : Lexeme} {n : Nat} (h : recognize? cs = some (lexeme, n)) :
    n ≤ cs.length := by
  obtain ⟨pattern, hmem, rfl, -⟩ := exists_pattern h
  simp only [patterns, List.mem_cons, Prod.mk.injEq, List.not_mem_nil, or_false] at hmem
  rcases hmem with ⟨-, rfl⟩ | ⟨-, rfl⟩ | ⟨-, rfl⟩ | ⟨-, rfl⟩ | ⟨-, rfl⟩ | ⟨-, rfl⟩ | ⟨-, rfl⟩ |
    ⟨-, rfl⟩ | ⟨-, rfl⟩
  · exact reserved_le keywords cs
  · exact reserved_le freeKeywords cs
  · exact run_le Text.isBlank cs
  · exact comment_le cs
  · exact symbol_le punctuation cs
  · exact symbol_le operators cs
  · exact number_le cs
  · exact quoted_le cs
  · exact run_le Text.isWord cs

theorem keywords_eq_zero {c : Char} (hc : Text.isWord c = false) :
    reserved keywords (c :: cs) = 0 :=
  reserved_eq_zero (by decide +kernel) hc

theorem freeKeywords_eq_zero {c : Char} (hc : Text.isWord c = false) :
    reserved freeKeywords (c :: cs) = 0 :=
  reserved_eq_zero (by decide +kernel) hc

theorem recognize?_of_blank {c : Char} (hc : Text.isBlank c = true) :
    recognize? (c :: cs) = some (.blank, run Text.isBlank (c :: cs)) := by
  have hword := Text.isWord_of_isBlank hc
  have hrun : run Text.isBlank (c :: cs) ≠ 0 := by
    rw [run, List.takeWhile_cons_of_pos hc]
    simp
  simp [recognize?, patterns, keywords_eq_zero hword, freeKeywords_eq_zero hword, hrun]

theorem recognize?_of_comment {word rest : List Char} (h : Comment word rest) :
    recognize? (word ++ rest) = some (.comment, word.length) := by
  have hlength := comment_of_comment h
  obtain ⟨word, rfl⟩ : ∃ cs, word = '/' :: cs := by
    cases h <;> exact ⟨_, rfl⟩
  have hword : Text.isWord '/' = false := by decide +kernel
  have hblank : Text.isBlank '/' = false := by decide
  rw [List.cons_append] at hlength ⊢
  simp [recognize?, patterns, keywords_eq_zero hword, freeKeywords_eq_zero hword,
    run_cons_of_neg hblank, hlength]

/-- A text that starts with a quote starts with quoted text, if with any lexeme. -/
theorem recognize?_of_quote : recognize? ('"' :: cs) =
    if quoted ('"' :: cs) = 0 then none else some (.token .string, quoted ('"' :: cs)) := by
  have hword : Text.isWord '"' = false := by decide +kernel
  have hpunctuation : ∀ w ∈ punctuation, w.toList.head?.any (· != '"') = true := by decide +kernel
  have hoperators : ∀ w ∈ operators, w.toList.head?.any (· != '"') = true := by decide +kernel
  have hblank : Text.isBlank '"' = false := by decide
  have hnumber : number ('"' :: cs) = 0 := by
    simp [number, run_cons_of_neg (show Char.isDigit '"' = false by decide)]
  simp only [recognize?, patterns, List.findSome?_cons, List.findSome?_nil, keywords_eq_zero hword,
    freeKeywords_eq_zero hword, symbol_eq_zero hpunctuation, symbol_eq_zero hoperators,
    run_cons_of_neg hblank, run_cons_of_neg hword,
    comment_eq_zero_of_head (show '"' ≠ '/' by decide), hnumber, ↓reduceIte]
  split <;> simp [*]

theorem quoted_ne_zero {lexeme : Lexeme} {n : Nat}
    (h : recognize? ('"' :: cs) = some (lexeme, n)) : quoted ('"' :: cs) ≠ 0 := by
  intro hquoted
  rw [recognize?_of_quote, if_pos hquoted] at h
  exact nomatch h

theorem comment_eq_zero {kind : TokenKind} {n : Nat} (h : recognize? cs = some (.token kind, n)) :
    Pattern.comment cs = 0 := by
  by_contra hcomment
  have hr := recognize?_of_comment (comment_take_drop hcomment)
  rw [List.take_append_drop, h] at hr
  cases hr

theorem recognize?_of_operator {c : Char} (hword : Text.isWord c = false)
    (hblank : Text.isBlank c = false)
    (hpunctuation : ∀ w ∈ punctuation, w.toList.head?.any (· != c) = true)
    (hcomment : Pattern.comment (c :: cs) = 0) (hoperator : symbol operators (c :: cs) = 1) :
    recognize? (c :: cs) = some (.token .operator, 1) := by
  simp [recognize?, patterns, keywords_eq_zero hword, freeKeywords_eq_zero hword,
    run_cons_of_neg hblank, hcomment, symbol_eq_zero hpunctuation, hoperator]

/-- A comment that is not closed starts with an operator. -/
theorem recognize?_of_unclosed (h : closing? cs = none) :
    recognize? ('/' :: '*' :: cs) = some (.token .operator, 1) := by
  have hcomment : Pattern.comment ('/' :: '*' :: cs) = 0 := by
    simp [Pattern.comment, lineComment, blockComment, h]
  exact recognize?_of_operator (by decide +kernel) (by decide) (by decide +kernel) hcomment
    (by simp [symbol, operators])

theorem recognize?_of_open {kind : TokenKind} {n : Nat}
    (h : recognize? ('/' :: '*' :: cs) = some (.token kind, n)) : kind = .operator ∧ n = 1 := by
  have hclosing : closing? cs = none := by
    by_contra hne
    exact comment_ne_zero_iff.mpr (.inr ⟨cs, rfl, hne⟩) (comment_eq_zero h)
  rw [recognize?_of_unclosed hclosing] at h
  cases h
  exact ⟨rfl, rfl⟩

theorem recognize?_of_star : recognize? ('*' :: cs) = some (.token .operator, 1) :=
  recognize?_of_operator (by decide +kernel) (by decide) (by decide +kernel)
    (comment_eq_zero_of_head (by decide)) (by simp [symbol, operators])

theorem recognize?_of_minus : recognize? ('-' :: cs) = some (.token .operator, 1) :=
  recognize?_of_operator (by decide +kernel) (by decide) (by decide +kernel)
    (comment_eq_zero_of_head (by decide)) (by simp [symbol, operators])

theorem recognize?_append {kind : TokenKind} {n : Nat}
    (h : recognize? cs = some (.token kind, n)) (hds : StartsBlank ds)
    (hopen : ∀ inside, cs = '/' :: '*' :: inside → ¬['*', '/'] <:+: ds) :
    recognize? (cs ++ ds) = some (.token kind, n) := by
  obtain ⟨c, rest, rfl⟩ : ∃ c rest, cs = c :: rest := by
    cases cs with
    | nil => exact nomatch (show recognize? [] = none by decide).symm.trans h
    | cons c rest => exact ⟨c, rest, rfl⟩
  have hblank : Text.isBlank c = false := by
    by_contra hc
    rw [recognize?_of_blank (by simpa using hc)] at h
    cases h
  have hcomment := comment_eq_zero h
  have hcomment' := comment_append hcomment (List.cons_ne_nil c rest) hds hopen
  have hquoted : quoted (c :: rest ++ ds) = quoted (c :: rest) := by
    by_cases hc : c = '"'
    · subst hc
      exact quoted_append (quoted_ne_zero h)
    · simp [quoted, hc]
  have hrun : run Text.isBlank (c :: rest ++ ds) = 0 := run_cons_of_neg hblank
  have hkeywords : ∀ w ∈ keywords, w.toList.any Text.isBlank = false := by decide +kernel
  have hfree : ∀ w ∈ freeKeywords, w.toList.any Text.isBlank = false := by decide +kernel
  have hpunctuation : ∀ w ∈ punctuation, w.toList.any Text.isBlank = false := by decide +kernel
  have hoperators : ∀ w ∈ operators, w.toList.any Text.isBlank = false := by decide +kernel
  rw [← h]
  simp only [recognize?, patterns, List.findSome?_cons, List.findSome?_nil,
    reserved_append hkeywords hds, reserved_append hfree hds, hrun, run_cons_of_neg hblank,
    hcomment, hcomment', symbol_append hpunctuation hds, symbol_append hoperators hds,
    number_append hds, hquoted, run_append (fun _ => Text.isWord_of_isBlank) hds]

end Lexeme

end EggLang
