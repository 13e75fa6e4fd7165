import EggLang.Proofs.Truncation

/-! Where a text is no text of the language. It has no tokens if reading it leads to a character
that no lexeme starts with, which the error names, and what stands before that place has the tokens
that were read. -/

namespace EggLang

open Lexeme Pattern

/-- The characters that operators are made of. -/
def operatorChars : List Char := ['+', '-', '*', '/', '=', '!', '&', '|', '>', '<']

/-- The characters that are punctuation. -/
def punctuationChars : List Char := ['(', ')', '[', ']', '\x7b', '\x7d', ';']

/-- No lexeme can start with the character `c` before `rest`. -/
structure Unreadable (c : Char) (rest : List Char) : Prop where
  word : Text.isWord c = false
  blank : Text.isBlank c = false
  punctuation : c ∉ punctuationChars
  operator : c ∉ operatorChars
  quote : c = '"' → '"' ∉ rest
  point : c = '.' → ∀ d ∈ rest.head?, d.isDigit = false

namespace Pattern

variable {c : Char} {cs rest : List Char}

theorem run_ne_zero {p : Char → Bool} (h : p c = true) : run p (c :: cs) ≠ 0 := by
  rw [run, List.takeWhile_cons_of_pos h]
  simp

theorem symbol_ne_zero {symbols : List String} {w : String} (hw : w ∈ symbols)
    (hpos : ∀ w ∈ symbols, w.toList ≠ []) (h : w.toList <+: cs) : symbol symbols cs ≠ 0 := by
  rw [symbol]
  split
  · rename_i w' hw'
    simpa using hpos w' (List.mem_of_find?_eq_some hw')
  · rename_i hnone
    have := List.find?_eq_none.mp hnone w hw
    rw [List.isPrefixOf_iff_prefix] at this
    exact absurd h this

/-- Symbols of one character match where the text starts with one of them. -/
theorem symbol_of_char {symbols : List String} {chars : List Char}
    (hchars : ∀ d ∈ chars, String.ofList [d] ∈ symbols) (hpos : ∀ w ∈ symbols, w.toList ≠ [])
    (hc : c ∈ chars) : symbol symbols (c :: cs) ≠ 0 :=
  symbol_ne_zero (hchars c hc) hpos (by simp)

theorem fraction_eq_zero_iff :
    fraction (c :: cs) = 0 ↔ (c = '.' → ∀ d ∈ cs.head?, d.isDigit = false) := by
  by_cases hc : c = '.'
  · subst hc
    cases cs with
    | nil => simp [fraction, run]
    | cons d rest => cases hd : d.isDigit <;> simp [fraction, run, hd]
  · simp [fraction, hc]

theorem quoted_eq_zero_iff : quoted (c :: cs) = 0 ↔ (c = '"' → '"' ∉ cs) := by
  by_cases hc : c = '"'
  · subst hc
    constructor
    · rintro hzero - hmem
      obtain ⟨inside, rest, rfl, hinside⟩ := List.eq_append_cons_of_mem hmem
      have hclosed := quoted_of_closed hinside rest
      simp [hzero] at hclosed
    · intro hopen
      by_contra hne
      obtain ⟨inside, rest, heq, -⟩ := exists_quoted hne
      simp only [List.cons_append, List.cons.injEq, true_and] at heq
      exact hopen rfl (by simp [heq])
  · simp [quoted, hc]

end Pattern

theorem Text.isWord_of_isDigit {c : Char} (h : c.isDigit = true) : isWord c = true := by
  rw [Char.isDigit, Bool.and_eq_true, decide_eq_true_eq, decide_eq_true_eq] at h
  have hlow : 48 ≤ c.toNat := UInt32.le_iff_toNat_le.mp h.1
  have hhigh : c.toNat ≤ 57 := UInt32.le_iff_toNat_le.mp h.2
  have hnumber : decimalNumber.contains c.toNat = true := by
    rw [decimalNumber, Ranges.contains]
    simp [hlow, hhigh]
  simp [isWord, hnumber]

theorem recognize?_eq_none_iff {cs : List Char} :
    recognize? cs = none ↔ ∀ entry ∈ patterns, entry.2 cs = 0 := by
  rw [recognize?, List.findSome?_eq_none_iff]
  simp

theorem unreadable_iff {c : Char} {rest : List Char} :
    recognize? (c :: rest) = none ↔ Unreadable c rest := by
  rw [recognize?_eq_none_iff]
  have hpunctuation : ∀ d ∈ punctuationChars, String.ofList [d] ∈ punctuation := by
    simp only [punctuationChars, List.forall_mem_cons, List.not_mem_nil, false_implies,
      implies_true, and_true]
    decide
  have hoperators : ∀ d ∈ operatorChars, String.ofList [d] ∈ operators := by
    simp only [operatorChars, List.forall_mem_cons, List.not_mem_nil, false_implies,
      implies_true, and_true]
    decide
  constructor
  · intro h
    simp only [patterns, List.forall_mem_cons, List.not_mem_nil, false_implies] at h
    obtain ⟨-, -, hblank, -, hsymbol, hoperator, hnumber, hquoted, hword, -⟩ := h
    rw [number_eq] at hnumber
    refine ⟨?_, ?_, ?_, ?_, quoted_eq_zero_iff.mp hquoted, ?_⟩
    · by_contra hc
      exact run_ne_zero (by simpa using hc) hword
    · by_contra hc
      exact run_ne_zero (by simpa using hc) hblank
    · exact fun hc => symbol_of_char hpunctuation (by decide) hc hsymbol
    · exact fun hc => symbol_of_char hoperators (by decide) hc hoperator
    · have hrun : run Char.isDigit (c :: rest) = 0 := by omega
      rw [hrun] at hnumber
      exact fraction_eq_zero_iff.mp (by simpa using hnumber)
  · intro h
    have hdigit : c.isDigit = false := by
      by_contra hdigit
      exact absurd h.word (by simp [Text.isWord_of_isDigit (by simpa using hdigit)])
    have hslash : c ≠ '/' := by
      rintro rfl
      exact h.operator (by decide)
    have hpunctuation' : ∀ w ∈ punctuation, w.toList.head?.any (· != c) = true :=
      head_ne (p := (· ∈ punctuationChars)) (by decide) (by simpa using h.punctuation)
    have hoperators' : ∀ w ∈ operators, w.toList.head?.any (· != c) = true :=
      head_ne (p := (· ∈ operatorChars)) (by decide) (by simpa using h.operator)
    have hnumber : number (c :: rest) = 0 := by
      rw [number_eq, run_cons_of_neg hdigit, List.drop_zero, fraction_eq_zero_iff.mpr h.point]
    simp only [patterns, List.forall_mem_cons, List.not_mem_nil, false_implies, implies_true,
      and_true]
    exact ⟨keywords_eq_zero h.word, freeKeywords_eq_zero h.word, run_cons_of_neg h.blank,
      comment_eq_zero_of_head hslash, symbol_eq_zero hpunctuation', symbol_eq_zero hoperators',
      hnumber, quoted_eq_zero_iff.mpr h.quote, run_cons_of_neg h.word⟩

/-- Reading `text` stops at the character `c`, with `before` in front of it, which is all read as
`ts`, and `rest` behind it. -/
structure Stuck (text : String) (ts : List Token) (before : List Char) (c : Char)
    (rest : List Char) : Prop where
  text_eq : text.toList = before ++ c :: rest
  scans : (Source.ofString text).Scans ts ⟨.behind before, c :: rest⟩
  unreadable : Unreadable c rest

/-- A text has no tokens exactly if reading it leads to a character that no lexeme starts with. That
character and its place are the error, and the text before it has the tokens that were read. -/
theorem tokenize_error_iff_stuck {text : String} :
    (∀ e, tokenize text = .error e ↔
      ∃ ts before c rest, Stuck text ts before c rest ∧ e = ⟨.behind before, c⟩) ∧
    ∀ ts before c rest, Stuck text ts before c rest →
      tokenize (String.ofList before) = .ok (ts ++ [.endOfFile (.behind before)]) := by
  have herror : ∀ ts before c rest, Stuck text ts before c rest →
      tokenize text = .error ⟨.behind before, c⟩ := by
    intro ts before c rest h
    have hnext := Source.next_of_unrecognized (s := ⟨.behind before, c :: rest⟩) rfl
      (unreadable_iff.mpr h.unreadable)
    rw [tokenize, h.scans.tokens_eq, Source.tokens.eq_def, hnext]
    rfl
  refine ⟨fun e => ⟨fun h => ?_, ?_⟩, fun ts before c rest h => ?_⟩
  · obtain ⟨ts, s, hscans, hnone⟩ := (Source.ofString text).exists_scans
    obtain ⟨before, htext, hposition⟩ := hscans.exists_before
    obtain ⟨p, cs⟩ := s
    obtain rfl : p = .behind before := hposition
    cases cs with
    | nil =>
      have hlast := Source.tokens_of_last (s := ⟨.behind before, []⟩) (Source.next_of_nil rfl) rfl
      rw [tokenize, hscans.tokens_eq, hlast] at h
      cases h
    | cons c rest =>
      have hstuck : Stuck text ts before c rest := ⟨htext, hscans, unreadable_iff.mp hnone⟩
      exact ⟨ts, before, c, rest, hstuck, Except.error.inj (h.symm.trans (herror _ _ _ _ hstuck))⟩
  · rintro ⟨ts, before, c, rest, h, rfl⟩
    exact herror ts before c rest h
  · rw [tokenize, Source.ofString, String.toList_ofList]
    exact h.scans.tokens_truncate h.text_eq

/-- A comment that is not closed and a point that no digit follows. The comment does not count as
one, and stands before the place of the error as two operators. -/
theorem tokenize_error_of_point : ∃ ts before rest, Stuck "x=/*\n1.e" ts before '.' rest ∧
    Position.behind before = ⟨6, 2, 2⟩ ∧
    tokenize (String.ofList before) = .ok (ts ++ [.endOfFile (.behind before)]) := by
  have herror : tokenize "x=/*\n1.e" = .error ⟨⟨6, 2, 2⟩, '.'⟩ := by decide +kernel
  obtain ⟨ts, before, c, rest, hstuck, he⟩ := (tokenize_error_iff_stuck.1 _).mp herror
  rw [LexError.mk.injEq] at he
  obtain ⟨hposition, rfl⟩ := he
  exact ⟨ts, before, rest, hstuck, hposition.symm,
    tokenize_error_iff_stuck.2 ts before '.' rest hstuck⟩

end EggLang
