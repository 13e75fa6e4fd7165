import EggLang.Proofs.Scanning
import Mathlib.Data.List.TakeWhile

/-! How tokens are spelled. Each kind of token has its own texts, the first lexeme of a text that
starts with one of them and goes on with a blank is that token, and no other texts are taken for
tokens. -/

namespace EggLang

open Lexeme Pattern

/-- The words that no name is. -/
def reservedWords : List String :=
  ["print", "if", "var", "const", "true", "false", "else", "string", "num", "bool"]

theorem mem_reservedWords_iff {w : String} :
    w ∈ reservedWords ↔ w ∈ keywords ∨ w ∈ freeKeywords := by
  rw [show reservedWords = keywords ++ freeKeywords from rfl, List.mem_append]

/-- The operators, as they are written. -/
def operatorTexts : List String :=
  ["+", "-", "*", "/", "++", "=", "==", "!=", "!", "&", "|", ">", ">=", "<", "<="]

theorem mem_operatorTexts_iff {w : String} : w ∈ operatorTexts ↔ w ∈ operators :=
  (show operatorTexts.Perm operators by decide).mem_iff

/-- The texts that tokens of each kind are written as. -/
inductive Spells : TokenKind → List Char → Prop
  | keyword {w : String} : w ∈ ["print", "if", "var", "const"] → Spells .keyword w.toList
  | freeKeyword {w : String} : w ∈ ["true", "false", "else", "string", "num", "bool"] →
      Spells .freeKeyword w.toList
  | punctuation {w : String} : w ∈ ["(", ")", "[", "]", "\x7b", "\x7d", ";"] →
      Spells .punctuation w.toList
  | operator {w : String} : w ∈ operatorTexts → Spells .operator w.toList
  | whole {digits : List Char} : digits ≠ [] → (∀ c ∈ digits, c.isDigit = true) →
      Spells .number digits
  | fraction {digits fraction : List Char} : (∀ c ∈ digits, c.isDigit = true) →
      fraction ≠ [] → (∀ c ∈ fraction, c.isDigit = true) →
      Spells .number (digits ++ '.' :: fraction)
  | string {inside : List Char} : '"' ∉ inside → Spells .string ('"' :: inside ++ ['"'])
  | identifier {c : Char} {cs : List Char} : (∀ d ∈ c :: cs, Text.isWord d = true) →
      c.isDigit = false → String.ofList (c :: cs) ∉ reservedWords → Spells .identifier (c :: cs)

theorem not_mem_of_spells {inside : List Char} (h : Spells .string ('"' :: inside ++ ['"'])) :
    '"' ∉ inside := by
  generalize hcs : '"' :: inside ++ ['"'] = cs at h
  cases h with
  | string hinside =>
    simp at hcs
    exact hcs ▸ hinside

/-! ### What is taken for a token -/

namespace Pattern

variable {cs : List Char}

/-- A reserved word is matched where it stands by itself. -/
theorem reserved_ne_zero {words : List String} {w : String} (hw : w ∈ words) {rest : List Char}
    (hpos : ∀ w ∈ words, w.toList ≠ []) (hrest : wordEnds rest = true) :
    reserved words (w.toList ++ rest) ≠ 0 := by
  rw [reserved]
  split
  · rename_i w' hw'
    have hne := hpos w' (List.mem_of_find?_eq_some hw')
    simpa using hne
  · rename_i hnone
    have := List.find?_eq_none.mp hnone w hw
    simp [hrest] at this

theorem exists_of_reserved {words : List String} (h : reserved words cs ≠ 0) :
    ∃ w ∈ words, cs.take (reserved words cs) = w.toList := by
  rw [reserved] at h ⊢
  split
  · rename_i w hw
    have hstarts := List.find?_some hw
    rw [Bool.and_eq_true, List.isPrefixOf_iff_prefix] at hstarts
    exact ⟨w, List.mem_of_find?_eq_some hw, (List.prefix_iff_eq_take.mp hstarts.1).symm⟩
  · rename_i hnone
    rw [hnone] at h
    exact absurd rfl h

/-- A reserved word is the whole word that the text starts with. -/
theorem reserved_eq_run {words : List String}
    (hwords : ∀ w ∈ words, w.toList.all Text.isWord = true) (h : reserved words cs ≠ 0) :
    reserved words cs = run Text.isWord cs := by
  rw [reserved] at h ⊢
  split
  · rename_i w hw
    have hstarts := List.find?_some hw
    rw [Bool.and_eq_true, List.isPrefixOf_iff_prefix] at hstarts
    obtain ⟨⟨rest, rfl⟩, hends⟩ := hstarts
    have hall : ∀ c ∈ w.toList, Text.isWord c = true := by
      simpa using hwords w (List.mem_of_find?_eq_some hw)
    have hrest : rest.takeWhile Text.isWord = [] := by
      rw [List.drop_left] at hends
      cases rest with
      | nil => rfl
      | cons c rest => simpa [wordEnds] using hends
    rw [run, List.takeWhile_append_of_pos hall, hrest, List.append_nil]
  · rename_i hnone
    rw [hnone] at h
    exact absurd rfl h

theorem exists_of_symbol {symbols : List String} (h : symbol symbols cs ≠ 0) :
    ∃ w ∈ symbols, cs.take (symbol symbols cs) = w.toList := by
  rw [symbol] at h ⊢
  split
  · rename_i w hw
    have hstarts := List.find?_some hw
    rw [List.isPrefixOf_iff_prefix] at hstarts
    exact ⟨w, List.mem_of_find?_eq_some hw, (List.prefix_iff_eq_take.mp hstarts).symm⟩
  · rename_i hnone
    rw [hnone] at h
    exact absurd rfl h

theorem spells_of_number (h : number cs ≠ 0) : Spells .number (cs.take (number cs)) := by
  obtain ⟨digits, rest, rfl, hrun, hdigits, hrest⟩ := exists_run Char.isDigit cs
  rw [number, hrun, List.drop_left] at h ⊢
  split at h
  · rename_i tail
    obtain ⟨fraction, behind, rfl, hrun', hfraction, -⟩ := exists_run Char.isDigit tail
    dsimp only at h ⊢
    rw [hrun'] at h ⊢
    split at h
    · rename_i hnone
      rw [if_pos hnone, List.take_left]
      exact .whole (by simpa using h) hdigits
    · rename_i hsome
      have htake : (digits ++ '.' :: (fraction ++ behind)).take
          (digits.length + 1 + fraction.length) = digits ++ '.' :: fraction := by
        rw [← List.cons_append, ← List.append_assoc]
        exact List.take_left' (by simp; omega)
      rw [if_neg hsome, htake]
      exact .fraction hdigits (by simpa using hsome) hfraction
  · rw [List.take_left]
    exact .whole (by simpa using h) hdigits

theorem number_ne_zero_of_digit {c : Char} (hc : c.isDigit = true) : number (c :: cs) ≠ 0 := by
  have hrun : run Char.isDigit (c :: cs) ≠ 0 := by
    rw [run, List.takeWhile_cons_of_pos hc]
    simp
  rw [number]
  split
  · dsimp only
    split <;> omega
  · exact hrun

/-! ### What texts are matched by -/

/-- A word is reserved only as a whole. -/
theorem reserved_of_word {words : List String} (hword : ∀ c ∈ cs, Text.isWord c = true)
    (h : String.ofList cs ∉ words) : reserved words cs = 0 := by
  have hfind : words.find? (fun w => w.toList.isPrefixOf cs &&
      wordEnds (cs.drop w.toList.length)) = none := by
    refine List.find?_eq_none.mpr fun w hw hstarts => ?_
    rw [Bool.and_eq_true, List.isPrefixOf_iff_prefix] at hstarts
    obtain ⟨⟨rest, rfl⟩, hends⟩ := hstarts
    rw [List.drop_left] at hends
    cases rest with
    | nil => exact h (by simpa using hw)
    | cons c rest => simp [wordEnds, hword c (by simp)] at hends
  rw [reserved, hfind]

theorem run_of_forall {p : Char → Bool} (h : ∀ c ∈ cs, p c = true) : run p cs = cs.length := by
  rw [run, List.takeWhile_eq_self_iff.mpr h]

theorem number_of_digits (h : ∀ c ∈ cs, c.isDigit = true) : number cs = cs.length := by
  have hrun : run Char.isDigit cs = cs.length := run_of_forall h
  rw [number, hrun, List.drop_length]

theorem number_of_fraction {fraction : List Char} (h : ∀ c ∈ cs, c.isDigit = true)
    (hne : fraction ≠ []) (hfraction : ∀ c ∈ fraction, c.isDigit = true) :
    number (cs ++ '.' :: fraction) = (cs ++ '.' :: fraction).length := by
  have hwhole : run Char.isDigit (cs ++ '.' :: fraction) = cs.length := by
    rw [run, List.takeWhile_append_of_pos h, List.takeWhile_cons_of_neg (by decide),
      List.append_nil]
  have hrun : run Char.isDigit fraction = fraction.length := run_of_forall hfraction
  have hpos : fraction.length ≠ 0 := by simpa using hne
  simp only [number, hwhole, List.drop_left, hrun, if_neg hpos, List.length_append,
    List.length_cons]
  omega

end Pattern

namespace Lexeme

variable {cs : List Char}

/-- A text that starts with an identifier starts with nothing that is tried before. -/
theorem no_other_of_identifier {n : Nat} (h : recognize? cs = some (.token .identifier, n)) :
    reserved keywords cs = 0 ∧ reserved freeKeywords cs = 0 ∧ number cs = 0 := by
  have hkeywords : reserved keywords cs = 0 := by
    by_contra hne
    simp [recognize?, patterns, hne] at h
  have hfree : reserved freeKeywords cs = 0 := by
    by_contra hne
    simp [recognize?, patterns, hkeywords, hne] at h
  have hnumber : number cs = 0 := by
    by_contra hne
    simp only [recognize?, patterns, List.findSome?_cons, hkeywords, hfree, hne] at h
    grind
  exact ⟨hkeywords, hfree, hnumber⟩

theorem spells_of_recognize? {kind : TokenKind} {n : Nat}
    (h : recognize? cs = some (.token kind, n)) : Spells kind (cs.take n) := by
  obtain ⟨pattern, hmem, rfl, hn⟩ := exists_pattern h
  simp only [patterns, List.mem_cons, Prod.mk.injEq, Lexeme.token.injEq, reduceCtorEq, false_and,
    false_or, List.not_mem_nil, or_false] at hmem
  rcases hmem with ⟨rfl, rfl⟩ | ⟨rfl, rfl⟩ | ⟨rfl, rfl⟩ | ⟨rfl, rfl⟩ | ⟨rfl, rfl⟩ | ⟨rfl, rfl⟩ |
    ⟨rfl, rfl⟩
  · obtain ⟨w, hw, heq⟩ := exists_of_reserved hn
    exact heq ▸ .keyword hw
  · obtain ⟨w, hw, heq⟩ := exists_of_reserved hn
    exact heq ▸ .freeKeyword hw
  · obtain ⟨w, hw, heq⟩ := exists_of_symbol hn
    exact heq ▸ .punctuation hw
  · obtain ⟨w, hw, heq⟩ := exists_of_symbol hn
    exact heq ▸ .operator (mem_operatorTexts_iff.mpr hw)
  · exact spells_of_number hn
  · obtain ⟨inside, rest, rfl, hlength, hinside⟩ := exists_quoted hn
    rw [hlength, List.take_left' (by simp)]
    exact .string hinside
  · obtain ⟨hkeywords, hfree, hnumber⟩ := no_other_of_identifier h
    obtain ⟨word, rest, rfl, hrun, hword, hrest⟩ := exists_run Text.isWord cs
    rw [hrun, List.take_left]
    rw [hrun] at hn
    have hends : wordEnds rest = true := by
      cases rest with
      | nil => rfl
      | cons d rest => simpa [wordEnds] using hrest d rfl
    cases word with
    | nil => exact absurd rfl hn
    | cons c word =>
      refine .identifier hword ?_ fun hreserved => ?_
      · by_contra hdigit
        exact number_ne_zero_of_digit (by simpa using hdigit) hnumber
      · rcases mem_reservedWords_iff.mp hreserved with hmem | hmem
        · refine reserved_ne_zero hmem (by decide) hends ?_
          rwa [String.toList_ofList]
        · refine reserved_ne_zero hmem (by decide) hends ?_
          rwa [String.toList_ofList]

/-! ### What is taken for a token again -/

/-- The words that are listed are taken for what they are listed as. -/
theorem recognize?_listed :
    (∀ w ∈ keywords, recognize? w.toList = some (.token .keyword, w.toList.length)) ∧
    (∀ w ∈ freeKeywords, recognize? w.toList = some (.token .freeKeyword, w.toList.length)) ∧
    (∀ w ∈ punctuation, recognize? w.toList = some (.token .punctuation, w.toList.length)) ∧
    ∀ w ∈ operators, recognize? w.toList = some (.token .operator, w.toList.length) := by
  decide +kernel

/-- A text that starts with a digit or a point starts with a number, if with any lexeme. -/
theorem recognize?_of_number {c : Char} (hc : c.isDigit = true ∨ c = '.')
    (h : number (c :: cs) ≠ 0) :
    recognize? (c :: cs) = some (.token .number, number (c :: cs)) := by
  have hwords : ∀ w ∈ keywords ++ freeKeywords ++ punctuation ++ operators,
      w.toList.head?.any (fun d => !(d.isDigit || d == '.')) = true := by decide +kernel
  have hhead := head_ne (c := c) hwords (by
    simpa [← Bool.not_eq_true, or_iff_not_imp_left] using hc)
  simp only [List.forall_mem_append] at hhead
  have hslash : c ≠ '/' := by
    rintro rfl
    simp at hc
  have hblank : Text.isBlank c = false := by
    by_contra hblank
    rcases hc with hc | rfl
    · simp [Text.isDigit_of_isBlank (by simpa using hblank)] at hc
    · exact hblank (by decide)
  simp [recognize?, patterns, reserved_eq_zero_of_head hhead.1.1.1,
    reserved_eq_zero_of_head hhead.1.1.2, symbol_eq_zero hhead.1.2, symbol_eq_zero hhead.2,
    run_cons_of_neg hblank, comment_eq_zero_of_head hslash, h]

/-- A text that starts with a letter starts with a word, which is reserved or not. -/
theorem recognize?_of_letter {c : Char} (hc : Text.isWord c = true) (hdigit : c.isDigit = false) :
    recognize? (c :: cs) = some
      (if reserved keywords (c :: cs) ≠ 0 then (.token .keyword, reserved keywords (c :: cs))
      else if reserved freeKeywords (c :: cs) ≠ 0 then
        (.token .freeKeyword, reserved freeKeywords (c :: cs))
      else (.token .identifier, run Text.isWord (c :: cs))) := by
  have hne : ∀ d, Text.isWord d = false → c ≠ d := fun d hd hcd => by simp [hcd, hd] at hc
  have hblank : Text.isBlank c = false := by
    by_contra hblank
    simp [Text.isWord_of_isBlank (by simpa using hblank)] at hc
  have hsymbols : ∀ w ∈ punctuation ++ operators,
      w.toList.head?.any (fun d => !Text.isWord d) = true := by decide +kernel
  have hhead := head_ne (c := c) hsymbols (by simpa using hc)
  simp only [List.forall_mem_append] at hhead
  have hnumber : number (c :: cs) = 0 := by
    simp [number, run_cons_of_neg hdigit, hne '.' (by decide +kernel)]
  have hquoted : quoted (c :: cs) = 0 := by
    simp [quoted, hne '"' (by decide +kernel)]
  have hrun : run Text.isWord (c :: cs) ≠ 0 := by
    rw [run, List.takeWhile_cons_of_pos hc]
    simp
  simp only [recognize?, patterns, List.findSome?_cons, run_cons_of_neg hblank,
    comment_eq_zero_of_head (hne '/' (by decide +kernel)), symbol_eq_zero hhead.1,
    symbol_eq_zero hhead.2, hnumber, hquoted, hrun, ↓reduceIte]
  by_cases hkeyword : reserved keywords (c :: cs) = 0
  · by_cases hfree : reserved freeKeywords (c :: cs) = 0 <;> simp [hkeyword, hfree]
  · simp [hkeyword]

theorem recognize?_of_word {c : Char} (hword : ∀ d ∈ c :: cs, Text.isWord d = true)
    (hdigit : c.isDigit = false) (hname : String.ofList (c :: cs) ∉ reservedWords) :
    recognize? (c :: cs) = some (.token .identifier, (c :: cs).length) := by
  obtain ⟨hkeywords, hfree⟩ := not_or.mp (mt mem_reservedWords_iff.mpr hname)
  have hrun : run Text.isWord (c :: cs) = (c :: cs).length := run_of_forall hword
  rw [recognize?_of_letter (hword c List.mem_cons_self) hdigit, reserved_of_word hword hkeywords,
    reserved_of_word hword hfree, hrun]
  rfl

theorem recognize?_of_spells {kind : TokenKind} {w : List Char} (h : Spells kind w) :
    recognize? w = some (.token kind, w.length) := by
  cases h with
  | keyword hw => exact recognize?_listed.1 _ hw
  | freeKeyword hw => exact recognize?_listed.2.1 _ hw
  | punctuation hw => exact recognize?_listed.2.2.1 _ hw
  | operator hw => exact recognize?_listed.2.2.2 _ (mem_operatorTexts_iff.mp hw)
  | whole hne hdigits =>
    have hnumber := number_of_digits hdigits
    obtain ⟨c, digits, rfl⟩ := List.exists_cons_of_ne_nil hne
    rw [recognize?_of_number (.inl (hdigits c List.mem_cons_self)) (by simp [hnumber]), hnumber]
  | @fraction digits fraction hdigits hne hfraction =>
    have hnumber := number_of_fraction hdigits hne hfraction
    have hpos : number (digits ++ '.' :: fraction) ≠ 0 := by simp [hnumber]
    rw [← hnumber]
    cases digits with
    | nil => exact recognize?_of_number (.inr rfl) hpos
    | cons c digits => exact recognize?_of_number (.inl (hdigits c List.mem_cons_self)) hpos
  | @string inside hinside =>
    have hquoted := quoted_of_closed hinside []
    rw [List.append_nil, List.cons_append] at hquoted
    rw [List.cons_append, recognize?_of_quote, hquoted, if_neg (by omega)]
    simp
  | identifier hword hdigit hname => exact recognize?_of_word hword hdigit hname

/-- What spells a token is taken for it in front of a blank. -/
theorem recognize?_of_spells_append {kind : TokenKind} {w ds : List Char} (h : Spells kind w)
    (hds : StartsBlank ds) : recognize? (w ++ ds) = some (.token kind, w.length) := by
  have hw := recognize?_of_spells h
  refine recognize?_append hw hds fun inside hinside => ?_
  rw [hinside] at hw
  have hlength := (recognize?_of_open hw).2
  simp at hlength

end Lexeme

/-! ### Tokens -/

/-- The token is written as its kind asks. -/
def Token.Spelled (t : Token) : Prop := Spells t.kind t.written.toList

theorem Token.tokenText_written (t : Token) : tokenText t.kind t.written.toList = t.text := by
  rw [written]
  split
  · rename_i h
    rw [h, ← String.toList_inj]
    simp [tokenText]
  · rename_i h
    obtain ⟨kind, text, span⟩ := t
    cases kind with
    | string => exact absurd rfl h
    | _ => exact String.ofList_toList

theorem Token.Spelled.kind_ne {t : Token} (h : t.Spelled) : t.kind ≠ .endOfFile := by
  intro hkind
  rw [Spelled, hkind] at h
  nomatch h

theorem Token.Spelled.not_mem_text {t : Token} (h : t.Spelled) (hkind : t.kind = .string) :
    '"' ∉ t.text.toList := by
  rw [Spelled, written, if_pos hkind, hkind] at h
  exact not_mem_of_spells (by simpa using h)

namespace Source

theorem spelled_of_next {s after : Source} {t : Token} (h : s.next = (.ok t, after))
    (hkind : t.kind ≠ .endOfFile) : t.Spelled := by
  obtain ⟨gap, cs, kind, n, -, -, hr, hnext⟩ := exists_lexeme_of_next h hkind
  rw [next_of_token (s := ⟨s.position.advance gap, cs⟩) hr] at hnext
  cases hnext
  rw [Token.Spelled, written_of_recognize? _ hr, String.toList_ofList]
  exact spells_of_recognize? hr

theorem spelled_of_tokens {s : Source} {ts : List Token} (h : s.tokens = .ok ts) :
    ∀ t ∈ ts, t.kind ≠ .endOfFile → t.Spelled := by
  fun_induction tokens s generalizing ts with
  | case1 => cases h
  | case2 s t after hnext hkind =>
    cases h
    intro u hu hne
    rw [List.mem_singleton] at hu
    exact absurd (hu ▸ hkind) hne
  | case3 s t after hnext hkind ih =>
    obtain ⟨us, hus, rfl⟩ := exists_of_map_eq_ok h
    exact List.forall_mem_cons.mpr ⟨fun _ => spelled_of_next hnext hkind, ih hus⟩

/-- A token that is written before a blank is read off again. -/
theorem tokens_of_written {t : Token} (h : t.Spelled) {rest : List Char}
    (hrest : StartsBlank rest) (p : Position) :
    ∃ q, tokens ⟨p, t.written.toList ++ rest⟩ =
      (tokens ⟨q, rest⟩).map (⟨t.kind, t.text, ⟨p, q⟩⟩ :: ·) := by
  have hr : recognize? (Source.rest ⟨p, t.written.toList ++ rest⟩) =
      some (.token t.kind, t.written.toList.length) := recognize?_of_spells_append h hrest
  have hnext := next_of_token hr
  rw [skip, List.take_left, List.drop_left, t.tokenText_written] at hnext
  exact ⟨_, tokens_of_next hnext h.kind_ne⟩

end Source

end EggLang
