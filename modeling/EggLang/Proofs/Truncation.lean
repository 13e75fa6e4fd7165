import EggLang.Proofs.Spelling

/-! Texts that end early. Lexeme by lexeme, reading leads from place to place in a text. What was
read up to one of these places is what the text up to there reads as by itself, as nothing of the
text behind is needed for it. -/

namespace EggLang

open Lexeme Pattern

/-! ### Patterns -/

theorem find?_congr_of_imp {α : Type} {p q : α → Bool} {l : List α}
    (hqp : ∀ a ∈ l, q a = true → p a = true) (hq : ∀ a ∈ l.find? p, q a = true) :
    l.find? q = l.find? p := by
  induction l with
  | nil => rfl
  | cons a l ih =>
    rw [List.forall_mem_cons] at hqp
    by_cases hp : p a = true
    · rw [List.find?_cons_of_pos hp] at hq ⊢
      rw [List.find?_cons_of_pos (hq a rfl)]
    · rw [List.find?_cons_of_neg hp] at hq ⊢
      rw [List.find?_cons_of_neg (mt hqp.1 hp), ih hqp.2 hq]

theorem Comment.take {word rest : List Char} (h : Comment word rest) (k : Nat) :
    Comment word (rest.take k) := by
  cases h with
  | block hinside => exact .block hinside
  | line hline hhead =>
    refine .line hline fun c hc => hhead c ?_
    cases rest with
    | nil => simp at hc
    | cons d rest =>
      cases k with
      | zero => cases hc
      | succ k => exact hc

namespace Pattern

variable {cs : List Char} {k : Nat}

theorem run_take {p : Char → Bool} (h : run p cs ≤ k) : run p (cs.take k) = run p cs := by
  rw [run, ← List.take_takeWhile, List.take_of_length_le h, run]

theorem symbol_take {symbols : List String} (h : symbol symbols cs ≤ k) :
    symbol symbols (cs.take k) = symbol symbols cs := by
  have hfind : symbols.find? (fun w => w.toList.isPrefixOf (cs.take k)) =
      symbols.find? fun w => w.toList.isPrefixOf cs := by
    refine find?_congr_of_imp (fun w _ hw => ?_) fun w hw => ?_
    · rw [List.isPrefixOf_iff_prefix] at hw ⊢
      exact hw.trans (List.take_prefix k cs)
    · have hstarts := List.find?_some hw
      rw [List.isPrefixOf_iff_prefix] at hstarts ⊢
      rw [symbol, hw] at h
      exact List.prefix_take_iff.mpr ⟨hstarts, h⟩
  rw [symbol, symbol, hfind]

/-- The only word that could be made reserved by ending the text is one that ends there. -/
theorem reserved_take {words : List String} (h : reserved words cs ≤ k)
    (hcut : ∀ w ∈ words, w.toList <+: cs → w.toList.length = k → wordEnds (cs.drop k) = true) :
    reserved words (cs.take k) = reserved words cs := by
  have hdrop : ∀ n < k, wordEnds ((cs.take k).drop n) = wordEnds (cs.drop n) := by
    intro n hn
    rw [List.drop_take]
    obtain ⟨j, hj⟩ : ∃ j, k - n = j + 1 := ⟨k - n - 1, by omega⟩
    rw [hj]
    cases cs.drop n <;> rfl
  have hfind : words.find? (fun w => w.toList.isPrefixOf (cs.take k) &&
      wordEnds ((cs.take k).drop w.toList.length)) =
      words.find? fun w => w.toList.isPrefixOf cs && wordEnds (cs.drop w.toList.length) := by
    refine find?_congr_of_imp (fun w hw hends => ?_) fun w hw => ?_
    · rw [Bool.and_eq_true, List.isPrefixOf_iff_prefix, List.prefix_take_iff] at hends
      obtain ⟨⟨hstarts, hle⟩, hends⟩ := hends
      rw [Bool.and_eq_true, List.isPrefixOf_iff_prefix]
      refine ⟨hstarts, ?_⟩
      rcases Nat.lt_or_eq_of_le hle with hlt | heq
      · rwa [hdrop _ hlt] at hends
      · rw [heq]
        exact hcut w hw hstarts heq
    · have hends := List.find?_some hw
      rw [Bool.and_eq_true, List.isPrefixOf_iff_prefix] at hends ⊢
      have hle : w.toList.length ≤ k := by rwa [reserved, hw] at h
      refine ⟨List.prefix_take_iff.mpr ⟨hends.1, hle⟩, ?_⟩
      rcases Nat.lt_or_eq_of_le hle with hlt | heq
      · rw [hdrop _ hlt]
        exact hends.2
      · rw [heq, List.drop_take_self]
        rfl
  rw [reserved, reserved, hfind]

theorem closing?_append (h : closing? cs ≠ none) (ds : List Char) : closing? (cs ++ ds) ≠ none := by
  rw [ne_eq, closing?_eq_none_iff, not_not] at h ⊢
  exact List.infix_append_of_infix_left h

theorem comment_append_ne_zero (h : comment cs ≠ 0) (ds : List Char) : comment (cs ++ ds) ≠ 0 := by
  rw [comment_ne_zero_iff] at h ⊢
  obtain ⟨rest, rfl⟩ | ⟨rest, rfl, hclosing⟩ := h
  · exact .inl ⟨rest ++ ds, rfl⟩
  · exact .inr ⟨rest ++ ds, rfl, closing?_append hclosing ds⟩

theorem comment_take (h : comment cs ≤ k) : comment (cs.take k) = comment cs := by
  by_cases hzero : comment cs = 0
  · rw [hzero]
    by_contra hne
    refine comment_append_ne_zero hne (cs.drop k) ?_
    rw [List.take_append_drop, hzero]
  · have hword := (comment_take_drop hzero).take (k - comment cs)
    have hlength := comment_of_comment hword
    rwa [← List.take_add, Nat.add_sub_cancel' h, List.length_take,
      Nat.min_eq_left (comment_le cs)] at hlength

/-- A point and the digits after it, if there are any. -/
def fraction : Pattern
  | '.' :: cs => if run Char.isDigit cs = 0 then 0 else run Char.isDigit cs + 1
  | _ => 0

theorem number_eq (cs : List Char) :
    number cs = run Char.isDigit cs + fraction (cs.drop (run Char.isDigit cs)) := by
  rw [number]
  split
  · rename_i rest hrest
    rw [hrest, fraction]
    dsimp only
    split <;> omega
  · rename_i hrest
    rw [fraction]
    · rfl
    · exact hrest

theorem fraction_take (h : fraction cs ≤ k) : fraction (cs.take k) = fraction cs := by
  fun_cases fraction cs with
  | case1 rest hnone =>
    cases k with
    | zero => rfl
    | succ k =>
      have htake : run Char.isDigit (rest.take k) = 0 := by
        rw [run_take (by omega), hnone]
      rw [List.take_succ_cons, fraction, if_pos htake]
  | case2 rest hsome =>
    rw [fraction, if_neg hsome] at h
    obtain ⟨j, rfl⟩ : ∃ j, k = j + 1 := ⟨k - 1, by omega⟩
    rw [List.take_succ_cons, fraction, run_take (by omega), if_neg hsome]
  | case3 cs hcs =>
    cases cs with
    | nil => simp [fraction]
    | cons c rest =>
      have hpoint : c ≠ '.' := by
        rintro rfl
        exact hcs rest rfl
      cases k <;> simp [fraction, hpoint]

theorem number_take (h : number cs ≤ k) : number (cs.take k) = number cs := by
  rw [number_eq] at h
  have hwhole : run Char.isDigit cs ≤ k := by omega
  have hfraction : fraction (cs.drop (run Char.isDigit cs)) ≤ k - run Char.isDigit cs := by omega
  rw [number_eq, number_eq, run_take hwhole, List.drop_take, fraction_take hfraction]

theorem quoted_take (h : quoted cs ≤ k) : quoted (cs.take k) = quoted cs := by
  by_cases hzero : quoted cs = 0
  · rw [hzero]
    by_contra hne
    have happend : quoted (cs.take k ++ cs.drop k) = quoted (cs.take k) := quoted_append hne
    rw [List.take_append_drop, hzero] at happend
    exact hne happend.symm
  · obtain ⟨inside, rest, rfl, hlength, hinside⟩ := exists_quoted hzero
    rw [hlength] at h ⊢
    have hquote : ('"' :: inside ++ ['"']).length ≤ k := by
      simp only [List.length_append, List.length_cons, List.length_nil]
      omega
    rw [List.take_append, List.take_of_length_le hquote, quoted_of_closed hinside]

end Pattern

namespace Lexeme

variable {cs : List Char} {lexeme : Lexeme} {n k : Nat}

theorem words_isWord : ∀ w ∈ keywords ++ freeKeywords, w.toList.all Text.isWord = true := by
  decide +kernel

/-- A word is read up to its end. -/
theorem length_of_letter {c : Char} (hc : Text.isWord c = true) (hdigit : c.isDigit = false)
    (h : recognize? (c :: cs) = some (lexeme, n)) : n = run Text.isWord (c :: cs) := by
  have hwords := words_isWord
  rw [List.forall_mem_append] at hwords
  rw [recognize?_of_letter hc hdigit] at h
  split at h
  · rename_i hkeyword
    cases h
    exact reserved_eq_run hwords.1 hkeyword
  · split at h
    · rename_i hfree
      cases h
      exact reserved_eq_run hwords.2 hfree
    · cases h
      rfl

/-- The text does not go on with a word where a lexeme ends in a reserved word. -/
theorem wordEnds_of_recognize? (h : recognize? cs = some (lexeme, n)) (hn : n ≤ k) {w : String}
    (hw : w ∈ keywords ++ freeKeywords) (hstarts : w.toList <+: cs)
    (hlength : w.toList.length = k) : wordEnds (cs.drop k) = true := by
  obtain ⟨rest, rfl⟩ := hstarts
  have hword : ∀ c ∈ w.toList, Text.isWord c = true := by simpa using words_isWord w hw
  have hhead : w.toList.head?.any (fun c => !c.isDigit) = true :=
    (show ∀ w ∈ keywords ++ freeKeywords, w.toList.head?.any (fun c => !c.isDigit) = true by
      decide) w hw
  have hrun : run Text.isWord (w.toList ++ rest) = k + run Text.isWord rest := by
    rw [run, List.takeWhile_append_of_pos hword, List.length_append, hlength, run]
  have hrest : run Text.isWord rest = 0 := by
    cases hchars : w.toList with
    | nil => simp [hchars] at hhead
    | cons c cs =>
      have hletter : Text.isWord c = true := hword c (by simp [hchars])
      rw [hchars] at h hrun
      have hend : n = run Text.isWord (c :: cs ++ rest) :=
        length_of_letter hletter (by simpa [hchars] using hhead) h
      omega
  rw [← hlength, List.drop_left]
  cases rest with
  | nil => rfl
  | cons c rest =>
    cases hc : Text.isWord c with
    | false => simp [wordEnds, hc]
    | true => simp [run, hc] at hrest

/-- A lexeme is recognized without the text behind it. -/
theorem recognize?_take (h : recognize? cs = some (lexeme, n)) (hn : n ≤ k) :
    recognize? (cs.take k) = some (lexeme, n) := by
  have hcut := fun w hw => wordEnds_of_recognize? h hn (w := w) hw
  simp only [List.mem_append, or_imp, forall_and] at hcut
  have htake : ∀ entry ∈ patterns, entry.2 cs ≤ k → entry.2 (cs.take k) = entry.2 cs := by
    intro entry hentry hle
    simp only [patterns, List.mem_cons, List.not_mem_nil, or_false] at hentry
    rcases hentry with rfl | rfl | rfl | rfl | rfl | rfl | rfl | rfl | rfl
    · exact reserved_take hle hcut.1
    · exact reserved_take hle hcut.2
    · exact run_take hle
    · exact comment_take hle
    · exact symbol_take hle
    · exact symbol_take hle
    · exact number_take hle
    · exact quoted_take hle
    · exact run_take hle
  revert h htake
  rw [recognize?, recognize?]
  generalize patterns = entries
  -- The patterns that are tried before match nothing in the whole text, so nothing in less of it.
  induction entries with
  | nil => simp
  | cons entry entries ih =>
    intro h htake
    rw [List.forall_mem_cons] at htake
    rw [List.findSome?_cons] at h ⊢
    by_cases hzero : entry.2 cs = 0
    · have hzero' : entry.2 (cs.take k) = 0 := by rw [htake.1 (by omega), hzero]
      simp only [hzero, hzero', ↓reduceIte] at h ⊢
      exact ih h htake.2
    · simp only [hzero, ↓reduceIte, Option.some.injEq, Prod.mk.injEq] at h
      obtain ⟨rfl, rfl⟩ := h
      simp only [htake.1 hn, hzero, ↓reduceIte]

end Lexeme

/-! ### Places that reading leads to -/

namespace Source

/-- Reading lexemes leads from the first source to the second, with the tokens `ts` on the way. -/
inductive Scans : Source → List Token → Source → Prop
  | refl {s : Source} : Scans s [] s
  | token {s s' : Source} {ts : List Token} {kind : TokenKind} {n : Nat} :
      recognize? s.rest = some (.token kind, n) → Scans (s.skip n) ts s' →
      Scans s (⟨kind, tokenText kind (s.rest.take n), ⟨s.position, (s.skip n).position⟩⟩ :: ts) s'
  | gap {s s' : Source} {ts : List Token} {lexeme : Lexeme} {n : Nat} :
      recognize? s.rest = some (lexeme, n) → lexeme = .blank ∨ lexeme = .comment →
      Scans (s.skip n) ts s' → Scans s ts s'

theorem text_of_skip {s s' : Source} {n : Nat} {text : List Char}
    (hrest : (s.skip n).rest = text ++ s'.rest)
    (hposition : s'.position = (s.skip n).position.advance text) :
    s.rest = s.rest.take n ++ text ++ s'.rest ∧
      s'.position = s.position.advance (s.rest.take n ++ text) := by
  rw [List.append_assoc, ← hrest, hposition, Position.advance_append, skip, List.take_append_drop]
  exact ⟨rfl, rfl⟩

namespace Scans

variable {s s' : Source} {ts : List Token}

theorem exists_text (h : s.Scans ts s') :
    ∃ text, s.rest = text ++ s'.rest ∧ s'.position = s.position.advance text := by
  induction h with
  | refl => exact ⟨[], rfl, rfl⟩
  | token _ _ ih | gap _ _ _ ih =>
    obtain ⟨text, hrest, hposition⟩ := ih
    exact ⟨_, text_of_skip hrest hposition⟩

/-- The tokens of a source are those on the way to a place and those from there on. -/
theorem tokens_eq (h : s.Scans ts s') : s.tokens = s'.tokens.map (ts ++ ·) := by
  induction h with
  | refl => cases tokens _ <;> rfl
  | @token s s' ts kind n hr _ ih =>
    rw [tokens_of_next (next_of_token hr) (kind_of_recognize? hr), ih]
    cases s'.tokens <;> rfl
  | @gap s s' ts lexeme n hr hlexeme _ ih => rw [tokens_congr (next_of_gap hr hlexeme), ih]

/-- The next lexeme before a place that reading leads to is that of the text up to the place. -/
theorem recognize?_truncate {lexeme : Lexeme} {n : Nat} {text : List Char}
    (h : (s.skip n).Scans ts s') (hr : recognize? s.rest = some (lexeme, n))
    (htext : s.rest = text ++ s'.rest) :
    recognize? text = some (lexeme, n) ∧ (s.skip n).rest = text.drop n ++ s'.rest ∧
      s.rest.take n = text.take n := by
  obtain ⟨behind, hbehind, -⟩ := h.exists_text
  have hn : n ≤ text.length := by
    have hle := recognize?_le hr
    have hrest := congrArg List.length hbehind
    have hlength := congrArg List.length htext
    simp only [skip, List.length_drop, List.length_append] at hrest hlength
    omega
  have htake := recognize?_take hr hn
  rw [htext, List.take_left] at htake
  rw [skip, htext]
  exact ⟨htake, List.drop_append_of_le_length hn, List.take_append_of_le_length hn⟩

/-- What was read so far is read from the text so far. -/
theorem truncate (h : s.Scans ts s') {text : List Char} (htext : s.rest = text ++ s'.rest) :
    Scans ⟨s.position, text⟩ ts ⟨s'.position, []⟩ := by
  induction h generalizing text with
  | refl =>
    obtain rfl : text = [] := by simpa using htext
    exact .refl
  | @token s s' ts kind n hr hscans ih =>
    obtain ⟨hr', hrest, htake⟩ := hscans.recognize?_truncate hr htext
    have hscans' := ih hrest
    rw [htake]
    rw [skip, htake] at hscans' ⊢
    exact .token (s := ⟨s.position, text⟩) hr' hscans'
  | @gap s s' ts lexeme n hr hlexeme hscans ih =>
    obtain ⟨hr', hrest, htake⟩ := hscans.recognize?_truncate hr htext
    have hscans' := ih hrest
    rw [skip, htake] at hscans'
    exact .gap (s := ⟨s.position, text⟩) hr' hlexeme hscans'

/-- At the end of a text nothing is left to read. -/
theorem tokens_of_end {p : Position} (h : s.Scans ts ⟨p, []⟩) :
    s.tokens = .ok (ts ++ [.endOfFile p]) := by
  rw [h.tokens_eq, tokens_of_last (next_of_nil rfl) rfl]
  rfl

/-- What was read so far is all there is in the text so far. -/
theorem tokens_truncate (h : s.Scans ts s') {text : List Char} (htext : s.rest = text ++ s'.rest) :
    tokens ⟨s.position, text⟩ = .ok (ts ++ [.endOfFile s'.position]) :=
  (h.truncate htext).tokens_of_end

end Scans

theorem Scans.exists_before {text : String} {ts : List Token} {s : Source}
    (h : (ofString text).Scans ts s) :
    ∃ before, text.toList = before ++ s.rest ∧ s.position = .behind before := by
  obtain ⟨before, hrest, hposition⟩ := h.exists_text
  refine ⟨before, hrest, ?_⟩
  rw [hposition, ofString, ← Position.behind_nil, Position.advance_behind, List.nil_append]

/-- Reading leads to the end of the text or to where no lexeme starts. -/
theorem exists_scans (s : Source) : ∃ ts s', s.Scans ts s' ∧ recognize? s'.rest = none := by
  induction hlength : s.rest.length using Nat.strongRecOn generalizing s with
  | ind length ih =>
    cases hr : recognize? s.rest with
    | none => exact ⟨[], s, .refl, hr⟩
    | some found =>
      obtain ⟨lexeme, n⟩ := found
      have hlt : (s.skip n).rest.length < length := by
        have hpos := recognize?_pos hr
        have hle := recognize?_le hr
        rw [skip, List.length_drop]
        omega
      obtain ⟨ts, s', hscans, hnone⟩ := ih _ hlt (s.skip n) rfl
      cases lexeme with
      | token kind => exact ⟨_, s', .token hr hscans, hnone⟩
      | blank => exact ⟨ts, s', .gap hr (.inl rfl) hscans, hnone⟩
      | comment => exact ⟨ts, s', .gap hr (.inr rfl) hscans, hnone⟩

end Source

end EggLang
