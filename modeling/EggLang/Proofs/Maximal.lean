import EggLang.Proofs.Truncation

/-! Tokens as long as can be. A token is spelled as its kind asks, and the text behind it is none
that it could go on with: no word goes on, no number, and no operator. -/

namespace EggLang

open Lexeme Pattern

/-- A token that is written as `word` does not go on in `rest`. -/
def Maximal (word rest : List Char) : TokenKind → Prop
  | .keyword | .freeKeyword | .identifier => ∀ c ∈ rest.head?, Text.isWord c = false
  | .number => (∀ c ∈ rest.head?, c.isDigit = false) ∧
      ('.' ∉ word → ∀ c behind, rest = '.' :: c :: behind → c.isDigit = false)
  | .operator =>
    (∀ w ∈ operatorTexts, w.toList <+: word ++ rest → w.toList.length ≤ word.length) ∧
      ∀ cs ds, word ++ rest = cs ++ ds → ¬Comment cs ds
  | _ => True

namespace Pattern

variable {cs : List Char}

theorem run_drop (p : Char → Bool) (cs : List Char) :
    ∀ c ∈ (cs.drop (run p cs)).head?, p c = false := by
  obtain ⟨word, rest, rfl, hrun, -, hrest⟩ := exists_run p cs
  rwa [hrun, List.drop_left]

/-- A number without a point takes the point behind it where a digit follows that. -/
theorem maximal_number (cs : List Char) :
    Maximal (cs.take (number cs)) (cs.drop (number cs)) .number := by
  have hwhole := run_drop Char.isDigit cs
  rw [number_eq, List.take_add, ← List.drop_drop]
  generalize cs.drop (run Char.isDigit cs) = rest at hwhole ⊢
  fun_cases fraction rest with
  | case1 rest hnone =>
    rw [List.take_zero, List.append_nil, List.drop_zero]
    refine ⟨hwhole, fun _ c behind hrest => ?_⟩
    obtain rfl := (List.cons.inj hrest).2
    cases hc : c.isDigit with
    | false => rfl
    | true => simp [run, hc] at hnone
  | case2 rest hsome => exact ⟨run_drop Char.isDigit rest, by simp⟩
  | case3 rest hrest =>
    rw [List.take_zero, List.append_nil, List.drop_zero]
    exact ⟨hwhole, fun _ c behind heq => absurd heq (hrest (c :: behind))⟩

/-- Of two symbols that a text starts with, the first one listed is matched. -/
theorem length_le_symbol {symbols : List String}
    (hsymbols : symbols.Pairwise fun u v => ¬u.toList <+: v.toList) {w : String}
    (hw : w ∈ symbols) (hstarts : w.toList <+: cs) : w.toList.length ≤ symbol symbols cs := by
  have hsome : (symbols.find? fun w => w.toList.isPrefixOf cs).isSome := by
    rw [List.find?_isSome]
    exact ⟨w, hw, List.isPrefixOf_iff_prefix.mpr hstarts⟩
  obtain ⟨u, hu⟩ := Option.isSome_iff_exists.mp hsome
  have hlength : symbol symbols cs = u.toList.length := by rw [symbol, hu]
  obtain ⟨hbegins, before, behind, rfl, hbefore⟩ := List.find?_eq_some_iff_append.mp hu
  rw [List.isPrefixOf_iff_prefix] at hbegins
  rw [hlength]
  rw [List.mem_append, List.mem_cons] at hw
  rcases hw with hw | rfl | hw
  · have hnot := hbefore w hw
    rw [Bool.not_eq_true', ← Bool.not_eq_true, List.isPrefixOf_iff_prefix] at hnot
    exact absurd hstarts hnot
  · exact Nat.le_refl _
  · by_contra hlt
    have hpair := (List.pairwise_append.mp hsymbols).2.1
    refine (List.pairwise_cons.mp hpair).1 w hw ?_
    exact List.prefix_of_prefix_length_le hbegins hstarts (by omega)

end Pattern

theorem maximal_of_recognize? {cs : List Char} {kind : TokenKind} {n : Nat}
    (h : recognize? cs = some (.token kind, n)) : Maximal (cs.take n) (cs.drop n) kind := by
  have hwords := words_isWord
  rw [List.forall_mem_append] at hwords
  obtain ⟨pattern, hmem, rfl, hn⟩ := exists_pattern h
  simp only [patterns, List.mem_cons, Prod.mk.injEq, Lexeme.token.injEq, reduceCtorEq, false_and,
    false_or, List.not_mem_nil, or_false] at hmem
  rcases hmem with ⟨rfl, rfl⟩ | ⟨rfl, rfl⟩ | ⟨rfl, rfl⟩ | ⟨rfl, rfl⟩ | ⟨rfl, rfl⟩ | ⟨rfl, rfl⟩ |
    ⟨rfl, rfl⟩
  · rw [reserved_eq_run hwords.1 hn]
    exact run_drop Text.isWord cs
  · rw [reserved_eq_run hwords.2 hn]
    exact run_drop Text.isWord cs
  · trivial
  · refine ⟨fun w hw hstarts => ?_, fun comment rest heq hcomment => ?_⟩
    · rw [List.take_append_drop] at hstarts
      have hle := length_le_symbol (by decide +kernel) (mem_operatorTexts_iff.mp hw) hstarts
      rwa [List.length_take, Nat.min_eq_left (symbol_le operators cs)]
    · rw [List.take_append_drop] at heq
      have hzero := comment_eq_zero h
      rw [heq, comment_of_comment hcomment, List.length_eq_zero_iff] at hzero
      cases hcomment <;> simp at hzero
  · exact maximal_number cs
  · trivial
  · exact run_drop Text.isWord cs

/-- Reading a source has led to each of the tokens on the way. -/
theorem Source.Scans.exists_of_mem {s s' : Source} {ts : List Token} (h : s.Scans ts s') {t : Token}
    (ht : t ∈ ts) : ∃ us m n, s.Scans us m ∧ recognize? m.rest = some (.token t.kind, n) ∧
      t = ⟨t.kind, tokenText t.kind (m.rest.take n), ⟨m.position, (m.skip n).position⟩⟩ := by
  induction h with
  | refl => exact nomatch ht
  | @token s s' ts kind n hr _ ih =>
    rcases List.mem_cons.mp ht with rfl | ht
    · exact ⟨[], s, n, .refl, hr, rfl⟩
    · obtain ⟨us, m, k, hscans, h⟩ := ih ht
      exact ⟨_, m, k, .token hr hscans, h⟩
  | gap hr hlexeme _ ih =>
    obtain ⟨us, m, k, hscans, h⟩ := ih ht
    exact ⟨us, m, k, .gap hr hlexeme hscans, h⟩

theorem Source.exists_scans_of_tokens {s : Source} {ts : List Token} (h : s.tokens = .ok ts) :
    ∃ init s', s.Scans init s' ∧ ts = init ++ [.endOfFile s'.position] := by
  obtain ⟨init, s', hscans, hnone⟩ := s.exists_scans
  rw [hscans.tokens_eq] at h
  cases hrest : s'.rest with
  | nil =>
    rw [tokens_of_last (next_of_nil hrest) rfl] at h
    cases h
    exact ⟨init, s', hscans, rfl⟩
  | cons c rest =>
    rw [tokens.eq_def, next_of_unrecognized hrest hnone] at h
    cases h

/-- Each token of a text is spelled as its kind asks, and does not go on behind its place. -/
theorem tokens_spelled_maximal {text : String} {ts : List Token} (h : tokenize text = .ok ts) :
    ∀ t ∈ ts, t.kind ≠ .endOfFile → ∃ front word rest, text.toList = front ++ word ++ rest ∧
      t.span = ⟨.behind front, .behind (front ++ word)⟩ ∧ t.written = String.ofList word ∧
      Spells t.kind word ∧ Maximal word rest t.kind ∧
      (t.kind = .string → '"' ∉ t.text.toList) := by
  intro t ht hkind
  obtain ⟨init, s, hscans, rfl⟩ := Source.exists_scans_of_tokens h
  have hinit : t ∈ init := by
    rcases List.mem_append.mp ht with hinit | hlast
    · exact hinit
    · rw [List.mem_singleton] at hlast
      exact absurd (by rw [hlast]; rfl) hkind
  obtain ⟨us, m, n, hscans, hr, htoken⟩ := hscans.exists_of_mem hinit
  obtain ⟨front, htext, hposition⟩ := hscans.exists_before
  refine ⟨front, m.rest.take n, m.rest.drop n, ?_, ?_, ?_, spells_of_recognize? hr,
    maximal_of_recognize? hr, ?_⟩
  · rw [List.append_assoc, List.take_append_drop, htext]
  · rw [htoken, Source.skip, hposition, Position.advance_behind]
  · rw [htoken]
    exact written_of_recognize? _ hr
  · exact (Source.spelled_of_tokens h t ht hkind).not_mem_text

/-- A word that only begins with a keyword, and an operator that begins with another one. -/
theorem tokens_spelled_maximal_of_word : ∃ ts, tokenize "ifs==.5" = .ok ts ∧
    ts.map Token.text = ["ifs", "==", ".5", ""] ∧
    ∀ t ∈ ts, t.kind ≠ .endOfFile → ∃ front word rest,
      "ifs==.5".toList = front ++ word ++ rest ∧
      t.span = ⟨.behind front, .behind (front ++ word)⟩ ∧ t.written = String.ofList word ∧
      Spells t.kind word ∧ Maximal word rest t.kind ∧
      (t.kind = .string → '"' ∉ t.text.toList) := by
  have htokens : tokenize "ifs==.5" = .ok
      [⟨.identifier, "ifs", ⟨⟨0, 1, 1⟩, ⟨3, 1, 4⟩⟩⟩, ⟨.operator, "==", ⟨⟨3, 1, 4⟩, ⟨5, 1, 6⟩⟩⟩,
       ⟨.number, ".5", ⟨⟨5, 1, 6⟩, ⟨7, 1, 8⟩⟩⟩, .endOfFile ⟨7, 1, 8⟩] := by decide +kernel
  exact ⟨_, htokens, rfl, tokens_spelled_maximal htokens⟩

end EggLang
