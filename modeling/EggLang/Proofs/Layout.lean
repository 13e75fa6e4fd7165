import EggLang.Proofs.Lexeme
import EggLang.Proofs.Position
import EggLang.Source

/-! How the tokens of a text lie in it. Between them stand gaps, and together they make up the text,
so that each of its bytes belongs to one token or to one gap. -/

namespace EggLang

theorem exists_of_map_eq_ok {ε α β : Type} {f : α → β} {x : Except ε α} {b : β}
    (h : x.map f = .ok b) : ∃ a, x = .ok a ∧ f a = b := by
  cases x with
  | ok a =>
    cases h
    exact ⟨a, rfl, rfl⟩
  | error e => cases h

namespace Source

/-- The next token of a source and the source behind it. -/
inductive Reads : Source → Token → Source → Prop
  | last {p : Position} {gap : List Char} : Gap gap [] →
      Reads ⟨p, gap⟩ (.endOfFile (p.advance gap)) ⟨p.advance gap, []⟩
  | token {p : Position} {gap word rest : List Char} {t : Token} : Gap gap (word ++ rest) →
      word ≠ [] → t.kind ≠ .endOfFile → t.written = String.ofList word →
      t.span = ⟨p.advance gap, p.advance (gap ++ word)⟩ →
      Reads ⟨p, gap ++ word ++ rest⟩ t ⟨p.advance (gap ++ word), rest⟩

/-- A token stays the next one behind more of a gap. -/
theorem Reads.behind {p : Position} {cs rest : List Char} {t : Token} {after : Source}
    (h : Reads ⟨p.advance cs, rest⟩ t after)
    (hcs : ∀ gap behind, rest = gap ++ behind → Gap gap behind → Gap (cs ++ gap) behind) :
    Reads ⟨p, cs ++ rest⟩ t after := by
  cases h with
  | last hgap =>
    rw [← Position.advance_append]
    exact .last (hcs _ _ (List.append_nil _).symm hgap)
  | token hgap hword hkind hwritten hspan =>
    rw [← Position.advance_append, ← Position.advance_append, ← List.append_assoc] at hspan
    rw [← Position.advance_append, ← List.append_assoc, ← List.append_assoc]
    exact .token (hcs _ _ (List.append_assoc _ _ _) hgap) hword hkind hwritten hspan

theorem next_of_nil {s : Source} (h : s.rest = []) : s.next = (.ok (.endOfFile s.position), s) := by
  obtain ⟨p, cs⟩ := s
  obtain rfl : cs = [] := h
  rw [next]

theorem next_of_recognized {s : Source} {lexeme : Lexeme} {n : Nat}
    (h : Lexeme.recognize? s.rest = some (lexeme, n)) :
    s.next = match lexeme with
      | .token kind => (.ok ⟨kind, Lexeme.tokenText kind (s.rest.take n),
          ⟨s.position, (s.skip n).position⟩⟩, s.skip n)
      | .blank | .comment => (s.skip n).next := by
  fun_cases next s with
  | case1 hs =>
    rw [hs] at h
    exact nomatch h
  | case2 c cs hs hr => exact nomatch h.symm.trans hr
  | case3 c cs hs kind n' hr | case4 c cs hs n' hr | case5 c cs hs n' hr =>
    cases h.symm.trans hr
    rfl

theorem next_of_token {s : Source} {kind : TokenKind} {n : Nat}
    (h : Lexeme.recognize? s.rest = some (.token kind, n)) :
    s.next = (.ok ⟨kind, Lexeme.tokenText kind (s.rest.take n), ⟨s.position, (s.skip n).position⟩⟩,
      s.skip n) :=
  next_of_recognized h

theorem next_of_gap {s : Source} {lexeme : Lexeme} {n : Nat}
    (h : Lexeme.recognize? s.rest = some (lexeme, n)) (hl : lexeme = .blank ∨ lexeme = .comment) :
    s.next = (s.skip n).next := by
  rcases hl with rfl | rfl
  · exact next_of_recognized h
  · exact next_of_recognized h

theorem tokens_of_last {s after : Source} {t : Token} (h : s.next = (.ok t, after))
    (hkind : t.kind = .endOfFile) : s.tokens = .ok [t] := by
  fun_cases tokens s with
  | case1 e after' hnext => exact nomatch h.symm.trans hnext
  | case2 t' after' hnext hk =>
    cases h.symm.trans hnext
    rfl
  | case3 t' after' hnext hk =>
    cases h.symm.trans hnext
    exact absurd hkind hk

theorem tokens_of_next {s after : Source} {t : Token} (h : s.next = (.ok t, after))
    (hkind : t.kind ≠ .endOfFile) : s.tokens = after.tokens.map (t :: ·) := by
  fun_cases tokens s with
  | case1 e after' hnext => exact nomatch h.symm.trans hnext
  | case2 t' after' hnext hk =>
    cases h.symm.trans hnext
    exact absurd hk hkind
  | case3 t' after' hnext hk =>
    cases h.symm.trans hnext
    rfl

theorem reads_of_next {s after : Source} {t : Token} (h : s.next = (.ok t, after)) :
    s.Reads t after := by
  fun_induction next s with
  | case1 s hs =>
    obtain ⟨p, cs⟩ := s
    cases h
    cases hs
    exact .last .nil
  | case2 => cases h
  | case3 s c cs hs kind n hr text =>
    cases h
    have hword : s.rest.take n ≠ [] := by
      have hn := Lexeme.recognize?_pos hr
      rw [hs, Ne, List.take_eq_nil_iff]
      rintro (rfl | hnil)
      · omega
      · cases hnil
    have hread : Reads ⟨s.position, [] ++ s.rest.take n ++ s.rest.drop n⟩ _ _ :=
      .token .nil hword (Lexeme.kind_of_recognize? hr) (Lexeme.written_of_recognize? _ hr) rfl
    rwa [List.nil_append, List.take_append_drop] at hread
  | case4 s c cs hs n hr ih =>
    have hread := (ih h).behind fun gap behind _ hgap => hgap.blanks (Lexeme.gap_of_blank hr)
    rwa [List.take_append_drop] at hread
  | case5 s c cs hs n hr ih =>
    have hread := (ih h).behind fun gap behind hrest hgap =>
      .comment (hrest ▸ Lexeme.comment_of_recognize? hr) hgap
    rwa [List.take_append_drop] at hread

end Source

/-- The tokens of `text`, where `before` stands before it. -/
inductive Layout : List Char → List Token → List Char → Prop
  | last {before gap : List Char} : Gap gap [] →
      Layout before [.endOfFile (.behind (before ++ gap))] gap
  | token {before gap word rest : List Char} {t : Token} {ts : List Token} :
      Gap gap (word ++ rest) → word ≠ [] → t.kind ≠ .endOfFile →
      t.written = String.ofList word →
      t.span = ⟨.behind (before ++ gap), .behind (before ++ gap ++ word)⟩ →
      Layout (before ++ gap ++ word) ts rest → Layout before (t :: ts) (gap ++ word ++ rest)

theorem Source.layout_of_tokens {s : Source} {ts : List Token} {before : List Char}
    (hs : s.position = .behind before) (h : s.tokens = .ok ts) : Layout before ts s.rest := by
  fun_induction tokens s generalizing ts before with
  | case1 => exact nomatch h
  | case2 s t after hnext hkind =>
    obtain ⟨p, cs⟩ := s
    obtain rfl : p = .behind before := hs
    cases h
    cases reads_of_next hnext with
    | last hgap =>
      rw [Position.advance_behind]
      exact .last hgap
    | token _ _ hkind' => exact absurd hkind hkind'
  | case3 s t after hnext hkind ih =>
    obtain ⟨p, cs⟩ := s
    obtain rfl : p = .behind before := hs
    obtain ⟨us, htokens, rfl⟩ := exists_of_map_eq_ok h
    cases reads_of_next hnext with
    | last => exact absurd rfl hkind
    | token hgap hword hkind' hwritten hspan =>
      rw [Position.advance_behind, Position.advance_behind, ← List.append_assoc] at hspan
      exact .token hgap hword hkind' hwritten hspan
        (ih (by rw [Position.advance_behind, List.append_assoc]) htokens)

namespace Layout

variable {before text : List Char} {ts : List Token}

/-- The last token, and no other, is at the end of the text. -/
theorem exists_init (h : Layout before ts text) :
    ∃ init, ts = init ++ [.endOfFile (.behind (before ++ text))] ∧
      ∀ t ∈ init, t.kind ≠ .endOfFile := by
  induction h with
  | last _ => exact ⟨[], rfl, by simp⟩
  | token _ _ hkind _ _ _ ih =>
    obtain ⟨init, rfl, hinit⟩ := ih
    refine ⟨_ :: init, ?_, List.forall_mem_cons.mpr ⟨hkind, hinit⟩⟩
    simp [List.append_assoc]

/-- Where a token of the text stands. -/
theorem exists_word (h : Layout before ts text) {t : Token} (ht : t ∈ ts)
    (hkind : t.kind ≠ .endOfFile) :
    ∃ front word rest, before ++ text = front ++ word ++ rest ∧ word ≠ [] ∧
      t.written = String.ofList word ∧ t.span = ⟨.behind front, .behind (front ++ word)⟩ := by
  induction h with
  | last _ =>
    rw [List.mem_singleton] at ht
    rw [ht] at hkind
    exact absurd rfl hkind
  | @token before gap word rest u us _ hword _ hwritten hspan _ ih =>
    rcases List.mem_cons.mp ht with rfl | ht
    · exact ⟨before ++ gap, word, rest, by simp, hword, hwritten, hspan⟩
    · obtain ⟨front, word', rest', htext, h⟩ := ih ht
      refine ⟨front, word', rest', ?_, h⟩
      rw [← htext]
      simp

theorem offset_le (h : Layout before ts text) {t : Token} (ht : t ∈ ts) :
    (Position.behind before).offset ≤ t.span.start.offset := by
  induction h with
  | @last before gap _ =>
    obtain rfl := List.mem_singleton.mp ht
    show _ ≤ (Position.behind (before ++ gap)).offset
    have := Position.offset_behind_append before gap
    omega
  | @token before gap word rest u us _ _ _ _ hspan _ ih =>
    have hgap := Position.offset_behind_append before gap
    rcases List.mem_cons.mp ht with rfl | ht
    · rw [hspan]
      show _ ≤ (Position.behind (before ++ gap)).offset
      omega
    · have hword := Position.offset_behind_append (before ++ gap) word
      have hle := ih ht
      omega

/-- Tokens stand one behind the other. -/
theorem pairwise (h : Layout before ts text) :
    ts.Pairwise fun t u => t.span.stop.offset ≤ u.span.start.offset := by
  induction h with
  | last _ => exact List.pairwise_singleton _ _
  | token _ _ _ _ hspan hrest ih =>
    refine List.pairwise_cons.mpr ⟨fun u hu => ?_, ih⟩
    rw [hspan]
    exact hrest.offset_le hu

end Layout

/-- The tokens of a text are laid out in it without a byte lost or read twice. -/
theorem layout_of_tokenize {text : String} {ts : List Token} (h : tokenize text = .ok ts) :
    Layout [] ts text.toList ∧
    (∃ init, ts = init ++ [.endOfFile (.behind text.toList)] ∧ ∀ t ∈ init, t.kind ≠ .endOfFile ∧
      t.span.start.offset < t.span.stop.offset ∧
      text.toUTF8.extract t.span.start.offset t.span.stop.offset = t.written.toUTF8) ∧
    ts.Pairwise fun t u => t.span.stop.offset ≤ u.span.start.offset := by
  have hlayout : Layout [] ts text.toList := Source.layout_of_tokens Position.behind_nil.symm h
  refine ⟨hlayout, ?_, hlayout.pairwise⟩
  obtain ⟨init, hts, hinit⟩ := hlayout.exists_init
  refine ⟨init, hts, fun t ht => ⟨hinit t ht, ?_⟩⟩
  have hmem : t ∈ ts := by
    rw [hts]
    exact List.mem_append_left _ ht
  obtain ⟨front, word, rest, htext, hword, hwritten, hspan⟩ := hlayout.exists_word hmem (hinit t ht)
  rw [hspan, hwritten]
  exact ⟨Position.offset_lt_of_ne_nil front hword, Position.extract_behind htext⟩

/-- `é//` on a line of its own. -/
theorem layout_of_line :
    tokenize "é//\n" = .ok [⟨.identifier, "é", ⟨⟨0, 1, 1⟩, ⟨2, 1, 2⟩⟩⟩, .endOfFile ⟨5, 2, 1⟩] ∧
    Layout [] [⟨.identifier, "é", ⟨⟨0, 1, 1⟩, ⟨2, 1, 2⟩⟩⟩, .endOfFile ⟨5, 2, 1⟩]
      ['é', '/', '/', '\n'] := by
  have hword : Lexeme.recognize? ['é', '/', '/', '\n'] = some (.token .identifier, 1) := by
    decide +kernel
  have hcomment : Lexeme.recognize? ['/', '/', '\n'] = some (.comment, 2) := by decide +kernel
  have hnewline : Lexeme.recognize? ['\n'] = some (.blank, 1) := by decide +kernel
  have hlast : Source.next ⟨⟨2, 1, 2⟩, ['/', '/', '\n']⟩ =
      (.ok (.endOfFile ⟨5, 2, 1⟩), ⟨⟨5, 2, 1⟩, []⟩) := by
    refine (Source.next_of_gap (s := ⟨⟨2, 1, 2⟩, ['/', '/', '\n']⟩) hcomment (.inr rfl)).trans ?_
    refine (Source.next_of_gap (s := ⟨⟨4, 1, 4⟩, ['\n']⟩) hnewline (.inl rfl)).trans ?_
    exact Source.next_of_nil rfl
  have htokens : tokenize "é//\n" =
      .ok [⟨.identifier, "é", ⟨⟨0, 1, 1⟩, ⟨2, 1, 2⟩⟩⟩, .endOfFile ⟨5, 2, 1⟩] := by
    refine (Source.tokens_of_next (s := ⟨.start, ['é', '/', '/', '\n']⟩)
      (Source.next_of_token hword) (by decide)).trans ?_
    exact congrArg (Except.map _) (Source.tokens_of_last hlast rfl)
  exact ⟨htokens, (layout_of_tokenize htokens).1⟩

end EggLang
