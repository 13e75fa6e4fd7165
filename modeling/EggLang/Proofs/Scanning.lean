import EggLang.Proofs.Bare
import EggLang.Proofs.Layout
import EggLang.Proofs.Recognition
import Mathlib.Data.List.Chain

/-! Sources with more text behind them, and at other places. The tokens of a text stay where more
text follows on a new line, unless a comment that is open in the text is closed in what follows, and
the tokens of the rest are those that it has by itself, at other places. -/

namespace EggLang

open Lexeme Pattern

/-! ### Gaps -/

/-- The text ends or a new line starts. -/
def EndsLine (cs : List Char) : Prop := ∀ c ∈ cs.head?, c = '\n'

theorem EndsLine.startsBlank {cs : List Char} (h : EndsLine cs) : StartsBlank cs := by
  intro c hc
  rw [h c hc]
  decide

/-- What follows a gap is of no account where there is something. -/
theorem Gap.append {gap rest : List Char} (h : Gap gap rest) (hrest : rest ≠ [])
    (tail : List Char) : Gap gap (rest ++ tail) := by
  induction h with
  | nil => exact .nil
  | blank hc _ ih => exact .blank hc (ih hrest)
  | @comment cs ds rest hcs _ ih =>
    refine .comment ?_ (ih hrest)
    rw [← List.append_assoc]
    cases hcs with
    | block hinside => exact .block hinside
    | line hline hhead =>
      refine .line hline ?_
      have hhead' : (ds ++ rest ++ tail).head? = (ds ++ rest).head? := by
        rw [List.head?_append, Option.or_of_isSome (by simp [hrest])]
      rwa [hhead']

/-- A gap at the end of a text goes on with blanks up to the end of the line. -/
theorem Gap.blanks_behind {gap tail ds : List Char} (h : Gap gap [])
    (htail : ∀ c ∈ tail, Text.isBlank c = true) (hline : '\n' ∉ tail) (hds : EndsLine ds) :
    Gap (gap ++ tail) ds := by
  generalize hrest : ([] : List Char) = rest at h
  induction h with
  | nil => simpa using Gap.blanks htail .nil
  | blank hc _ ih => exact .blank hc (ih hrest)
  | @comment cs gap rest hcs hgap ih =>
    subst hrest
    rw [List.append_nil] at hcs
    cases hcs with
    | @block inside _ hinside =>
      rw [List.append_assoc]
      exact .comment (.block hinside) (ih rfl)
    | @line cs _ hcs hhead =>
      cases gap with
      | nil =>
        have hcomment : Comment ('/' :: '/' :: (cs ++ tail)) ([] ++ ds) :=
          .line (by simp [hcs, hline]) hds
        simpa using Gap.comment hcomment .nil
      | cons c gap =>
        rw [List.append_assoc]
        exact .comment (.line hcs hhead) (ih rfl)

/-! ### Where the next token is -/

namespace Source

theorem next_of_blank {p : Position} {c : Char} {cs : List Char} (hc : Text.isBlank c = true) :
    next ⟨p, c :: cs⟩ = next ⟨p.next c, cs⟩ := by
  have hfirst := next_of_gap (s := ⟨p, c :: cs⟩) (recognize?_of_blank hc) (.inl rfl)
  have hrun : run Text.isBlank (c :: cs) = run Text.isBlank cs + 1 := by
    rw [run, List.takeWhile_cons_of_pos hc, List.length_cons, run]
  rw [hfirst, hrun]
  show next ((⟨p.next c, cs⟩ : Source).skip (run Text.isBlank cs)) = _
  cases cs with
  | nil => rfl
  | cons d cs =>
    cases hd : Text.isBlank d with
    | true =>
      exact (next_of_gap (s := ⟨p.next c, d :: cs⟩) (recognize?_of_blank hd) (.inl rfl)).symm
    | false => rw [run_cons_of_neg hd]; rfl

theorem next_of_gap_append {gap rest : List Char} (h : Gap gap rest) (p : Position) :
    next ⟨p, gap ++ rest⟩ = next ⟨p.advance gap, rest⟩ := by
  induction h generalizing p with
  | nil => rfl
  | blank hc _ ih => exact (next_of_blank hc).trans (ih _)
  | @comment cs ds rest hcs _ ih =>
    have hnext := next_of_gap (s := ⟨p, cs ++ (ds ++ rest)⟩) (recognize?_of_comment hcs) (.inr rfl)
    rw [skip, List.take_left, List.drop_left] at hnext
    rw [List.append_assoc, hnext, ih, Position.advance_append]

theorem next_of_unrecognized {s : Source} {c : Char} {cs : List Char} (hs : s.rest = c :: cs)
    (h : recognize? s.rest = none) : s.next = (.error ⟨s.position, c⟩, s) := by
  fun_cases next s with
  | case1 hs' => cases hs.symm.trans hs'
  | case2 c' cs' hs' _ =>
    cases hs.symm.trans hs'
    rfl
  | case3 c' cs' hs' kind n hr => cases h.symm.trans hr
  | case4 c' cs' hs' n hr => cases h.symm.trans hr
  | case5 c' cs' hs' n hr => cases h.symm.trans hr

/-- A token that is not the last one is recognized behind a gap. -/
theorem exists_lexeme_of_next {s after : Source} {t : Token} (h : s.next = (.ok t, after))
    (hkind : t.kind ≠ .endOfFile) :
    ∃ gap cs kind n, s.rest = gap ++ cs ∧ Gap gap cs ∧ recognize? cs = some (.token kind, n) ∧
      (⟨s.position.advance gap, cs⟩ : Source).next = (.ok t, after) := by
  fun_induction next s with
  | case1 s hs =>
    cases h
    exact absurd rfl hkind
  | case2 => cases h
  | case3 s c cs hs kind n hr text =>
    exact ⟨[], s.rest, kind, n, rfl, .nil, hr, (next_of_token hr).trans h⟩
  | case4 s c cs hs n hr ih =>
    obtain ⟨gap, cs', kind, n', hrest, hgap, hr', hnext⟩ := ih h
    refine ⟨s.rest.take n ++ gap, cs', kind, n', ?_, hgap.blanks (gap_of_blank hr), hr', ?_⟩
    · rw [List.append_assoc, ← hrest, skip, List.take_append_drop]
    · rwa [Position.advance_append]
  | case5 s c cs hs n hr ih =>
    obtain ⟨gap, cs', kind, n', hrest, hgap, hr', hnext⟩ := ih h
    refine ⟨s.rest.take n ++ gap, cs', kind, n', ?_, .comment ?_ hgap, hr', ?_⟩
    · rw [List.append_assoc, ← hrest, skip, List.take_append_drop]
    · rw [← hrest]
      exact comment_of_recognize? hr
    · rwa [Position.advance_append]

theorem gap_of_next {s after : Source} {t : Token} (h : s.next = (.ok t, after))
    (hkind : t.kind = .endOfFile) : Gap s.rest [] := by
  cases reads_of_next h with
  | last hgap => exact hgap
  | token _ _ hkind' => exact absurd hkind hkind'

/-! ### More text behind -/

/-- At the end of a text the line goes on with what follows. -/
theorem next_append_of_last {s after : Source} {t : Token} {tail ds : List Char}
    (h : s.next = (.ok t, after)) (hkind : t.kind = .endOfFile)
    (htail : ∀ c ∈ tail, Text.isBlank c = true) (hline : '\n' ∉ tail) (hds : EndsLine ds) :
    next ⟨s.position, s.rest ++ (tail ++ ds)⟩ = next ⟨s.position.advance (s.rest ++ tail), ds⟩ := by
  have hgap := (gap_of_next h hkind).blanks_behind htail hline hds
  rw [← List.append_assoc]
  exact next_of_gap_append hgap s.position

theorem next_append {s after : Source} {t : Token} {ds : List Char} (h : s.next = (.ok t, after))
    (hkind : t.kind ≠ .endOfFile) (hds : StartsBlank ds)
    (hopen : t.is .operator "/" = true → ∀ inside, after.rest = '*' :: inside →
      ¬['*', '/'] <:+: ds) :
    next ⟨s.position, s.rest ++ ds⟩ = (.ok t, ⟨after.position, after.rest ++ ds⟩) := by
  obtain ⟨gap, cs, kind, n, hrest, hgap, hr, hnext⟩ := exists_lexeme_of_next h hkind
  have hcs : cs ≠ [] := by
    rintro rfl
    exact nomatch (show recognize? [] = none by decide).symm.trans hr
  have hle := recognize?_le hr
  have hword : (cs ++ ds).take n = cs.take n := List.take_append_of_le_length hle
  rw [next_of_token (s := ⟨s.position.advance gap, cs⟩) hr] at hnext
  cases hnext
  have hr' : recognize? (cs ++ ds) = some (.token kind, n) := by
    refine recognize?_append hr hds fun inside hinside => ?_
    subst hinside
    obtain ⟨rfl, rfl⟩ := recognize?_of_open hr
    exact hopen rfl inside rfl
  rw [hrest, List.append_assoc, next_of_gap_append (hgap.append hcs ds),
    next_of_token (s := ⟨s.position.advance gap, cs ++ ds⟩) hr', skip, skip, hword,
    List.drop_append_of_le_length hle]

end Source

/-- The tokens are not a `/` and a `*`, which side by side would start a comment. -/
def Token.Apart (t u : Token) : Prop := t.is .operator "/" = true → u.is .operator "*" = false

namespace Source

theorem tokens_congr {s s' : Source} (h : s.next = s'.next) : s.tokens = s'.tokens := by
  rw [tokens.eq_def, tokens.eq_def s', h]

theorem exists_tail_of_tokens {s after : Source} {t : Token} {ts : List Token}
    (h : s.next = (.ok t, after)) (hkind : t.kind ≠ .endOfFile) (hts : s.tokens = .ok ts) :
    ∃ us, after.tokens = .ok us ∧ t :: us = ts := by
  rw [tokens_of_next h hkind] at hts
  exact exists_of_map_eq_ok hts

theorem head?_of_tokens {s after : Source} {t : Token} {ts : List Token}
    (h : s.next = (.ok t, after)) (hts : s.tokens = .ok ts) : ts.head? = some t := by
  by_cases hkind : t.kind = .endOfFile
  · rw [tokens_of_last h hkind] at hts
    cases hts
    rfl
  · obtain ⟨us, -, rfl⟩ := exists_tail_of_tokens h hkind hts
    rfl

theorem ne_nil_of_tokens {s : Source} {ts : List Token} (h : s.tokens = .ok ts) : ts ≠ [] := by
  rintro rfl
  cases hnext : s.next with
  | mk r after =>
    cases r with
    | ok t => exact nomatch head?_of_tokens hnext h
    | error e =>
      rw [tokens.eq_def, hnext] at h
      exact nomatch h

/-- What is taken off a source is the text up to the end of the token. -/
theorem exists_taken_of_next {s after : Source} {t : Token} (h : s.next = (.ok t, after)) :
    ∃ word, s.rest = word ++ after.rest ∧ after.position = s.position.advance word := by
  cases reads_of_next h with
  | @last p gap _ => exact ⟨gap, (List.append_nil gap).symm, rfl⟩
  | @token p gap word rest => exact ⟨gap ++ word, rfl, rfl⟩

/-- Behind a `/` no `*` stands at once, as the next token would be that. -/
theorem rest_ne_star {after : Source} {t : Token} {us : List Token} (hus : after.tokens = .ok us)
    (hts : (t :: us).IsChain Token.Apart) (ht : t.is .operator "/" = true) (inside : List Char) :
    after.rest ≠ '*' :: inside := by
  intro hrest
  have hstar : recognize? after.rest = some (.token .operator, 1) := by
    rw [hrest]
    exact recognize?_of_star
  have hnext := next_of_token hstar
  cases us with
  | nil => exact nomatch head?_of_tokens hnext hus
  | cons u us =>
    have hu := head?_of_tokens hnext hus
    cases hu
    have happart := (List.isChain_cons_cons.mp hts).1 ht
    rw [hrest] at happart
    exact Bool.false_ne_true (happart.symm.trans rfl)

/-- The tokens of a text stay, up to the last one, with more text behind it, where that closes no
comment which is open in the text. -/
theorem tokens_append {s : Source} {ts : List Token} {tail ds : List Char}
    (h : s.tokens = .ok ts) (hts : ts.IsChain Token.Apart ∨ ¬['*', '/'] <:+: tail ++ ds)
    (htail : ∀ c ∈ tail, Text.isBlank c = true) (hline : '\n' ∉ tail) (hds : EndsLine ds) :
    tokens ⟨s.position, s.rest ++ (tail ++ ds)⟩ =
      (tokens ⟨s.position.advance (s.rest ++ tail), ds⟩).map (ts.dropLast ++ ·) := by
  have hblank : StartsBlank (tail ++ ds) := by
    cases tail with
    | nil => exact hds.startsBlank
    | cons c tail =>
      rintro _ ⟨⟩
      exact htail c List.mem_cons_self
  fun_induction tokens s generalizing ts with
  | case1 => cases h
  | case2 s t after hnext hkind =>
    cases h
    rw [tokens_congr (next_append_of_last hnext hkind htail hline hds)]
    cases tokens ⟨s.position.advance (s.rest ++ tail), ds⟩ <;> rfl
  | case3 s t after hnext hkind ih =>
    obtain ⟨us, hus, rfl⟩ := exists_of_map_eq_ok h
    -- A `/` must not become the start of a comment that `ds` closes.
    have hstep := next_append hnext hkind hblank fun ht inside hinside =>
      hts.resolve_left fun hts => rest_ne_star hus hts ht inside hinside
    obtain ⟨word, hword, hposition⟩ := exists_taken_of_next hnext
    have hadvance : after.position.advance (after.rest ++ tail) =
        s.position.advance (s.rest ++ tail) := by
      rw [hword, hposition, List.append_assoc, Position.advance_append s.position]
    rw [tokens_of_next hstep hkind, ih hus (hts.imp_left .tail), hadvance,
      List.dropLast_cons_of_ne_nil (ne_nil_of_tokens hus)]
    cases tokens ⟨s.position.advance (s.rest ++ tail), ds⟩ <;> rfl

/-! ### Other places -/

/-- The source at a place moved on by `d`. -/
def move (d : Position) (s : Source) : Source := ⟨d.move s.position, s.rest⟩

end Source

def LexError.move (d : Position) (e : LexError) : LexError := ⟨d.move e.position, e.character⟩

namespace Source

/-- What comes of a source, where the places in it are moved on by `d` as `f` does. -/
def moved {α : Type} (d : Position) (f : α → α) : Except LexError α → Except LexError α
  | .ok a => .ok (f a)
  | .error e => .error (e.move d)

theorem skip_move {d : Position} {s : Source} (h : d.column = 0 ∨ '\n' ∉ s.rest) (n : Nat) :
    (s.move d).skip n = (s.skip n).move d := by
  have htake : d.column = 0 ∨ '\n' ∉ s.rest.take n :=
    h.imp_right fun h hmem => h (List.mem_of_mem_take hmem)
  rw [skip, skip, move, move, Position.move_advance htake]

theorem next_move {d : Position} {s : Source} (h : d.column = 0 ∨ '\n' ∉ s.rest) :
    (s.move d).next = (moved d (Token.mapSpan (Span.move d)) s.next.1, s.next.2.move d) := by
  fun_induction next s with
  | case1 s hs => exact next_of_nil hs
  | case2 s c cs hs hr => exact next_of_unrecognized hs hr
  | case3 s c cs hs kind n hr text =>
    rw [next_of_token (s := s.move d) hr, skip_move h]
    rfl
  | case4 s c cs hs n hr ih =>
    rw [next_of_gap (s := s.move d) hr (.inl rfl), skip_move h]
    exact ih (h.imp_right fun h hmem => h (List.mem_of_mem_drop hmem))
  | case5 s c cs hs n hr ih =>
    rw [next_of_gap (s := s.move d) hr (.inr rfl), skip_move h]
    exact ih (h.imp_right fun h hmem => h (List.mem_of_mem_drop hmem))

/-- The tokens of a text are the same at every place, but for their places. -/
theorem tokens_move {d : Position} {s : Source} (h : d.column = 0 ∨ '\n' ∉ s.rest) :
    (s.move d).tokens = moved d (List.map (Token.mapSpan (Span.move d))) s.tokens := by
  fun_induction tokens s with
  | case1 s e after hnext =>
    have hmove := next_move h
    rw [hnext] at hmove
    rw [tokens.eq_def, hmove]
    rfl
  | case2 s t after hnext hkind =>
    have hmove := next_move h
    rw [hnext] at hmove
    exact tokens_of_last hmove hkind
  | case3 s t after hnext hkind ih =>
    have hmove := next_move h
    rw [hnext] at hmove
    obtain ⟨word, hword, -⟩ := exists_taken_of_next hnext
    have hafter : d.column = 0 ∨ '\n' ∉ after.rest := by
      rw [hword, List.mem_append, not_or] at h
      exact h.imp_right And.right
    rw [tokens_of_next hmove hkind, ih hafter]
    cases after.tokens <;> rfl

end Source

/-- The tokens of a text with another one on a new line behind it. -/
theorem tokenize_append {a b : String} {ts : List Token} (h : tokenize a = .ok ts)
    (hts : ts.IsChain Token.Apart ∨ ¬['*', '/'] <:+: b.toList) :
    tokenize (a ++ "\n" ++ b) = (Source.moved (.below a)
      (List.map (Token.mapSpan (Span.move (.below a)))) (tokenize b)).map (ts.dropLast ++ ·) := by
  have hline : EndsLine ('\n' :: b.toList) := by
    rintro _ ⟨⟩
    rfl
  have hclosed : ¬['*', '/'] <:+: b.toList → ¬['*', '/'] <:+: [] ++ '\n' :: b.toList := by
    simp [List.infix_cons_iff]
  have happend := Source.tokens_append h (hts.imp_right hclosed) (List.forall_mem_nil _)
    List.not_mem_nil hline
  have hnewline : Source.tokens ⟨Position.start.advance a.toList, '\n' :: b.toList⟩ =
      (Source.move (.below a) (.ofString b)).tokens := by
    refine Source.tokens_congr ((Source.next_of_blank (by decide)).trans ?_)
    rw [Source.move, Source.ofString, ← Position.start_advance_below, Position.advance_append]
    rfl
  rw [Source.tokens_move (.inl rfl)] at hnewline
  rw [List.nil_append, List.append_nil] at happend
  rw [tokenize, tokenize, ← hnewline, Source.ofString]
  simpa [Source.ofString] using happend

/-- A text, and on a new line behind it one without the end of a comment, are cut into the tokens of
both, those of the second at their places in the whole. An error in the second is there too. -/
theorem tokenize_newline {a b : String} {ts : List Token} {p : Position}
    (ha : tokenize a = .ok (ts ++ [.endOfFile p])) (hb : ¬['*', '/'] <:+: b.toList) :
    tokenize (a ++ "\n" ++ b) =
      match tokenize b with
      | .ok us => .ok (ts ++ us.map (Token.mapSpan (Span.move (.below a))))
      | .error e => .error (e.move (.below a)) := by
  rw [tokenize_append ha (.inr hb), List.dropLast_concat]
  cases tokenize b <;> rfl

/-- A comment that is left open before a comment up to the end of the line, and behind them a text
with tokens and one without. -/
theorem tokenize_newline_of_open : ∃ ts,
    tokenize "é/*\n2//*" = .ok (ts ++ [.endOfFile ⟨9, 2, 5⟩]) ∧
    ¬['*', '/'] <:+: "/1".toList ∧ ¬['*', '/'] <:+: "/$".toList ∧
    tokenize ("é/*\n2//*" ++ "\n" ++ "/1") = .ok (ts ++
      [⟨.operator, "/", ⟨⟨10, 3, 1⟩, ⟨11, 3, 2⟩⟩⟩, ⟨.number, "1", ⟨⟨11, 3, 2⟩, ⟨12, 3, 3⟩⟩⟩,
       .endOfFile ⟨12, 3, 3⟩]) ∧
    tokenize ("é/*\n2//*" ++ "\n" ++ "/$") = .error ⟨⟨11, 3, 2⟩, '$'⟩ := by
  have hfront : tokenize "é/*\n2//*" = .ok
      ([⟨.identifier, "é", ⟨⟨0, 1, 1⟩, ⟨2, 1, 2⟩⟩⟩, ⟨.operator, "/", ⟨⟨2, 1, 2⟩, ⟨3, 1, 3⟩⟩⟩,
        ⟨.operator, "*", ⟨⟨3, 1, 3⟩, ⟨4, 1, 4⟩⟩⟩, ⟨.number, "2", ⟨⟨5, 2, 1⟩, ⟨6, 2, 2⟩⟩⟩] ++
       [.endOfFile ⟨9, 2, 5⟩]) := by decide +kernel
  have htokens : tokenize "/1" = .ok [⟨.operator, "/", ⟨⟨0, 1, 1⟩, ⟨1, 1, 2⟩⟩⟩,
      ⟨.number, "1", ⟨⟨1, 1, 2⟩, ⟨2, 1, 3⟩⟩⟩, .endOfFile ⟨2, 1, 3⟩] := by decide +kernel
  have herror : tokenize "/$" = .error ⟨⟨1, 1, 2⟩, '$'⟩ := by decide +kernel
  have hbelow : Position.below "é/*\n2//*" = ⟨10, 2, 0⟩ := by decide +kernel
  have hclosed : ¬['*', '/'] <:+: "/1".toList := by decide
  have hclosed' : ¬['*', '/'] <:+: "/$".toList := by decide
  refine ⟨_, hfront, hclosed, hclosed', (tokenize_newline hfront hclosed).trans ?_,
    (tokenize_newline hfront hclosed').trans ?_⟩
  · rw [htokens, hbelow]
    rfl
  · rw [herror, hbelow]
    rfl

-- A comment that the second text closes takes the tokens of both.
example : tokenize ("/*" ++ "\n" ++ "*/") = .ok [.endOfFile ⟨5, 2, 3⟩] := by decide +kernel

end EggLang
