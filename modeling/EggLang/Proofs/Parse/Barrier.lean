import EggLang.Proofs.Parse.Simulation

/-! The end of the input. No parsing function takes an `endOfFile`, so that nothing behind the first
one has any say, and a list without any is parsed as if one stood at its end. A result has taken a
token or more, so that lists of statements come to an end. -/

namespace EggLang

/-- What an error says: what was expected, what stood there instead in words, and where. -/
def SyntaxError.report (e : SyntaxError) : Expectation × String × Span :=
  (e.expected, e.found.text, e.span)

/-- No change at all. -/
def Change.none : Change where
  span span := span
  token t := t
  span_join _ _ := rfl
  kind_token _ := rfl
  text_token _ _ := rfl
  span_token _ := rfl

/-- The change that gives every `endOfFile` the text `text`, which nothing shows. -/
def Change.ending (text : String) : Change where
  span span := span
  token t := if t.kind = .endOfFile then ⟨.endOfFile, text, t.span⟩ else t
  span_join _ _ := rfl
  kind_token t := by split <;> simp [*]
  text_token t h := by rw [if_neg h]
  span_token t := by split <;> rfl

theorem SyntaxError.change_none (e : SyntaxError) : e.change .none = e := by
  obtain ⟨expected, found, span⟩ := e
  cases found with
  | token t => rfl
  | expression e => simp [change, Found.change, Change.none, Expr.mapSpans_id]

theorem SyntaxError.report_change_ending (text : String) (e : SyntaxError) :
    (e.change (.ending text)).report = e.report := by
  obtain ⟨expected, found, span⟩ := e
  cases found with
  | token t =>
    by_cases h : t.kind = .endOfFile
    · simp [change, Found.change, Change.ending, report, Found.text, Token.describe, h]
    · simp [change, Found.change, Change.ending, report, Found.text, h]
  | expression e => simp [change, Found.change, Change.ending, report, Expr.mapSpans_id]

namespace Parse

/-- The empty span where `tokens` end. -/
def endOf (tokens : List Token) : Span :=
  match tokens.getLast? with
  | some t => .empty t.span.stop
  | none => .nowhere

/-- Both token lists get the same answers, of whose errors one looks at `view`. -/
structure AnsweredAlike {E : Type} (view : SyntaxError → E) (ts us : List Token) : Prop where
  program : (Stmt.listOfTokens ts).mapError view = (Stmt.listOfTokens us).mapError view
  statement : (Stmt.ofTokens ts).mapError view = (Stmt.ofTokens us).mapError view
  expression : (Expr.ofTokens ts).mapError view = (Expr.ofTokens us).mapError view
  expressions : ∀ n, (expressions n (.ofTokens ts)).map (·.mapError view) =
    (Parse.expressions n (.ofTokens us)).map (·.mapError view)

theorem mapError_answer {E α : Type} {view : SyntaxError → E} {k : Change}
    (hview : ∀ e, view (e.change k) = view e) {f : α → α} (hf : ∀ a, f a = a)
    (x : Except SyntaxError α) : (k.answer f x).mapError view = x.mapError view := by
  cases x with
  | ok a => exact congrArg Except.ok (hf a)
  | error e => exact congrArg Except.error (hview e)

theorem AnsweredAlike.of_simulation {E : Type} {view : SyntaxError → E} {k : Change}
    {r : Cursor → Cursor → Prop} (hr : Simulation k r) (hspan : k.span = fun span => span)
    (hview : ∀ e, view (e.change k) = view e) {ts us : List Token}
    (h : r (.ofTokens us) (.ofTokens ts)) : AnsweredAlike view ts us where
  program := by
    rw [Stmt.listOfTokens, hr.program h, hspan]
    exact mapError_answer hview Stmt.map_mapSpans_id _
  statement := by
    rw [Stmt.ofTokens, whole_mirrors hr (hr.statement h), hspan]
    exact mapError_answer hview Stmt.mapSpans_id _
  expression := by
    rw [Expr.ofTokens, whole_mirrors hr (hr.expression h .lowest), hspan]
    exact mapError_answer hview Expr.mapSpans_id _
  expressions n := by
    rw [hr.expressions h, hspan, List.map_map]
    exact List.map_congr_left fun x _ => mapError_answer hview Expr.mapSpans_id x

/-! ### Behind the first `endOfFile` -/

/-- The cursors show the same tokens up to and including an `endOfFile`. -/
def Barred (c d : Cursor) : Prop :=
  d.behind = c.behind ∧ ∃ ts e post post', (∀ t ∈ ts, t.kind ≠ .endOfFile) ∧
    e.kind = .endOfFile ∧ c.ahead = ts ++ e :: post ∧ d.ahead = ts ++ e :: post'

theorem simulation_barred : Simulation .none Barred where
  current := by
    rintro ⟨_, _⟩ ⟨_, _⟩ ⟨-, ts, e, post, post', -, -, rfl, rfl⟩
    cases ts <;> rfl
  behind h := h.1
  advance := by
    rintro ⟨_, _⟩ ⟨_, _⟩ ⟨-, ts, e, post, post', hts, he, rfl, rfl⟩ hkind
    cases ts with
    | nil => exact absurd he hkind
    | cons t ts => exact ⟨rfl, ts, e, post, post', (List.forall_mem_cons.mp hts).2, he, rfl, rfl⟩

/-! ### Without any `endOfFile` -/

/-- The first cursor shows no `endOfFile`, and the second shows one more token, an `endOfFile` with
the text `text` where the others end. -/
def Closed (text : String) (c d : Cursor) : Prop :=
  d.behind = c.behind ∧ (∀ t ∈ c.ahead, t.kind ≠ .endOfFile) ∧
    d.ahead = c.ahead ++
      [⟨.endOfFile, text, .empty ((c.ahead.getLast?.map Token.span).getD c.behind).stop⟩]

theorem simulation_closed (text : String) : Simulation (.ending text) (Closed text) where
  current := by
    rintro ⟨ahead, behind⟩ ⟨ahead', behind'⟩ ⟨hbehind, hahead, hahead'⟩
    dsimp only at hbehind hahead hahead'
    subst hbehind hahead'
    cases ahead with
    | nil => rfl
    | cons t ts => exact (if_neg (hahead t List.mem_cons_self)).symm
  behind h := h.1
  advance := by
    rintro ⟨ahead, behind⟩ ⟨ahead', behind'⟩ ⟨hbehind, hahead, hahead'⟩ hkind
    dsimp only at hbehind hahead hahead'
    subst hbehind hahead'
    cases ahead with
    | nil => exact absurd rfl hkind
    | cons t ts =>
      have hlast : ((t :: ts).getLast?.map Token.span).getD behind' =
          (ts.getLast?.map Token.span).getD t.span := by
        rw [List.getLast?_cons]
        cases ts.getLast? <;> rfl
      exact ⟨rfl, (List.forall_mem_cons.mp hahead).2,
        congrArg (fun span : Span => ts ++ [Token.mk .endOfFile text (.empty span.stop)]) hlast⟩

theorem closed_ofTokens {pre : List Token} {e : Token} (hpre : ∀ t ∈ pre, t.kind ≠ .endOfFile)
    (he : e.kind = .endOfFile) (hspan : e.span = endOf pre) :
    Closed e.text (.ofTokens pre) (.ofTokens (pre ++ [e])) := by
  refine ⟨rfl, hpre, ?_⟩
  obtain ⟨kind, text, span⟩ := e
  obtain rfl : kind = .endOfFile := he
  obtain rfl : span = endOf pre := hspan
  rw [endOf, Cursor.ofTokens, Cursor.ofTokens]
  cases pre.getLast? <;> rfl

/-! ### Progress -/

/-- The reply stands behind tokens from `c` on of which none is `endOfFile`, and a result behind one
such token or more. -/
structure Reply.Progress {α : Type} {n : Nat} (reply : Reply n α) (c : Cursor) : Prop where
  taken : ∃ ts, c.Takes ts reply.rest
  pos_of_gives : ∀ a m, reply.Gives a m → ∃ t ts, c.Takes (t :: ts) m

/-- The cursors are the same one, which tokens from `c` on lead to. -/
def Led (c m m' : Cursor) : Prop := m = m' ∧ ∃ ts, c.Takes ts m

theorem simulation_led (c : Cursor) : Simulation .none (Led c) where
  current := by
    rintro m _ ⟨rfl, -⟩
    rfl
  behind := by
    rintro m _ ⟨rfl, -⟩
    rfl
  advance := by
    rintro m _ ⟨rfl, ts, hts⟩ hkind
    exact ⟨rfl, ts ++ [m.current], hts.append (Cursor.takes_current hkind)⟩

theorem led_self (c : Cursor) : Led c c c := ⟨rfl, [], rfl⟩

theorem Reply.Mirrors.progress {α : Type} {v : α → α → Prop} {c : Cursor} {reply : Reply c.size α}
    (h : Mirrors .none (Led c) v reply reply) : reply.Progress c where
  taken := h.rest.2
  pos_of_gives := by
    rintro a m ⟨hm, rfl⟩
    obtain ⟨-, ts, hts⟩ := h.rest
    cases ts with
    | nil =>
      obtain rfl : c = m := hts
      exact absurd hm (Nat.lt_irrefl _)
    | cons t ts => exact ⟨t, ts, hts⟩

theorem statement_progress (c : Cursor) : (statement c).Progress c :=
  ((simulation_led c).statement (led_self c)).progress

theorem items_progress (c : Cursor) : (items c).Progress c :=
  ((statements_mirror (simulation_led c)).2.1 c c (led_self c)).progress

theorem expression_progress (floor : Precedence) (c : Cursor) : (expression floor c).Progress c :=
  ((simulation_led c).expression (led_self c) floor).progress

theorem primary_progress (c : Cursor) : (primary c).Progress c :=
  ((expressions_mirror (simulation_led c)).2.1 c c (led_self c)).progress

theorem branch_progress (c : Cursor) : (branch c).Progress c :=
  ((statements_mirror (simulation_led c)).2.2.2 c c (led_self c)).progress

/-- `n` statements one after the other lead from the first cursor to the second. -/
def Cursor.Passes : Nat → Cursor → Cursor → Prop
  | 0, c, c' => c = c'
  | n + 1, c, c' => ∃ s m, (statement c).Gives s m ∧ Passes n m c'

theorem Cursor.Passes.le_length {n : Nat} {c c' : Cursor} (h : c.Passes n c') :
    n ≤ (visible c.ahead).length := by
  induction n generalizing c with
  | zero => exact Nat.zero_le _
  | succ n ih =>
    obtain ⟨s, m, hs, hm⟩ := h
    obtain ⟨t, ts, hts⟩ := (statement_progress c).pos_of_gives s m hs
    have hlength := ih hm
    rw [hts.visible, List.length_append, List.length_cons]
    omega

end Parse

open Parse

/-- The first `endOfFile` ends the input, and where there is none the input ends behind its last
token. Statements and expressions take tokens before it, one or more where they succeed, so that
there are no more statements than such tokens. -/
theorem parsing_stops_at_endOfFile :
    (∀ (pre post : List Token) (e : Token), (∀ t ∈ pre, t.kind ≠ .endOfFile) →
      e.kind = .endOfFile → AnsweredAlike id (pre ++ [e] ++ post) (pre ++ [e])) ∧
    (∀ (pre : List Token) (e : Token), (∀ t ∈ pre, t.kind ≠ .endOfFile) →
      e.kind = .endOfFile → e.span = endOf pre →
      AnsweredAlike SyntaxError.report pre (pre ++ [e])) ∧
    (∀ c, (statement c).Progress c ∧ (items c).Progress c ∧
      ∀ floor, (expression floor c).Progress c) ∧
    ∀ n (c c' : Cursor), c.Passes n c' → n ≤ (visible c.ahead).length := by
  refine ⟨fun pre post e hpre he => ?_, fun pre e hpre he hspan => ?_,
    fun c => ⟨statement_progress c, items_progress c, fun floor => expression_progress floor c⟩,
    fun n c c' h => h.le_length⟩
  · refine .of_simulation simulation_barred rfl SyntaxError.change_none ?_
    exact ⟨rfl, pre, e, [], post, hpre, he, rfl, by simp [Cursor.ofTokens]⟩
  · have halike : AnsweredAlike SyntaxError.report (pre ++ [e]) pre :=
      .of_simulation (simulation_closed e.text) rfl (SyntaxError.report_change_ending e.text)
        (closed_ofTokens hpre he hspan)
    exact ⟨halike.program.symm, halike.statement.symm, halike.expression.symm,
      fun n => (halike.expressions n).symm⟩

/-- Words of a `print` statement that was not finished. -/
def unfinished : List Token :=
  [.ofText .keyword "print", .ofText .punctuation "(", .ofText .number "1.2.3"]

/-- The words of an empty block. -/
def braces : List Token := [.ofText .punctuation "\x7b", .ofText .punctuation "\x7d"]

theorem statement_braces :
    (statement (.ofTokens braces)).Gives (.block [] (Span.nowhere.join .nowhere)) ⟨[], .nowhere⟩ :=
  statement_gives.mpr ⟨.block [], rfl, .inr (.inr (.inr (.inr (.inr (.inl
    ⟨by decide, [], items_gives.mpr (.inl ⟨by decide, rfl, rfl⟩), rfl⟩)))))⟩

theorem unfinished_stops_at_endOfFile :
    AnsweredAlike id (unfinished ++ [.ofText .endOfFile "?"] ++ [.ofText .punctuation ")"])
      (unfinished ++ [.ofText .endOfFile "?"]) ∧
    AnsweredAlike SyntaxError.report unfinished (unfinished ++ [.ofText .endOfFile "?"]) ∧
    1 ≤ (visible braces).length :=
  ⟨parsing_stops_at_endOfFile.1 unfinished [.ofText .punctuation ")"] _ (by decide) rfl,
    parsing_stops_at_endOfFile.2.1 unfinished _ (by decide) rfl rfl,
    parsing_stops_at_endOfFile.2.2.2 1 (.ofTokens braces) _ ⟨_, _, statement_braces, rfl⟩⟩

end EggLang
