import EggLang.Proofs.Parse.Barrier

/-! How far parsing looks ahead. What a parsing function replies is settled by the tokens that it
takes and by the one in front of which it stands then, so that no tree and no error has anything to
do with the tokens behind that one. -/

namespace EggLang.Parse

/-! ### Cursors at the same token -/

namespace Cursor

variable {c d m n : Cursor} {ts : List Token}

/-- Where the same tokens can be taken, and the same token is ahead then, it is ahead from the
beginning. -/
theorem Takes.current_eq (h : c.Takes ts m) (h' : d.Takes ts n) (hn : n.current = m.current) :
    d.current = c.current := by
  cases ts with
  | nil =>
    obtain rfl : c = m := h
    obtain rfl : d = n := h'
    exact hn
  | cons t ts => exact h'.1.trans h.1.symm

/-- Where fewer tokens are left, one was taken, and the last of those that were taken is behind. -/
theorem Takes.behind_eq_of_size_lt (h : c.Takes ts m) (h' : d.Takes ts n) (hm : m.size < c.size) :
    n.behind = m.behind := by
  have hne : ts ≠ [] := by
    rintro rfl
    obtain rfl : c = m := h
    exact Nat.lt_irrefl _ hm
  have hlast := List.getLast?_eq_some_getLast hne
  rw [h.behind_eq hlast, h'.behind_eq hlast]

/-- Tokens that are ahead are there to be taken. -/
theorem exists_takes {ts more : List Token} (h : c.ahead = ts ++ more)
    (hts : ∀ t ∈ ts, t.kind ≠ .endOfFile) : ∃ m, c.Takes ts m ∧ m.ahead = more := by
  induction ts generalizing c with
  | nil => exact ⟨c, rfl, h⟩
  | cons t ts ih =>
    rw [List.forall_mem_cons] at hts
    obtain ⟨m, hm, hmore⟩ := ih (c := c.advance) (by simp [advance, h]) hts.2
    exact ⟨m, ⟨by simp [current, h], hts.1, hm⟩, hmore⟩

section

variable (h : d.current = c.current)

include h

theorem at?_congr (kind : TokenKind) (text : String) : d.at? kind text = c.at? kind text := by
  rw [at?, h, at?]

theorem typeAhead?_congr : d.typeAhead? = c.typeAhead? := by
  rw [typeAhead?, h, typeAhead?]

theorem failure_congr (expected : Expectation) : d.failure expected = c.failure expected := by
  rw [failure, h, failure]

end

end Cursor

/-! ### Replies that one token settles -/

/-- What a reply says and where it stands. -/
def Reply.outcome {α : Type} {n : Nat} (r : Reply n α) : Except SyntaxError α × Cursor :=
  (r.toExcept, r.rest)

@[simp] theorem Reply.outcome_mono {α : Type} {m n : Nat} (h : m ≤ n) (r : Reply m α) :
    (r.mono h).outcome = r.outcome := by
  rw [outcome, toExcept_mono, rest_mono, outcome]

theorem Reply.gives_iff_outcome {α : Type} {n : Nat} {r : Reply n α} {a : α} {m : Cursor} :
    r.Gives a m ↔ r.outcome = (.ok a, m) := by
  cases r with
  | ok b m' h => simp [outcome, toExcept, rest]
  | error e m' => simp [outcome, toExcept]

theorem Reply.eq_error_of_outcome {α : Type} {n : Nat} {r : Reply n α} {e : SyntaxError}
    {m : Cursor} (h : r.outcome = (.error e, m)) : r = .error e m := by
  cases r with
  | ok b m' hm => cases h
  | error e' m' =>
    cases h
    rfl

/-- `parse` takes tokens from `c` on, and does the same wherever these tokens come up and then the
one that it stops in front of. -/
def OneAhead {α : Type} {b : Cursor → Nat} (parse : (c : Cursor) → Reply (b c) α) (c : Cursor) :
    Prop :=
  ∃ ts, c.Takes ts (parse c).rest ∧ ∀ d m, d.Takes ts m → m.current = (parse c).rest.current →
    (parse d).outcome = ((parse c).toExcept, m)

namespace OneAhead

variable {α β : Type} {b b' : Cursor → Nat} {c : Cursor} {p : (c : Cursor) → Reply (b c) α}

/-- The token ahead is the same one wherever the tokens come up. -/
theorem congr {q : (c : Cursor) → Reply (b' c) α} (hq : OneAhead q c)
    (h : ∀ d, d.current = c.current → (p d).outcome = (q d).outcome) : OneAhead p c := by
  obtain ⟨ts, hts, hq⟩ := hq
  have hrest : (p c).rest = (q c).rest := congrArg Prod.snd (h c rfl)
  have hreply : (p c).toExcept = (q c).toExcept := congrArg Prod.fst (h c rfl)
  rw [OneAhead, hrest, hreply]
  refine ⟨ts, hts, fun d m hd hm => ?_⟩
  rw [h d (hts.current_eq hd hm), hq d m hd hm]

/-- A reply where it stands, by the token ahead. -/
theorem of_here {r : Except SyntaxError α}
    (h : ∀ d, d.current = c.current → (p d).outcome = (r, d)) : OneAhead p c := by
  have hreply : (p c).toExcept = r := congrArg Prod.fst (h c rfl)
  have hrest : (p c).rest = c := congrArg Prod.snd (h c rfl)
  refine ⟨[], hrest.symm, fun d m hd hm => ?_⟩
  obtain rfl : d = m := hd
  rw [h d (by rw [hm, hrest]), hreply]

/-- A reply that takes the token ahead. -/
theorem of_advance {r : Except SyntaxError α} (hkind : c.current.kind ≠ .endOfFile)
    (h : ∀ d, d.current = c.current → (p d).outcome = (r, d.advance)) : OneAhead p c := by
  have hreply : (p c).toExcept = r := congrArg Prod.fst (h c rfl)
  have hrest : (p c).rest = c.advance := congrArg Prod.snd (h c rfl)
  refine ⟨[c.current], hrest ▸ Cursor.takes_current hkind, fun d m hd _ => ?_⟩
  obtain ⟨hcurrent, -, rfl⟩ := hd
  rw [h d hcurrent, hreply]

theorem behind_current (h : OneAhead p c.advance) (hkind : c.current.kind ≠ .endOfFile) :
    OneAhead (fun d => p d.advance) c := by
  obtain ⟨ts, hts, h⟩ := h
  exact ⟨c.current :: ts, ⟨rfl, hkind, hts⟩, fun d m hd hm => h d.advance m hd.2.2 hm⟩

theorem behind_at? {kind : TokenKind} {text : String} (hat : c.at? kind text = true)
    (h : OneAhead p c.advance) (hkind : kind ≠ .endOfFile := by decide) :
    OneAhead (fun d => p d.advance) c :=
  h.behind_current (by rwa [Cursor.kind_of_at? hat])

/-- What goes on behind a result as something settled does is settled. Where a token was taken on
the way to the result, it may use the span behind it too. -/
theorem go_on {r : (c : Cursor) → Reply (b' c) β} (hp : OneAhead p c)
    (herror : ∀ d e m, p d = .error e m → (r d).outcome = (.error e, m))
    (hok : ∀ a m, (p c).Gives a m → ∃ (k : Cursor → Nat) (q : (m : Cursor) → Reply (k m) β),
      OneAhead q m ∧ ∀ d n, (p d).Gives a n → d.current = c.current →
        (m.size < c.size → n.behind = m.behind) → (r d).outcome = (q n).outcome) :
    OneAhead r c := by
  obtain ⟨ts, hts, hp⟩ := hp
  cases hx : p c with
  | error e m =>
    have hr := herror c e m hx
    have hrest : (r c).rest = m := congrArg Prod.snd hr
    have hreply : (r c).toExcept = .error e := congrArg Prod.fst hr
    rw [hx] at hts hp
    rw [OneAhead, hrest, hreply]
    exact ⟨ts, hts, fun d n hd hn => herror d e n (Reply.eq_error_of_outcome (hp d n hd hn))⟩
  | ok a m hm =>
    have hgives : (p c).Gives a m := ⟨hm, hx⟩
    obtain ⟨k, q, ⟨us, hus, hq⟩, hr⟩ := hok a m hgives
    have hrc := hr c m hgives rfl fun _ => rfl
    have hrest : (r c).rest = (q m).rest := congrArg Prod.snd hrc
    have hreply : (r c).toExcept = (q m).toExcept := congrArg Prod.fst hrc
    rw [hx] at hts hp
    rw [OneAhead, hrest, hreply]
    refine ⟨ts ++ us, hts.append hus, fun d n hd hn => ?_⟩
    -- The tokens lead to a place with the token of `m` ahead, from where the second part goes on.
    obtain ⟨m', hm', hd⟩ := Cursor.takes_append.mp hd
    have hcurrent : m'.current = m.current := hus.current_eq hd hn
    have hgives' : (p d).Gives a m' := Reply.gives_iff_outcome.mpr (hp d m' hm' hcurrent)
    rw [hr d m' hgives' (hts.current_eq hm' hcurrent) (hts.behind_eq_of_size_lt hm'), hq m' n hd hn]

/-! ### How parsing functions are put together -/

theorem andThen {g : α → (m : Cursor) → Reply m.size β} (hp : OneAhead p c)
    (hg : ∀ a m, (p c).Gives a m → OneAhead (g a) m) :
    OneAhead (fun c => (p c).andThen fun a m _ => g a m) c := by
  refine hp.go_on (fun d e m hd => ?_) fun a m h => ⟨_, g a, hg a m h, fun d n hd _ _ => ?_⟩
  · rw [hd]
    rfl
  · obtain ⟨hn, hx⟩ := hd
    rw [hx]
    exact Reply.outcome_mono (Nat.le_of_lt hn) _

theorem andMaybe {p : (c : Cursor) → Reply c.size α}
    {g : α → Span → (m : Cursor) → Reply (m.size + 1) β} (hp : OneAhead p c)
    (hg : ∀ a m, (p c).Gives a m → OneAhead (g a m.behind) m) :
    OneAhead (fun c => (p c).andMaybe fun a m _ => g a m.behind m) c := by
  refine hp.go_on (fun d e m hd => ?_)
    fun a m h => ⟨_, g a m.behind, hg a m h, fun d n hd _ hbehind => ?_⟩
  · rw [hd]
    rfl
  · obtain ⟨hn, hx⟩ := hd
    rw [hx, ← hbehind h.size_lt]
    exact Reply.outcome_mono hn _

theorem map {f : α → β} (hp : OneAhead p c) : OneAhead (fun c => (p c).map fun a _ => f a) c := by
  refine hp.go_on (fun d e m hd => ?_) fun a m h =>
    ⟨_, fun n => .ok (f a) n n.size_lt_succ, of_here fun _ _ => rfl, fun d n hd _ _ => ?_⟩
  · rw [hd]
    rfl
  · obtain ⟨hn, hx⟩ := hd
    rw [hx]
    rfl

/-- A statement with the span from the token ahead to the last one that is taken. -/
theorem placed {p : (c : Cursor) → Reply c.size Unplaced} (hp : OneAhead p c) :
    OneAhead (fun d => (p d).map fun place m => place (d.current.span.join m.behind)) c := by
  refine hp.go_on (fun d e m hd => ?_) fun place m h =>
    ⟨_, fun n => .ok (place (c.current.span.join m.behind)) n n.size_lt_succ,
      of_here fun _ _ => rfl, fun d n hd hcurrent hbehind => ?_⟩
  · rw [hd]
    rfl
  · obtain ⟨hn, hx⟩ := hd
    rw [hx, ← hbehind h.size_lt, ← hcurrent]
    rfl

theorem mono {k : Cursor → Nat} (hp : OneAhead p c) (h : ∀ d, b d ≤ k d) :
    OneAhead (fun d => (p d).mono (h d)) c :=
  hp.congr fun d _ => Reply.outcome_mono (h d) (p d)

/-- What the token ahead decides goes one of its two ways. -/
theorem ite {P : Cursor → Prop} [∀ d, Decidable (P d)] {x y : (d : Cursor) → Reply (b d) α}
    (hP : ∀ d, d.current = c.current → (P d ↔ P c)) (hx : P c → OneAhead x c)
    (hy : ¬P c → OneAhead y c) : OneAhead (fun d => if P d then x d else y d) c := by
  by_cases h : P c
  · refine (hx h).congr fun d hd => ?_
    rw [if_pos ((hP d hd).mpr h)]
  · refine (hy h).congr fun d hd => ?_
    rw [if_neg (h ∘ (hP d hd).mp)]

end OneAhead

/-! ### Single tokens -/

variable (c : Cursor)

theorem oneAhead_expect (text : String) (expected : Expectation) :
    OneAhead (·.expect text expected) c := by
  by_cases hat : c.at? .punctuation text = true
  · refine .of_advance (r := .ok ()) (by simp [Cursor.kind_of_at? hat]) fun d hd => ?_
    rw [Cursor.expect, dif_pos ((Cursor.at?_congr hd _ _).trans hat)]
    rfl
  · refine .of_here (r := .error (c.failure expected)) fun d hd => ?_
    rw [Cursor.expect, dif_neg (by rwa [Cursor.at?_congr hd]), Cursor.failure_congr hd]
    rfl

theorem oneAhead_terminator : OneAhead Cursor.terminator c := oneAhead_expect c _ _

theorem oneAhead_identifier (role : Phrase) : OneAhead (·.identifier role) c := by
  by_cases hkind : c.current.kind = .identifier
  · refine .of_advance (r := .ok ⟨c.current.text, c.current.span⟩) (by simp [hkind]) fun d hd => ?_
    rw [Cursor.identifier, dif_pos (by rwa [hd])]
    show (Except.ok (Ident.mk d.current.text d.current.span), d.advance) = _
    rw [hd]
  · refine .of_here (r := .error (c.failure (.identifier role))) fun d hd => ?_
    rw [Cursor.identifier, dif_neg (by rwa [hd]), Cursor.failure_congr hd]
    rfl

theorem oneAhead_typeName : OneAhead Cursor.typeName c := by
  cases htype : c.typeAhead? with
  | some type =>
    refine .of_advance (r := .ok type) (by simp [Cursor.kind_of_typeAhead? htype]) fun d hd => ?_
    rw [← Cursor.typeAhead?_congr hd] at htype
    rw [Cursor.typeName]
    split
    · rename_i type' htype'
      cases htype.symm.trans htype'
      rfl
    · rename_i htype'
      cases htype.symm.trans htype'
  | none =>
    refine .of_here (r := .error (c.failure .typeName)) fun d hd => ?_
    rw [← Cursor.typeAhead?_congr hd] at htype
    rw [Cursor.typeName, Cursor.failure_congr hd]
    split
    · rename_i type' htype'
      cases htype.symm.trans htype'
    · rfl

/-! ### Expressions -/

theorem oneAhead_expressions :
    (∀ floor c, OneAhead (expression floor) c) ∧ (∀ c, OneAhead primary c) ∧
    (∀ floor lhs c, OneAhead (extend floor lhs) c) := by
  -- On the recursion of the parser. In each case the token ahead is what it decides by, so that it
  -- goes the same way at every cursor with that token ahead.
  apply expression.mutual_induct
  case case1 =>
    intro floor c op hop _ ihOperand ihExtend
    have hkind : c.current.kind ≠ .endOfFile := by simp [kind_of_unary? hop]
    refine .congr ((ihOperand.andMaybe (g := fun operand behind =>
      extend floor (.unary op operand (c.current.span.join behind)))
        fun operand m h => ihExtend operand m h.size_lt).behind_current hkind) fun d hd => ?_
    rw [expression_of_unary (by rwa [hd]), Reply.outcome_mono, hd]
  case case2 =>
    intro floor c hop ihPrimary ihExtend
    refine .congr (ihPrimary.andMaybe (g := fun lhs _ => extend floor lhs)
      fun lhs m h => ihExtend lhs m h.size_lt) fun d hd => ?_
    rw [expression_of_not_unary (by rwa [hd])]
  case case3 =>
    intro c hat _ ih
    refine .congr (.behind_at? hat (ih.andThen (g := fun inner m =>
      (m.expect ")" (.after ")" .expression)).map fun _ _ => inner)
        fun inner m _ => (oneAhead_expect m _ _).map (f := fun _ => inner))) fun d hd => ?_
    rw [primary_of_parenthesis ((Cursor.at?_congr hd _ _).trans hat), Reply.outcome_mono]
  case case4 =>
    intro c hat e he
    refine .of_advance (r := .ok e) (kind_of_atom he) fun d hd => ?_
    rw [primary_of_atom (by rwa [Cursor.at?_congr hd]) (by rwa [hd])]
    rfl
  case case5 =>
    intro c hat expected he
    refine .of_here (r := .error (c.failure expected)) fun d hd => ?_
    rw [primary_of_not_atom (by rwa [Cursor.at?_congr hd]) (by rwa [hd]), Cursor.failure_congr hd]
    rfl
  case case6 =>
    intro floor lhs c hop
    refine .of_here (r := .ok lhs) fun d hd => ?_
    rw [extend_of_stops (stops_of_none (by rwa [hd]))]
    rfl
  case case7 =>
    intro floor lhs c op hop hbinds _ ihRhs ihBinary ihAssign
    have hkind : c.current.kind ≠ .endOfFile := by simp [kind_of_operator? hop]
    cases op with
    | binary op =>
      refine .congr ((ihRhs.andMaybe (g := fun rhs behind =>
        extend floor (.binary op lhs rhs (lhs.span.join behind)))
          fun rhs m h => ihBinary rhs m h.size_lt op lhs).behind_current hkind) fun d hd => ?_
      rw [extend_of_binary (by rwa [hd]) hbinds, Reply.outcome_mono]
    | assignment =>
      by_cases hlhs : ∃ id, lhs = .var id
      · obtain ⟨target, rfl⟩ := hlhs
        refine .congr ((ihRhs.andMaybe (g := fun rhs behind =>
          extend floor (.assign target rhs ((Expr.var target).span.join behind)))
            fun rhs m h => ihAssign rhs m h.size_lt target).behind_current hkind) fun d hd => ?_
        rw [extend_of_target (by rwa [hd]) hbinds, Reply.outcome_mono]
      · -- The error is about the operator, which is not ahead any more where it is raised.
        refine .congr ((ihRhs.andMaybe (g := fun _ _ m =>
          .error ⟨.assignable, .expression lhs, c.current.span⟩ m)
            fun rhs m _ => .of_here fun _ _ => rfl).behind_current hkind) fun d hd => ?_
        rw [extend_of_not_target (by rwa [hd]) hbinds (not_exists.mp hlhs), Reply.outcome_mono, hd]
  case case8 =>
    intro floor lhs c op hop hbinds
    refine .of_here (r := .ok lhs) fun d hd => ?_
    rw [extend_of_stops (stops_of_not_binds (by rwa [hd]) hbinds)]
    rfl

/-! ### Statements -/

theorem oneAhead_expression (floor : Precedence) (c : Cursor) : OneAhead (expression floor) c :=
  oneAhead_expressions.1 floor c

theorem oneAhead_printing : OneAhead printing c := by
  refine (oneAhead_expect c _ _).andThen fun _ c _ => ?_
  refine (oneAhead_expression .lowest c).andThen fun value c _ => ?_
  refine (oneAhead_expect c _ _).andThen fun _ c _ => ?_
  exact (oneAhead_terminator c).map (f := fun _ => Stmt.print value)

theorem oneAhead_bracketed : OneAhead bracketed c := by
  refine (oneAhead_identifier c _).andThen fun id c _ => ?_
  refine (oneAhead_expect c _ _).andThen fun _ c _ => ?_
  refine (oneAhead_typeName c).andThen fun type c _ => ?_
  exact (oneAhead_expect c _ _).map (f := fun _ => (id, type))

theorem oneAhead_typeFirst : OneAhead typeFirst c := by
  refine (oneAhead_typeName c).andThen fun type c _ => ?_
  exact (oneAhead_identifier c _).map (f := fun id => (id, type))

theorem oneAhead_initializer : OneAhead initializer c := by
  refine .ite (fun d hd => by rw [Cursor.at?_congr hd]) (fun hat => ?_)
    fun _ => .of_here (r := .ok none) fun _ _ => rfl
  exact .mono (.behind_at? hat ((oneAhead_expression .lowest c.advance).map (f := some))) _

theorem oneAhead_declaring (isConstant : Bool) (id : Ident) (type : DataType) :
    OneAhead (declaring isConstant id type) c := by
  refine (oneAhead_initializer c).andThen fun value m _ => ?_
  refine .ite (fun _ _ => .rfl) (fun _ => ?_) fun _ => ?_
  · refine .of_here (r := .error (m.failure (.initializer id.name))) fun d hd => ?_
    rw [Cursor.failure_congr hd]
    rfl
  · exact (oneAhead_terminator m).map (f := fun _ => Stmt.declare ⟨id, type, isConstant, value⟩)

/-- A declaration whose name and type are read by `p`. -/
theorem OneAhead.declaring {c : Cursor} {p : (c : Cursor) → Reply c.size (Ident × DataType)}
    (hp : OneAhead p c) (isConstant : Bool) : OneAhead (fun c =>
      (p c).andMaybe fun (id, type) c _ => Parse.declaring isConstant id type c) c :=
  hp.andMaybe (g := fun (id, type) _ => Parse.declaring isConstant id type)
    fun _ m _ => oneAhead_declaring m _ _ _

theorem oneAhead_constant : OneAhead constant c := by
  have hhead : OneAhead
      (fun c => if c.current.kind = .identifier then bracketed c else typeFirst c) c :=
    .ite (fun d hd => by rw [hd]) (fun _ => oneAhead_bracketed c) fun _ => oneAhead_typeFirst c
  exact hhead.declaring true

theorem oneAhead_assignment : OneAhead assignment c := by
  refine (oneAhead_expression .lowest c).andThen fun e m _ => ?_
  cases e with
  | assign target value span =>
    exact (oneAhead_terminator m).map (f := fun _ => Stmt.assign target value)
  | var id =>
    refine .ite (fun d hd => by rw [Cursor.at?_congr hd]) (fun hat => ?_)
      fun _ => .of_here (r := .error _) fun _ _ => rfl
    refine .congr (.behind_at? hat ((oneAhead_terminator m.advance).map
      (f := fun _ => Stmt.assign id (increment id m.current.span)))) fun d hd => ?_
    rw [Reply.outcome_mono, hd]
  | _ => exact .of_here (r := .error _) fun _ _ => rfl

theorem oneAhead_statements :
    (∀ c, OneAhead statement c) ∧ (∀ c, OneAhead items c) ∧ (∀ c, OneAhead alternative c) ∧
    (∀ c, OneAhead branch c) := by
  apply statement.mutual_induct
  case case1 =>
    intro c ihBranch ihAlternative ihItems
    -- None of the branches depends on the test that leads to it.
    rw [show statement = _ from funext statement.eq_def]
    simp only [dite_eq_ite]
    have hdecide (kind : TokenKind) (text : String) (d : Cursor) (hd : d.current = c.current) :
        d.at? kind text = true ↔ c.at? kind text = true := by rw [Cursor.at?_congr hd]
    refine .placed (.ite (hdecide .keyword "print") (fun hat => ?_) fun _ => ?_)
    · exact .mono (.behind_at? hat (oneAhead_printing _)) _
    refine .ite (hdecide .keyword "if") (fun hat => ?_) fun _ => ?_
    · refine .mono (.behind_at? hat ((oneAhead_expression _ _).andThen fun condition m h => ?_)) _
      refine (ihBranch hat m h.size_lt).andMaybe (g := fun body _ d =>
        (alternative d).map fun otherwise _ => Stmt.ifElse condition body otherwise) ?_
      exact fun body m' h' => (ihAlternative hat m h.size_lt m' h'.size_lt).map
    refine .ite (hdecide .keyword "var") (fun hat => ?_) fun _ => ?_
    · exact .mono (.behind_at? hat ((oneAhead_bracketed _).declaring false)) _
    refine .ite (hdecide .keyword "const") (fun hat => ?_) fun _ => ?_
    · exact .mono (.behind_at? hat (oneAhead_constant _)) _
    refine .ite (fun d hd => by rw [Cursor.typeAhead?_congr hd]) (fun _ => ?_) fun _ => ?_
    · exact (oneAhead_typeFirst c).declaring false
    refine .ite (hdecide .punctuation "\x7b") (fun hat => ?_) fun _ => oneAhead_assignment c
    exact .mono (.behind_at? hat ((ihItems hat).map (f := Stmt.block))) _
  case case2 =>
    intro c hat
    refine .of_advance (r := .ok []) (by simp [Cursor.kind_of_at? hat]) fun d hd => ?_
    rw [items, dif_pos ((Cursor.at?_congr hd _ _).trans hat)]
    rfl
  case case3 =>
    intro c hat hend
    refine .of_here (r := .error (c.failure .closingBrace)) fun d hd => ?_
    rw [items, dif_neg (by rwa [Cursor.at?_congr hd]), if_pos (by rwa [Cursor.atEnd, hd]),
      Cursor.failure_congr hd]
    rfl
  case case4 =>
    intro c hat hend ihStatement ihItems
    refine .congr (ihStatement.andThen (g := fun s d => (items d).map fun rest _ => s :: rest)
      fun s m h => (ihItems m h.size_lt).map (f := fun rest => s :: rest)) fun d hd => ?_
    rw [items, dif_neg (by rwa [Cursor.at?_congr hd]), if_neg (by rwa [Cursor.atEnd, hd])]
  case case5 =>
    intro c hat _ ih
    refine .congr (.behind_at? hat (ih.map (f := some))) fun d hd => ?_
    rw [alternative, dif_pos ((Cursor.at?_congr hd _ _).trans hat), Reply.outcome_mono]
  case case6 =>
    intro c hat
    refine .of_here (r := .ok none) fun d hd => ?_
    rw [alternative, dif_neg (by rwa [Cursor.at?_congr hd])]
    rfl
  case case7 =>
    intro c hat _ ih
    refine .congr (.behind_at? hat ih) fun d hd => ?_
    rw [branch, dif_pos ((Cursor.at?_congr hd _ _).trans hat), Reply.outcome_mono]
  case case8 =>
    intro c hat ih
    refine .congr (ih.map (f := fun s => [s])) fun d hd => ?_
    rw [branch, dif_neg (by rwa [Cursor.at?_congr hd])]

theorem oneAhead_statement (c : Cursor) : OneAhead statement c := oneAhead_statements.1 c

/-! ### Tokens behind the one ahead -/

theorem OneAhead.answer {α : Type} {b : Cursor → Nat} {parse : (c : Cursor) → Reply (b c) α}
    {c : Cursor} (h : OneAhead parse c) :
    ∃ pre, c.Takes pre (parse c).rest ∧
      (∀ d m, d.Takes pre m → m.current = (parse c).rest.current →
        (parse d).toExcept = (parse c).toExcept ∧ (parse d).rest = m) ∧
      ∀ d more, d.ahead = pre ++ (parse c).rest.current :: more →
        (parse d).toExcept = (parse c).toExcept ∧
        (parse d).rest.ahead = (parse c).rest.current :: more := by
  obtain ⟨pre, hpre, h⟩ := h
  have hanswer (d m) (hd : d.Takes pre m) (hm : m.current = (parse c).rest.current) :
      (parse d).toExcept = (parse c).toExcept ∧ (parse d).rest = m :=
    Prod.ext_iff.mp (h d m hd hm)
  refine ⟨pre, hpre, hanswer, fun d more hd => ?_⟩
  obtain ⟨m, htakes, hm⟩ := Cursor.exists_takes hd hpre.kind_ne
  obtain ⟨hanswer, hrest⟩ := hanswer d m htakes (by simp [Cursor.current, hm])
  exact ⟨hanswer, hrest ▸ hm⟩

end Parse

open Parse

/-- Where parsing a statement or an expression took the tokens `pre`, it says the same thing, a
result or an error with all of its spans, wherever these tokens are ahead and then the one in front
of which it stood, and stands in front of that one again. Whatever is behind it makes no
difference. -/
theorem parsing_looks_one_token_ahead (c : Cursor) :
    (∃ pre, c.Takes pre (statement c).rest ∧
      (∀ d m, d.Takes pre m → m.current = (statement c).rest.current →
        (statement d).toExcept = (statement c).toExcept ∧ (statement d).rest = m) ∧
      ∀ d more, d.ahead = pre ++ (statement c).rest.current :: more →
        (statement d).toExcept = (statement c).toExcept ∧
        (statement d).rest.ahead = (statement c).rest.current :: more) ∧
    ∀ floor, ∃ pre, c.Takes pre (expression floor c).rest ∧
      (∀ d m, d.Takes pre m → m.current = (expression floor c).rest.current →
        (expression floor d).toExcept = (expression floor c).toExcept ∧
        (expression floor d).rest = m) ∧
      ∀ d more, d.ahead = pre ++ (expression floor c).rest.current :: more →
        (expression floor d).toExcept = (expression floor c).toExcept ∧
        (expression floor d).rest.ahead = (expression floor c).rest.current :: more :=
  ⟨(oneAhead_statement c).answer, fun floor => (oneAhead_expression floor c).answer⟩

/-- An empty block is one also where a parenthesis follows that closes nothing. -/
theorem statement_braces_append :
    (statement (.ofTokens
      (braces ++ [.endOfFile Span.nowhere.stop, .ofText .punctuation ")"]))).toExcept =
      .ok (.block [] (Span.nowhere.join .nowhere)) := by
  obtain ⟨⟨pre, hpre, -, h⟩, -⟩ := parsing_looks_one_token_ahead (.ofTokens braces)
  obtain ⟨_, hs⟩ := statement_braces
  rw [hs] at hpre h
  obtain rfl : braces = pre := hpre.visible.trans (List.append_nil pre)
  exact (h _ [.ofText .punctuation ")"] rfl).1

end EggLang
