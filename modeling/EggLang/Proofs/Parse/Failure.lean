import EggLang.Proofs.Parse.Barrier

/-! Where syntax errors come from. Whatever error parsing ends in was raised at a place that tokens
of the input lead to, and says what is missing there. -/

namespace EggLang.Parse

/-- The errors that are raised at a cursor. Most say that the token ahead is not what the grammar
asks for. Two are about an expression: one that starts at the cursor and is no statement, and one
that stands on the left of the `=` ahead and is no name. -/
inductive Cursor.Raises (c : Cursor) : SyntaxError → Prop
  | after {text : String} {phrase : Phrase} : c.at? .punctuation text = false →
      Raises c (c.failure (.after text phrase))
  | before {text : String} {phrase : Phrase} : c.at? .punctuation text = false →
      Raises c (c.failure (.before text phrase))
  | identifier {role : Phrase} : c.current.kind ≠ .identifier →
      Raises c (c.failure (.identifier role))
  | typeName : c.typeAhead? = none → Raises c (c.failure .typeName)
  | operand {expected : Expectation} : c.at? .punctuation "(" = false →
      atom c.current = .error expected → Raises c (c.failure expected)
  | initializer {name : String} : c.at? .operator "=" = false →
      Raises c (c.failure (.initializer name))
  | closingBrace : c.atEnd = true → Raises c (c.failure .closingBrace)
  | endOfInput : c.atEnd = false → Raises c (c.failure .endOfInput)
  | assignable {lhs : Expr} : Operator.ofToken? c.current = some .assignment →
      (∀ id, lhs ≠ .var id) → Raises c ⟨.assignable, .expression lhs, c.current.span⟩
  | statement {e : Expr} {m : Cursor} : (expression .lowest c).Gives e m →
      (∀ target value span, e ≠ .assign target value span) →
      Raises c ⟨.statement, .expression e, e.span⟩

/-- The token ahead of a place is one of those ahead of any place that leads there. -/
theorem Cursor.Takes.current_mem {c m : Cursor} {ts : List Token} (h : c.Takes ts m)
    (hkind : m.current.kind ≠ .endOfFile) : m.current ∈ c.ahead := by
  have hvisible : m.current ∈ Parse.visible c.ahead := by
    rw [h.visible, Cursor.visible_of_current hkind]
    simp
  exact (mem_of_mem_visible hvisible).1

theorem numeral_of_atom {t : Token} :
    atom t = .error .numeral → t.kind = .number ∧ Number.read? t.text = none := by
  fun_cases atom t with
  | case2 hkind hread => exact fun _ => ⟨hkind, hread⟩
  | _ => exact nofun

/-- The reply stands behind tokens from `c` on. An error was raised behind such tokens. -/
inductive Reply.Grounded (c : Cursor) {α : Type} {n : Nat} : Reply n α → Prop
  | ok {a : α} {m : Cursor} {h : m.size < n} {ts : List Token} : c.Takes ts m →
      Grounded c (.ok a m h)
  | error {e : SyntaxError} {m m' : Cursor} {ts : List Token} : c.Takes ts m' → m'.Raises e →
      Grounded c (.error e m)

namespace Reply.Grounded

variable {c m : Cursor} {α β : Type} {n k : Nat} {x : Reply n α} {ts : List Token}

theorem behind (hts : c.Takes ts m) (h : Grounded m x) : Grounded c x := by
  cases h with
  | ok hus => exact .ok (hts.append hus)
  | error hus he => exact .error (hts.append hus) he

theorem mono (h : Grounded c x) (hn : n ≤ k) : Grounded c (x.mono hn) := by
  cases h with
  | ok hts => exact .ok hts
  | error hts he => exact .error hts he

theorem map {f : α → Cursor → β} (h : Grounded c x) : Grounded c (x.map f) := by
  cases h with
  | ok hts => exact .ok hts
  | error hts he => exact .error hts he

theorem andThen {f : α → (rest : Cursor) → rest.size < n → Reply rest.size β}
    (h : Grounded c x) (hf : ∀ a m hm, x.Gives a m → Grounded m (f a m hm)) :
    Grounded c (x.andThen f) := by
  cases h with
  | @ok a m hm _ hts => exact ((hf a m hm ⟨hm, rfl⟩).behind hts).mono (Nat.le_of_lt hm)
  | error hts he => exact .error hts he

theorem andMaybe {f : α → (rest : Cursor) → rest.size < n → Reply (rest.size + 1) β}
    (h : Grounded c x) (hf : ∀ a m hm, x.Gives a m → Grounded m (f a m hm)) :
    Grounded c (x.andMaybe f) := by
  cases h with
  | @ok a m hm _ hts => exact ((hf a m hm ⟨hm, rfl⟩).behind hts).mono hm
  | error hts he => exact .error hts he

theorem dite {p : Prop} [Decidable p] {x : p → Reply n α} {y : ¬p → Reply n α}
    (hpos : ∀ h, Grounded c (x h)) (hneg : ∀ h, Grounded c (y h)) :
    Grounded c (if h : p then x h else y h) := by
  split
  · exact hpos _
  · exact hneg _

/-- An error that is raised where parsing stands. -/
theorem raised {e : SyntaxError} (h : c.Raises e) :
    Grounded c (.error e m : Reply n α) :=
  .error (Cursor.takes_nil.mpr rfl) h

end Reply.Grounded

open Reply (Grounded)
open Grammar (takes_of_at?)

/-! ### Single tokens -/

namespace Cursor

variable (c : Cursor)

theorem grounded_expect {text : String} {expected : Expectation}
    (h : c.at? .punctuation text = false → c.Raises (c.failure expected)) :
    Grounded c (c.expect text expected) := by
  refine .dite (fun hat => ?_) fun hat => .raised (h (by simpa using hat))
  exact .ok (takes_of_at? hat)

theorem grounded_terminator : Grounded c c.terminator := c.grounded_expect .after

theorem grounded_identifier (role : Phrase) : Grounded c (c.identifier role) :=
  .dite (fun hkind => .ok (takes_current (by simp [hkind])))
    fun hkind => .raised (.identifier hkind)

theorem grounded_typeName : Grounded c c.typeName := by
  rw [typeName]
  split
  · rename_i h
    exact .ok (takes_current (by simp [kind_of_typeAhead? h]))
  · rename_i h
    exact .raised (.typeName h)

end Cursor

/-! ### Expressions -/

theorem grounded_expressions :
    (∀ floor c, Grounded c (expression floor c)) ∧ (∀ c, Grounded c (primary c)) ∧
    (∀ floor lhs c, Grounded c (extend floor lhs c)) := by
  apply expression.mutual_induct
  case case1 =>
    intro floor c op hop _ ihOperand ihExtend
    rw [expression_of_unary hop]
    have htake := Cursor.takes_current (c := c) (by simp [kind_of_unary? hop])
    refine .mono (.behind htake (ihOperand.andMaybe ?_)) _
    exact fun operand m hm _ => ihExtend operand m hm
  case case2 =>
    intro floor c hop ihPrimary ihExtend
    rw [expression_of_not_unary hop]
    exact ihPrimary.andMaybe fun lhs m hm _ => ihExtend lhs m hm
  case case3 =>
    intro c hat _ ih
    rw [primary_of_parenthesis hat]
    refine .mono (.behind (takes_of_at? hat) (ih.andThen ?_)) _
    exact fun inner m _ _ => (m.grounded_expect .after).map
  case case4 =>
    intro c hat e he
    rw [primary_of_atom hat he]
    exact .ok (Cursor.takes_current (kind_of_atom he))
  case case5 =>
    intro c hat expected he
    rw [primary_of_not_atom hat he]
    exact .raised (.operand (by simpa using hat) he)
  case case6 =>
    intro floor lhs c hop
    rw [extend_of_stops (stops_of_none hop)]
    exact .ok (Cursor.takes_nil.mpr rfl)
  case case7 =>
    intro floor lhs c op hop hbinds _ ihRhs ihBinary ihAssign
    have htake := Cursor.takes_current (c := c) (by simp [kind_of_operator? hop])
    cases op with
    | binary op =>
      rw [extend_of_binary hop hbinds]
      refine .mono (.behind htake (ihRhs.andMaybe ?_)) _
      exact fun rhs m hm _ => ihBinary rhs m hm op lhs
    | assignment =>
      by_cases hlhs : ∃ id, lhs = .var id
      · obtain ⟨target, rfl⟩ := hlhs
        rw [extend_of_target hop hbinds]
        refine .mono (.behind htake (ihRhs.andMaybe ?_)) _
        exact fun rhs m hm _ => ihAssign rhs m hm target
      · rw [extend_of_not_target hop hbinds (not_exists.mp hlhs)]
        -- The right side comes first, and the error is one that is raised at the operator.
        generalize expression Operator.assignment.precedence c.advance = x at ihRhs ⊢
        cases ihRhs with
        | ok _ => exact .raised (.assignable hop (not_exists.mp hlhs))
        | error hts he => exact .error (htake.append hts) he
  case case8 =>
    intro floor lhs c op hop hbinds
    rw [extend_of_stops (stops_of_not_binds hop hbinds)]
    exact .ok (Cursor.takes_nil.mpr rfl)

theorem grounded_expression (floor : Precedence) (c : Cursor) : Grounded c (expression floor c) :=
  grounded_expressions.1 floor c

/-! ### Statements -/

section

variable (c : Cursor)

theorem grounded_printing : Grounded c (printing c) := by
  refine (c.grounded_expect .after).andThen fun _ c _ _ => ?_
  refine (grounded_expression .lowest c).andThen fun value c _ _ => ?_
  exact (c.grounded_expect .after).andThen fun _ c _ _ => c.grounded_terminator.map

theorem grounded_bracketed : Grounded c (bracketed c) := by
  refine (c.grounded_identifier _).andThen fun id c _ _ => ?_
  refine (c.grounded_expect .before).andThen fun _ c _ _ => ?_
  exact c.grounded_typeName.andThen fun type c _ _ => (c.grounded_expect .after).map

theorem grounded_typeFirst : Grounded c (typeFirst c) :=
  c.grounded_typeName.andThen fun _ c _ _ => (c.grounded_identifier _).map

theorem grounded_initializer : Grounded c (initializer c) := by
  refine .dite (fun hat => ?_) fun _ => .ok (Cursor.takes_nil.mpr rfl)
  exact .mono (.behind (takes_of_at? hat) (grounded_expression .lowest c.advance).map) _

theorem grounded_declaring (isConstant : Bool) (id : Ident) (type : DataType) :
    Grounded c (declaring isConstant id type c) := by
  refine (grounded_initializer c).andThen fun value m _ hgives => ?_
  refine .dite (fun hmissing => ?_) fun _ => m.grounded_terminator.map
  rw [Bool.and_eq_true, Option.isNone_iff_eq_none] at hmissing
  rcases initializer_gives.mp hgives with ⟨-, e, -, hvalue⟩ | ⟨hat, -, rfl⟩
  · cases hvalue.trans hmissing.2
  · exact .raised (.initializer hat)

theorem grounded_constant : Grounded c (constant c) := by
  have hhead : Grounded c (if c.current.kind = .identifier then bracketed c else typeFirst c) :=
    .dite (fun _ => grounded_bracketed c) fun _ => grounded_typeFirst c
  exact hhead.andMaybe fun _ m _ _ => grounded_declaring m _ _ _

theorem grounded_assignment : Grounded c (assignment c) := by
  have he := grounded_expression .lowest c
  rw [assignment]
  generalize hx : expression .lowest c = x at he
  cases he with
  | error hts he => exact .error hts he
  | @ok e m hm _ hts =>
    have hgives : (expression .lowest c).Gives e m := ⟨hm, hx⟩
    refine .mono ?_ (Nat.le_of_lt hm)
    cases e with
    | assign target value span => exact .behind hts m.grounded_terminator.map
    | var id =>
      refine .dite (fun hat => ?_) fun _ => .raised (.statement hgives (by simp))
      refine .mono (.behind hts (.behind (takes_of_at? hat) ?_)) _
      exact m.advance.grounded_terminator.map
    | _ => exact .raised (.statement hgives (by simp))

end

theorem grounded_statements :
    (∀ c, Grounded c (statement c)) ∧ (∀ c, Grounded c (items c)) ∧
    (∀ c, Grounded c (alternative c)) ∧ (∀ c, Grounded c (branch c)) := by
  apply statement.mutual_induct
  case case1 =>
    intro c ihBranch ihAlternative ihItems
    rw [statement]
    refine .map (.dite (fun hat => ?_) fun _ => ?_)
    · exact .mono (.behind (takes_of_at? hat) (grounded_printing _)) _
    refine .dite (fun hat => ?_) fun _ => ?_
    · refine .mono (.behind (takes_of_at? hat) ((grounded_expression _ _).andThen ?_)) _
      intro condition m hm _
      refine (ihBranch hat m hm).andMaybe fun body m' hm' _ => ?_
      exact (ihAlternative hat m hm m' hm').map
    refine .dite (fun hat => ?_) fun _ => ?_
    · refine .mono (.behind (takes_of_at? hat) ((grounded_bracketed _).andMaybe ?_)) _
      exact fun _ m _ _ => grounded_declaring m _ _ _
    refine .dite (fun hat => ?_) fun _ => ?_
    · exact .mono (.behind (takes_of_at? hat) (grounded_constant _)) _
    refine .dite (fun _ => ?_) fun _ => ?_
    · exact (grounded_typeFirst c).andMaybe fun _ m _ _ => grounded_declaring m _ _ _
    refine .dite (fun hat => ?_) fun _ => grounded_assignment c
    exact .mono (.behind (takes_of_at? hat) (ihItems hat).map) _
  case case2 =>
    intro c hat
    rw [items, dif_pos hat]
    exact .ok (takes_of_at? hat)
  case case3 =>
    intro c hat hend
    rw [items, dif_neg hat, if_pos hend]
    exact .raised (.closingBrace hend)
  case case4 =>
    intro c hat hend ihStatement ihItems
    rw [items, dif_neg hat, if_neg hend]
    exact ihStatement.andThen fun s m hm _ => (ihItems m hm).map
  case case5 =>
    intro c hat _ ih
    rw [alternative, dif_pos hat]
    exact .mono (.behind (takes_of_at? hat) ih.map) _
  case case6 =>
    intro c hat
    rw [alternative, dif_neg hat]
    exact .ok (Cursor.takes_nil.mpr rfl)
  case case7 =>
    intro c hat _ ih
    rw [branch, dif_pos hat]
    exact .mono (.behind (takes_of_at? hat) ih) _
  case case8 =>
    intro c hat ih
    rw [branch, dif_neg hat]
    exact ih.map

theorem grounded_statement (c : Cursor) : Grounded c (statement c) := grounded_statements.1 c

/-! ### Whole inputs -/

/-- The error was raised at a place that tokens from `c` on lead to. -/
def Cursor.Blames (c : Cursor) (e : SyntaxError) : Prop := ∃ ts m, c.Takes ts m ∧ m.Raises e

theorem Reply.Grounded.blames {c : Cursor} {α : Type} {n : Nat} {x : Reply n α} {e : SyntaxError}
    (h : Grounded c x) (hx : whole x = .error e) : c.Blames e := by
  cases h with
  | @ok a m _ ts hts =>
    rw [whole] at hx
    split at hx
    · cases hx
    · rename_i hend
      cases hx
      exact ⟨ts, m, hts, .endOfInput (by simpa using hend)⟩
  | @error e' m m' ts hts he =>
    cases hx
    exact ⟨ts, m', hts, he⟩

theorem program_blames {c : Cursor} {e : SyntaxError} (h : program c = .error e) : c.Blames e := by
  fun_induction program c with
  | case1 c hend => cases h
  | case2 c hend s m hm hs ih =>
    have hgrounded := grounded_statement c
    rw [hs] at hgrounded
    cases hgrounded with
    | @ok _ _ _ ts hts =>
      cases hp : program m with
      | ok body =>
        rw [hp] at h
        cases h
      | error e' =>
        rw [hp] at h
        cases h
        obtain ⟨us, m', hus, he⟩ := ih hp
        exact ⟨ts ++ us, m', hts.append hus, he⟩
  | case3 c hend e' m he =>
    have hgrounded := grounded_statement c
    rw [he] at hgrounded
    cases h
    cases hgrounded with
    | @error _ _ m' ts hts he => exact ⟨ts, m', hts, he⟩

end EggLang.Parse
