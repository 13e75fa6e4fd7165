import EggLang.Proofs.Layout
import EggLang.Proofs.Parse.Failure
import EggLang.Proofs.Program

/-! Where the nodes of a tree stand in its text. Each starts and ends with tokens, lies within the
node above it, and stands behind the nodes that come before it there. -/

namespace EggLang

/-! ### Spans -/

/-- The span goes from the start of a token to the end of one, and is not empty. -/
structure Marks (ts : List Token) (s : Span) : Prop where
  start : ∃ t ∈ ts, t.span.start = s.start
  stop : ∃ t ∈ ts, t.kind ≠ .endOfFile ∧ t.span.stop = s.stop
  pos : s.start.offset < s.stop.offset

/-- The spans stand one behind the other between the offsets `lo` and `hi`. -/
def InOrder : Nat → List Span → Nat → Prop
  | lo, [], hi => lo ≤ hi
  | lo, s :: rest, hi =>
    lo ≤ s.start.offset ∧ s.start.offset ≤ s.stop.offset ∧ InOrder s.stop.offset rest hi

namespace InOrder

variable {lo lo' mid hi hi' : Nat} {parts others : List Span}

theorem le (h : InOrder lo parts hi) : lo ≤ hi := by
  induction parts generalizing lo with
  | nil => exact h
  | cons s rest ih => exact Nat.le_trans h.1 (Nat.le_trans h.2.1 (ih h.2.2))

theorem mono (h : InOrder lo parts hi) (hlo : lo' ≤ lo) (hhi : hi ≤ hi') :
    InOrder lo' parts hi' := by
  induction parts generalizing lo lo' with
  | nil => exact Nat.le_trans hlo (Nat.le_trans h hhi)
  | cons s rest ih => exact ⟨Nat.le_trans hlo h.1, h.2.1, ih h.2.2 (Nat.le_refl _)⟩

theorem append (h : InOrder lo parts mid) (h' : InOrder mid others hi) :
    InOrder lo (parts ++ others) hi := by
  induction parts generalizing lo with
  | nil => exact h'.mono h (Nat.le_refl _)
  | cons s rest ih => exact ⟨h.1, h.2.1, ih h.2.2⟩

/-- Each of the spans stands between the two offsets. -/
theorem of_mem (h : InOrder lo parts hi) {s : Span} (hs : s ∈ parts) : InOrder lo [s] hi := by
  induction parts generalizing lo with
  | nil => exact nomatch hs
  | cons t rest ih =>
    rcases List.mem_cons.mp hs with rfl | hs
    · exact ⟨h.1, h.2.1, h.2.2.le⟩
    · exact (ih h.2.2 hs).mono (Nat.le_trans h.1 h.2.1) (Nat.le_refl _)

end InOrder

/-- Where the first span starts before the second one and ends before it, or where it does, the two
together go from the start of the first to the end of the second. -/
theorem Marks.join {ts : List Token} {s t : Span} (hs : Marks ts s) (ht : Marks ts t)
    (hstart : s.start.offset ≤ t.start.offset) (hstop : s.stop.offset ≤ t.stop.offset) :
    Marks ts (s.join t) ∧ (s.join t).start.offset = s.start.offset ∧
      (s.join t).stop.offset = t.stop.offset := by
  have hlo : (s.join t).start.offset = s.start.offset := by
    rw [Span.join, Position.offset_earlier, Nat.min_eq_left hstart]
  have hhi : (s.join t).stop.offset = t.stop.offset := by
    rw [Span.join, Position.offset_later, Nat.max_eq_right hstop]
  refine ⟨⟨?_, ?_, ?_⟩, hlo, hhi⟩
  · rcases s.start.earlier_eq t.start with h | h
    · rw [Span.join, h]
      exact hs.start
    · rw [Span.join, h]
      exact ht.start
  · rcases s.stop.later_eq t.stop with h | h
    · rw [Span.join, h]
      exact hs.stop
    · rw [Span.join, h]
      exact ht.stop
  · have hpos := ht.pos
    omega

/-! ### Trees -/

/-- The nodes of the expression start and end with tokens of `ts`. Those below a node lie in it, one
behind the other. -/
inductive Expr.Nested (ts : List Token) : Expr → Prop
  | literal {v : Value} {span : Span} : Marks ts span → Nested ts (literal v span)
  | var {id : Ident} : Marks ts id.span → Nested ts (var id)
  | unary {op : UnaryOp} {operand : Expr} {span : Span} : Marks ts span → Nested ts operand →
      InOrder span.start.offset [operand.span] span.stop.offset →
      Nested ts (unary op operand span)
  | binary {op : BinaryOp} {lhs rhs : Expr} {span : Span} : Marks ts span → Nested ts lhs →
      Nested ts rhs → InOrder span.start.offset [lhs.span, rhs.span] span.stop.offset →
      Nested ts (binary op lhs rhs span)
  | assign {target : Ident} {e : Expr} {span : Span} : Marks ts span → Marks ts target.span →
      Nested ts e → InOrder span.start.offset [target.span, e.span] span.stop.offset →
      Nested ts (assign target e span)

/-- The nodes of the statement start and end with tokens of `ts`. Those below a node lie in it, one
behind the other, but for the value of an assignment, which an increment makes from its target. -/
inductive Stmt.Nested (ts : List Token) : Stmt → Prop
  | print {e : Expr} {span : Span} : Marks ts span → e.Nested ts →
      InOrder span.start.offset [e.span] span.stop.offset → Nested ts (print e span)
  | declare {d : Declaration} {span : Span} : Marks ts span → Marks ts d.id.span →
      (∀ e ∈ d.initializer, e.Nested ts) →
      InOrder span.start.offset (d.id.span :: d.initializer.toList.map Expr.span)
        span.stop.offset → Nested ts (declare d span)
  | assign {target : Ident} {e : Expr} {span : Span} : Marks ts span → Marks ts target.span →
      e.Nested ts → InOrder span.start.offset [target.span] span.stop.offset →
      InOrder span.start.offset [e.span] span.stop.offset → Nested ts (assign target e span)
  | ifElse {condition : Expr} {body : List Stmt} {otherwise : Option (List Stmt)} {span : Span} :
      Marks ts span → condition.Nested ts → (∀ s ∈ body, Nested ts s) →
      (∀ other ∈ otherwise, ∀ s ∈ other, Nested ts s) →
      InOrder span.start.offset (condition.span :: (body ++ otherwise.getD []).map Stmt.span)
        span.stop.offset → Nested ts (ifElse condition body otherwise span)
  | block {body : List Stmt} {span : Span} : Marks ts span → (∀ s ∈ body, Nested ts s) →
      InOrder span.start.offset (body.map Stmt.span) span.stop.offset →
      Nested ts (block body span)

/-- The statements are nested, and stand one behind the other between two offsets. -/
structure Stmt.AllNested (ts : List Token) (lo : Nat) (body : List Stmt) (hi : Nat) : Prop where
  nested : ∀ s ∈ body, s.Nested ts
  place : InOrder lo (body.map Stmt.span) hi

/-- The expression is nested, and stands between two offsets. -/
structure Expr.NestedIn (ts : List Token) (lo : Nat) (e : Expr) (hi : Nat) : Prop where
  nested : e.Nested ts
  place : InOrder lo [e.span] hi

theorem Expr.Nested.marks {ts : List Token} {e : Expr} (h : e.Nested ts) : Marks ts e.span := by
  cases h <;> assumption

theorem Expr.NestedIn.mono {ts : List Token} {lo lo' hi hi' : Nat} {e : Expr}
    (h : e.NestedIn ts lo hi) (hlo : lo' ≤ lo) (hhi : hi ≤ hi') : e.NestedIn ts lo' hi' :=
  ⟨h.nested, h.place.mono hlo hhi⟩

namespace Stmt.AllNested

variable {ts : List Token} {lo lo' mid hi hi' : Nat} {body rest : List Stmt}

theorem mono (h : AllNested ts lo body hi) (hlo : lo' ≤ lo) (hhi : hi ≤ hi') :
    AllNested ts lo' body hi' :=
  ⟨h.nested, h.place.mono hlo hhi⟩

theorem append (h : AllNested ts lo body mid) (h' : AllNested ts mid rest hi) :
    AllNested ts lo (body ++ rest) hi where
  nested := List.forall_mem_append.mpr ⟨h.nested, h'.nested⟩
  place := by
    rw [List.map_append]
    exact h.place.append h'.place

end Stmt.AllNested

namespace Parse

/-! ### Cursors -/

namespace Cursor

/-- The offset where the token ahead starts. -/
def here (c : Cursor) : Nat := c.current.span.start.offset

/-- The offset where the token behind ends. -/
def past (c : Cursor) : Nat := c.behind.stop.offset

/-- The tokens ahead are some of `ts`, and stand behind the cursor in a text of `size` bytes. -/
structure Settled (ts : List Token) (size : Nat) (c : Cursor) : Prop where
  mem : ∀ t ∈ c.ahead, t ∈ ts
  pos : ∀ t ∈ c.ahead, t.kind ≠ .endOfFile → t.span.start.offset < t.span.stop.offset
  ordered : InOrder c.past (c.ahead.map Token.span) size

/-- Tokens from `c` on lead to `c'`, one or more. -/
structure Passed (ts : List Token) (size : Nat) (c c' : Cursor) : Prop where
  settled : c'.Settled ts size
  first : Marks ts c.current.span
  last : Marks ts c'.behind
  start_le : c.here ≤ c'.behind.start.offset
  stop_le : c.current.span.stop.offset ≤ c'.past

variable {ts : List Token} {size : Nat} {c m c' : Cursor}

theorem Settled.past_le_here (h : c.Settled ts size) : c.past ≤ c.here := by
  obtain ⟨ahead, behind⟩ := c
  cases ahead with
  | nil => exact Nat.le_refl _
  | cons t rest => exact h.ordered.1

theorem Settled.advance (h : c.Settled ts size) (hkind : c.current.kind ≠ .endOfFile) :
    c.Passed ts size c.advance := by
  obtain ⟨ahead, behind⟩ := c
  cases ahead with
  | nil => exact absurd rfl hkind
  | cons t rest =>
    have hmem := List.forall_mem_cons.mp h.mem
    have hpos := List.forall_mem_cons.mp h.pos
    have hmarks : Marks ts t.span := ⟨⟨t, hmem.1, rfl⟩, ⟨t, hmem.1, hkind, rfl⟩, hpos.1 hkind⟩
    exact ⟨⟨hmem.2, hpos.2, h.ordered.2.2⟩, hmarks, hmarks, Nat.le_refl _, Nat.le_refl _⟩

theorem Settled.advance_of_at? (h : c.Settled ts size) {kind : TokenKind} {text : String}
    (hat : c.at? kind text = true) (hkind : kind ≠ .endOfFile := by decide) :
    c.Passed ts size c.advance :=
  h.advance (by rwa [kind_of_at? hat])

namespace Passed

theorem lt (h : c.Passed ts size c') : c.here < c'.past :=
  Nat.lt_of_le_of_lt h.start_le h.last.pos

theorem here_le (h : c.Passed ts size c') : c.here ≤ c'.here :=
  Nat.le_trans (Nat.le_of_lt h.lt) h.settled.past_le_here

theorem past_le (h : c.Passed ts size c') (hc : c.Settled ts size) : c.past ≤ c'.past :=
  Nat.le_trans hc.past_le_here (Nat.le_of_lt h.lt)

theorem trans (h : c.Passed ts size m) (h' : m.Passed ts size c') : c.Passed ts size c' where
  settled := h'.settled
  first := h.first
  last := h'.last
  start_le := Nat.le_trans h.here_le h'.start_le
  stop_le := Nat.le_trans h.stop_le (h'.past_le h.settled)

/-- The span of a node that starts with the token ahead and ends with the last one taken. -/
theorem join (h : c.Passed ts size c') : Marks ts (c.current.span.join c'.behind) ∧
    (c.current.span.join c'.behind).start.offset = c.here ∧
    (c.current.span.join c'.behind).stop.offset = c'.past :=
  h.first.join h.last h.start_le h.stop_le

/-- The span of a node that starts with one behind the cursor and goes on with others up to the last
token taken. -/
theorem join_behind (h : c.Passed ts size c') (hc : c.Settled ts size) {s : Span}
    {others : List Span} {lo : Nat} (hs : Marks ts s) (hplace : InOrder lo [s] c.past)
    (hothers : InOrder c.past others c'.past) : Marks ts (s.join c'.behind) ∧
    InOrder (s.join c'.behind).start.offset (s :: others) (s.join c'.behind).stop.offset ∧
    InOrder lo [s.join c'.behind] c'.past := by
  obtain ⟨hlo, hpos, hstop⟩ := hplace
  have hstart : s.start.offset ≤ c'.behind.start.offset :=
    Nat.le_trans hpos (Nat.le_trans hstop (Nat.le_trans hc.past_le_here h.start_le))
  have hpast := Nat.le_trans hstop (h.past_le hc)
  obtain ⟨hmarks, hfirst, hlast⟩ := hs.join h.last hstart hpast
  refine ⟨hmarks, ?_, ?_⟩
  · rw [hfirst, hlast]
    exact ⟨Nat.le_refl _, hpos, hothers.mono hstop (Nat.le_refl _)⟩
  · exact ⟨hfirst ▸ hlo, Nat.le_of_lt hmarks.pos, Nat.le_of_eq hlast⟩

end Passed

theorem Settled.takes (h : c.Settled ts size) {t : Token} {us : List Token}
    (hus : c.Takes (t :: us) c') : c.Passed ts size c' := by
  induction us generalizing c t with
  | nil =>
    obtain ⟨rfl, hkind, rfl⟩ := hus
    exact h.advance hkind
  | cons u us ih =>
    obtain ⟨rfl, hkind, hus⟩ := hus
    have hstep := h.advance hkind
    exact hstep.trans (ih hstep.settled hus)

theorem Settled.passed (h : c.Settled ts size) {α : Type} {n : Nat} {x : Reply n α} {a : α}
    (hx : x.Progress c) (hgives : x.Gives a c') : c.Passed ts size c' := by
  obtain ⟨t, us, hus⟩ := hx.pos_of_gives a c' hgives
  exact h.takes hus

end Cursor

section

variable {ts : List Token} {size : Nat} {c m c' : Cursor}

/-! ### Expressions -/

theorem nested_of_atom {t : Token} {e : Expr} (ht : Marks ts t.span) :
    atom t = .ok e → e.Nested ts ∧ e.span = t.span := by
  fun_cases atom t with
  | case1 | case3 | case4 | case5 =>
    rintro ⟨⟩
    exact ⟨.literal ht, rfl⟩
  | case7 =>
    rintro ⟨⟩
    exact ⟨.var ht, rfl⟩
  | _ => rintro ⟨⟩

theorem nested_unary (op : UnaryOp) {operand : Expr} (hc : c.Passed ts size c.advance)
    (hm : c.advance.Passed ts size m) (h : operand.NestedIn ts c.advance.here m.past) :
    (Expr.unary op operand (c.current.span.join m.behind)).NestedIn ts c.here m.past := by
  obtain ⟨hmarks, hstart, hstop⟩ := (hc.trans hm).join
  refine ⟨.unary hmarks h.nested (h.place.mono ?_ ?_), ?_⟩
  · rw [hstart]
    exact hc.here_le
  · rw [hstop]
  · exact ⟨Nat.le_of_eq hstart.symm, Nat.le_of_lt hmarks.pos, Nat.le_of_eq hstop⟩

/-- What stands behind an operator stands behind what is before it. -/
theorem inOrder_behind {parts : List Span} {hi : Nat} (hc : c.Settled ts size)
    (hoperator : c.Passed ts size c.advance) (h : InOrder c.advance.here parts hi) :
    InOrder c.past parts hi :=
  h.mono (Nat.le_trans hc.past_le_here hoperator.here_le) (Nat.le_refl _)

theorem nested_binary (op : BinaryOp) {lhs rhs : Expr} {lo : Nat} (hc : c.Settled ts size)
    (hoperator : c.Passed ts size c.advance) (hm : c.advance.Passed ts size m)
    (hl : lhs.NestedIn ts lo c.past) (hr : rhs.NestedIn ts c.advance.here m.past) :
    (Expr.binary op lhs rhs (lhs.span.join m.behind)).NestedIn ts lo m.past := by
  obtain ⟨hmarks, horder, hplace⟩ := (hoperator.trans hm).join_behind hc hl.nested.marks hl.place
    (inOrder_behind hc hoperator hr.place)
  exact ⟨.binary hmarks hl.nested hr.nested horder, hplace⟩

theorem nested_assign {target : Ident} {rhs : Expr} {lo : Nat} (hc : c.Settled ts size)
    (hoperator : c.Passed ts size c.advance) (hm : c.advance.Passed ts size m)
    (hl : (Expr.var target).NestedIn ts lo c.past) (hr : rhs.NestedIn ts c.advance.here m.past) :
    (Expr.assign target rhs ((Expr.var target).span.join m.behind)).NestedIn ts lo m.past := by
  obtain ⟨hmarks, horder, hplace⟩ := (hoperator.trans hm).join_behind hc hl.nested.marks hl.place
    (inOrder_behind hc hoperator hr.place)
  exact ⟨.assign hmarks hl.nested.marks hr.nested horder, hplace⟩

theorem expressions_nested :
    (∀ floor c, c.Settled ts size → ∀ e m, (expression floor c).Gives e m →
      e.NestedIn ts c.here m.past) ∧
    (∀ c, c.Settled ts size → ∀ e m, (primary c).Gives e m → e.NestedIn ts c.here m.past) ∧
    (∀ floor lhs c, c.Settled ts size → ∀ lo, lhs.NestedIn ts lo c.past → ∀ e m,
      (extend floor lhs c).Gives e m → e.NestedIn ts lo m.past) := by
  apply expression.mutual_induct
  case case1 =>
    intro floor c op hop _ ihOperand ihExtend hc e c' h
    rcases expression_gives.mp h with ⟨op', operand, m, hop', ho, he⟩ | ⟨hnone, -⟩
    · cases hop.symm.trans hop'
      have hstep := hc.advance (by simp [kind_of_unary? hop])
      have hm := hstep.settled.passed (expression_progress _ _) ho
      have hunary := nested_unary op hstep hm (ihOperand hstep.settled operand m ho)
      exact ihExtend operand m ho.size_lt hm.settled c.here hunary e c' he
    · cases hop.symm.trans hnone
  case case2 =>
    intro floor c hop ihPrimary ihExtend hc e c' h
    rcases expression_gives.mp h with ⟨op', _, _, hop', -⟩ | ⟨-, lhs, m, hp, he⟩
    · cases hop.symm.trans hop'
    · have hm := hc.passed (primary_progress c) hp
      exact ihExtend lhs m hp.size_lt hm.settled c.here (ihPrimary hc lhs m hp) e c' he
  case case3 =>
    intro c hl _ ih hc e c' h
    rcases primary_gives.mp h with ⟨m, -, hi, hr, rfl⟩ | ⟨hl', -⟩
    · have hstep := hc.advance_of_at? hl
      have hm := hstep.settled.passed (expression_progress _ _) hi
      have hclose := (hm.settled.advance_of_at? hr).past_le hm.settled
      exact (ih hstep.settled e m hi).mono hstep.here_le hclose
    · simp [hl] at hl'
  case case4 =>
    intro c hl e' ha hc e c' h
    rcases primary_gives.mp h with ⟨_, hl', -⟩ | ⟨-, ha', rfl⟩
    · exact absurd hl' hl
    · have hstep := hc.advance (kind_of_atom ha')
      obtain ⟨hnested, hspan⟩ := nested_of_atom hstep.first ha'
      refine ⟨hnested, ?_⟩
      rw [hspan]
      exact ⟨Nat.le_refl _, Nat.le_of_lt hstep.first.pos, hstep.stop_le⟩
  case case5 =>
    intro c hl expected ha hc e c' h
    rcases primary_gives.mp h with ⟨_, hl', -⟩ | ⟨-, ha', -⟩
    · exact absurd hl' hl
    · cases ha.symm.trans ha'
  case case6 =>
    intro floor lhs c hop hc lo hl e c' h
    rcases extend_gives.mp h with ⟨-, rfl, rfl⟩ | ⟨_, _, _, hop', -⟩ | ⟨_, _, _, -, hop', -⟩
    · exact hl
    · cases hop.symm.trans hop'
    · cases hop.symm.trans hop'
  case case7 =>
    intro floor lhs c op hop hfloor _ ihRhs ihBinary ihAssign hc lo hl e c' h
    have hstep := hc.advance (by simp [kind_of_operator? hop])
    rcases extend_gives.mp h with ⟨hstop, -⟩ | ⟨bop, rhs, m, hop', -, hr, he⟩ |
      ⟨target, rhs, m, rfl, hop', -, hr, he⟩
    · simp [hstop op hop] at hfloor
    · cases hop.symm.trans hop'
      have hm := hstep.settled.passed (expression_progress _ _) hr
      have hbinary := nested_binary bop hc hstep hm hl (ihRhs hstep.settled rhs m hr)
      exact ihBinary rhs m hr.size_lt bop lhs hm.settled lo hbinary e c' he
    · cases hop.symm.trans hop'
      have hm := hstep.settled.passed (expression_progress _ _) hr
      have hassign := nested_assign hc hstep hm hl (ihRhs hstep.settled rhs m hr)
      exact ihAssign rhs m hr.size_lt target hm.settled lo hassign e c' he
  case case8 =>
    intro floor lhs c op hop hfloor hc lo hl e c' h
    rcases extend_gives.mp h with ⟨-, rfl, rfl⟩ | ⟨_, _, _, hop', hb', -⟩ |
      ⟨_, _, _, -, hop', hb', -⟩
    · exact hl
    · cases hop.symm.trans hop'
      exact absurd hb' hfloor
    · cases hop.symm.trans hop'
      exact absurd hb' hfloor

theorem expression_nested {floor : Precedence} {e : Expr} (hc : c.Settled ts size)
    (h : (expression floor c).Gives e m) : e.NestedIn ts c.here m.past ∧ c.Passed ts size m :=
  ⟨expressions_nested.1 floor c hc e m h, hc.passed (expression_progress floor c) h⟩

/-! ### Statements without statements inside -/

/-- The statement is nested as soon as it has a span around the offsets `lo` and `hi`. -/
structure Unplaced.Nested (ts : List Token) (lo : Nat) (place : Unplaced) (hi : Nat) : Prop where
  nested : ∀ span, Marks ts span → span.start.offset ≤ lo → hi ≤ span.stop.offset →
    (place span).Nested ts
  span_eq : ∀ span, (place span).span = span

theorem Unplaced.Nested.mono {lo lo' hi hi' : Nat} {place : Unplaced}
    (h : place.Nested ts lo hi) (hlo : lo' ≤ lo) (hhi : hi ≤ hi') : place.Nested ts lo' hi' where
  nested span hmarks hstart hstop :=
    h.nested span hmarks (Nat.le_trans hstart hlo) (Nat.le_trans hhi hstop)
  span_eq := h.span_eq

/-- Between the two cursors stands the name of a declaration. -/
structure Declares (ts : List Token) (size : Nat) (c : Cursor) (id : Ident) (m : Cursor) :
    Prop where
  settled : m.Settled ts size
  marks : Marks ts id.span
  place : InOrder c.here [id.span] m.past

theorem printing_nested {place : Unplaced} (hc : c.Settled ts size)
    (h : (printing c).Gives place c') : place.Nested ts c.here c'.past := by
  obtain ⟨hl, e, m, he, hr, hs, rfl, rfl⟩ := printing_gives.mp h
  have hopen := hc.advance_of_at? hl
  obtain ⟨hvalue, hm⟩ := expression_nested hopen.settled he
  have hclose := hm.settled.advance_of_at? hr
  have hend := hclose.settled.advance_of_at? hs
  have hnested : Unplaced.Nested ts c.advance.here (.print e) m.past :=
    ⟨fun span hmarks hlo hhi => .print hmarks hvalue.nested (hvalue.place.mono hlo hhi),
      fun _ => rfl⟩
  exact hnested.mono hopen.here_le
    ((hclose.trans hend).past_le hm.settled)

theorem bracketed_declares {id : Ident} {type : DataType} (hc : c.Settled ts size)
    (h : (bracketed c).Gives (id, type) m) : Declares ts size c id m := by
  obtain ⟨hk, rfl, hl, ht, hr, rfl⟩ := bracketed_gives.mp h
  have hname := hc.advance (by simp [hk])
  have hopen := hname.settled.advance_of_at? hl
  have htype := hopen.settled.advance (by simp [Cursor.kind_of_typeAhead? ht])
  have hclose := htype.settled.advance_of_at? hr
  have hpast := ((hopen.trans htype).trans hclose).past_le hname.settled
  exact ⟨hclose.settled, hname.first,
    Nat.le_refl _, Nat.le_of_lt hname.first.pos, Nat.le_trans hname.stop_le hpast⟩

theorem typeFirst_declares {id : Ident} {type : DataType} (hc : c.Settled ts size)
    (h : (typeFirst c).Gives (id, type) m) : Declares ts size c id m := by
  obtain ⟨ht, hk, rfl, rfl⟩ := typeFirst_gives.mp h
  have htype := hc.advance (by simp [Cursor.kind_of_typeAhead? ht])
  have hname := htype.settled.advance (by simp [hk])
  exact ⟨hname.settled, hname.first,
    htype.here_le, Nat.le_of_lt hname.first.pos, hname.stop_le⟩

theorem initializer_nested {value : Option Expr} (hc : c.Settled ts size)
    (h : (initializer c).Gives value m) : m.Settled ts size ∧ (∀ e ∈ value, e.Nested ts) ∧
      InOrder c.past (value.toList.map Expr.span) m.past := by
  rcases initializer_gives.mp h with ⟨hop, e, he, rfl⟩ | ⟨-, rfl, rfl⟩
  · have hstep := hc.advance_of_at? hop
    obtain ⟨hvalue, hm⟩ := expression_nested hstep.settled he
    exact ⟨hm.settled, by simpa using hvalue.nested, inOrder_behind hc hstep hvalue.place⟩
  · exact ⟨hc, nofun, Nat.le_refl _⟩

theorem declaring_nested {isConstant : Bool} {id : Ident} {type : DataType} {place : Unplaced}
    (hid : Declares ts size c id m) (h : (declaring isConstant id type m).Gives place c') :
    place.Nested ts c.here c'.past := by
  obtain ⟨value, k, hv, -, hs, rfl, rfl⟩ := declaring_gives.mp h
  obtain ⟨hk, hvalue, hplace⟩ := initializer_nested hid.settled hv
  have hend := (hk.advance_of_at? hs).past_le hk
  refine ⟨fun span hmarks hlo hhi => .declare hmarks hid.marks hvalue ?_, fun _ => rfl⟩
  exact (hid.place.append hplace).mono hlo (Nat.le_trans hend hhi)

theorem constant_nested {place : Unplaced} (hc : c.Settled ts size)
    (h : (constant c).Gives place c') : place.Nested ts c.here c'.past := by
  obtain ⟨id, type, m, hd, h⟩ := constant_gives.mp h
  rcases hd with hd | hd
  · exact declaring_nested (bracketed_declares hc hd) h
  · exact declaring_nested (typeFirst_declares hc hd) h

/-- The value of an increment goes from its target to the operator. -/
theorem increment_nested {id : Ident} {lo : Nat} (hc : c.Settled ts size)
    (hstep : c.Passed ts size c.advance) (hid : (Expr.var id).NestedIn ts lo c.past) :
    (increment id c.current.span).NestedIn ts lo c.advance.past := by
  have hone : InOrder c.past [c.current.span] c.advance.past :=
    ⟨hc.past_le_here, Nat.le_of_lt hstep.first.pos, hstep.stop_le⟩
  obtain ⟨hmarks, horder, hplace⟩ := hstep.join_behind hc hid.nested.marks hid.place hone
  exact ⟨.binary hmarks hid.nested (.literal hstep.first) horder, hplace⟩

theorem assignment_nested {place : Unplaced} (hc : c.Settled ts size)
    (h : (assignment c).Gives place c') : place.Nested ts c.here c'.past := by
  obtain ⟨e, m, he, h⟩ := assignment_gives.mp h
  obtain ⟨he, hm⟩ := expression_nested hc he
  rcases h with ⟨target, value, span, rfl, hs, rfl, rfl⟩ | ⟨id, rfl, hop, hs, rfl, rfl⟩
  · have hend := (hm.settled.advance_of_at? hs).past_le hm.settled
    cases he.nested with
    | assign hmarks htarget hvalue horder =>
      obtain ⟨hstart, -, hstop⟩ := he.place
      have horder := horder.mono hstart (Nat.le_trans hstop hend)
      refine ⟨fun span hmarks hlo hhi => .assign hmarks htarget hvalue ?_ ?_, fun _ => rfl⟩
      · exact (horder.of_mem (by simp)).mono hlo hhi
      · exact (horder.of_mem (by simp)).mono hlo hhi
  · have hstep := hm.settled.advance_of_at? hop
    have hend := (hstep.settled.advance_of_at? hs).past_le hstep.settled
    have hvalue := increment_nested hm.settled hstep he
    have hpast := hstep.past_le hm.settled
    refine ⟨fun span hmarks hlo hhi => .assign hmarks he.nested.marks hvalue.nested ?_ ?_,
      fun _ => rfl⟩
    · exact he.place.mono hlo (by omega)
    · exact hvalue.place.mono hlo (by omega)

/-! ### Statements -/

/-- The span of a statement goes from the token ahead to the last one taken. -/
theorem Unplaced.Nested.allNested {place : Unplaced} (hc : c.Passed ts size c')
    (h : place.Nested ts c.here c'.past) :
    Stmt.AllNested ts c.here [place (c.current.span.join c'.behind)] c'.past := by
  obtain ⟨hmarks, hstart, hstop⟩ := hc.join
  refine ⟨List.forall_mem_singleton.mpr ?_, ?_⟩
  · exact h.nested _ hmarks (Nat.le_of_eq hstart) (Nat.le_of_eq hstop.symm)
  · rw [List.map_singleton, h.span_eq]
    exact ⟨Nat.le_of_eq hstart.symm, Nat.le_of_lt hmarks.pos, Nat.le_of_eq hstop⟩

theorem ifElse_nested {condition : Expr} {body : List Stmt} {otherwise : Option (List Stmt)}
    {lo mid hi : Nat} (hcondition : condition.NestedIn ts lo c.past)
    (hbody : Stmt.AllNested ts c.past body mid)
    (hother : Stmt.AllNested ts mid (otherwise.getD []) hi) :
    Unplaced.Nested ts lo (.ifElse condition body otherwise) hi := by
  have horder := hcondition.place.append (hbody.append hother).place
  refine ⟨fun span hmarks hlo hhi => .ifElse hmarks hcondition.nested hbody.nested ?_
    (horder.mono hlo hhi), fun _ => rfl⟩
  rintro _ ⟨⟩
  exact hother.nested

theorem statements_nested :
    (∀ c, c.Settled ts size → ∀ s c', (statement c).Gives s c' →
      Stmt.AllNested ts c.here [s] c'.past) ∧
    (∀ c, c.Settled ts size → ∀ body c', (items c).Gives body c' →
      Stmt.AllNested ts c.here body c'.past) ∧
    (∀ c, c.Settled ts size → ∀ otherwise c', (alternative c).Gives otherwise c' →
      Stmt.AllNested ts c.past (otherwise.getD []) c'.past) ∧
    (∀ c, c.Settled ts size → ∀ body c', (branch c).Gives body c' →
      Stmt.AllNested ts c.here body c'.past) := by
  apply statement.mutual_induct
  case case1 =>
    intro c ihBranch ihAlternative ihItems hc s c' h
    have hpassed := hc.passed (statement_progress c) h
    obtain ⟨place, rfl, hplace⟩ := statement_gives.mp h
    refine Unplaced.Nested.allNested hpassed ?_
    rcases hplace with ⟨hk, h⟩ | ⟨hk, condition, k, hcondition, body, m, hb, otherwise, ho, rfl⟩ |
      ⟨hk, id, type, m, hd, h⟩ | ⟨hk, h⟩ | ⟨-, id, type, m, hd, h⟩ | ⟨hl, body, hb, rfl⟩ | ⟨-, h⟩
    · have hstep := hc.advance_of_at? hk
      exact (printing_nested hstep.settled h).mono hstep.here_le (Nat.le_refl _)
    · have hstep := hc.advance_of_at? hk
      obtain ⟨hcond, hk'⟩ := expression_nested hstep.settled hcondition
      have hm := hk'.settled.passed (branch_progress k) hb
      have hbody := ihBranch hk k hcondition.size_lt hk'.settled body m hb
      have hother := ihAlternative hk k hcondition.size_lt m hb.size_lt hm.settled otherwise c' ho
      refine ifElse_nested (hcond.mono hstep.here_le (Nat.le_refl _)) ?_ hother
      exact hbody.mono hk'.settled.past_le_here (Nat.le_refl _)
    · have hstep := hc.advance_of_at? hk
      exact (declaring_nested (bracketed_declares hstep.settled hd) h).mono
        hstep.here_le (Nat.le_refl _)
    · have hstep := hc.advance_of_at? hk
      exact (constant_nested hstep.settled h).mono hstep.here_le (Nat.le_refl _)
    · exact declaring_nested (typeFirst_declares hc hd) h
    · have hstep := hc.advance_of_at? hl
      have hbody := (ihItems hl hstep.settled body c' hb).mono hstep.here_le
        (Nat.le_refl _)
      exact ⟨fun span hmarks hlo hhi => .block hmarks hbody.nested (hbody.place.mono hlo hhi),
        fun _ => rfl⟩
    · exact assignment_nested hc h
  case case2 =>
    intro c hr hc body c' h
    rcases items_gives.mp h with ⟨-, rfl, rfl⟩ | ⟨hr', -⟩
    · exact ⟨List.forall_mem_nil _, Nat.le_of_lt (hc.advance_of_at? hr).lt⟩
    · simp [hr] at hr'
  case case3 =>
    intro c hr hend hc body c' h
    rcases items_gives.mp h with ⟨hr', -⟩ | ⟨-, hend', -⟩
    · exact absurd hr' hr
    · simp [hend] at hend'
  case case4 =>
    intro c hr hend ihStatement ihItems hc body c' h
    rcases items_gives.mp h with ⟨hr', -⟩ | ⟨-, -, s, m, rest, hs, hrest, rfl⟩
    · exact absurd hr' hr
    · have hm := hc.passed (statement_progress c) hs
      have hitems := ihItems m hs.size_lt hm.settled rest c' hrest
      exact (ihStatement hc s m hs).append
        (hitems.mono hm.settled.past_le_here (Nat.le_refl _))
  case case5 =>
    intro c he _ ih hc otherwise c' h
    rcases alternative_gives.mp h with ⟨-, body, hb, rfl⟩ | ⟨he', -⟩
    · have hstep := hc.advance_of_at? he
      refine (ih hstep.settled body c' hb).mono ?_ (Nat.le_refl _)
      exact Nat.le_trans hc.past_le_here hstep.here_le
    · simp [he] at he'
  case case6 =>
    intro c he hc otherwise c' h
    rcases alternative_gives.mp h with ⟨he', -⟩ | ⟨-, rfl, rfl⟩
    · exact absurd he' he
    · exact ⟨List.forall_mem_nil _, Nat.le_refl _⟩
  case case7 =>
    intro c hl _ ih hc body c' h
    rcases branch_gives.mp h with ⟨-, hb⟩ | ⟨hl', -⟩
    · have hstep := hc.advance_of_at? hl
      exact (ih hstep.settled body c' hb).mono hstep.here_le (Nat.le_refl _)
    · simp [hl] at hl'
  case case8 =>
    intro c hl ih hc body c' h
    rcases branch_gives.mp h with ⟨hl', -⟩ | ⟨-, s, hs, rfl⟩
    · exact absurd hl' hl
    · exact ih hc s c' hs

theorem statement_nested {s : Stmt} (hc : c.Settled ts size) (h : (statement c).Gives s m) :
    Stmt.AllNested ts c.here [s] m.past ∧ c.Passed ts size m :=
  ⟨statements_nested.1 c hc s m h, hc.passed (statement_progress c) h⟩

theorem program_nested {body : List Stmt} (hc : c.Settled ts size) (h : program c = .ok body) :
    Stmt.AllNested ts c.past body size := by
  induction c using program.induct generalizing body with
  | case1 c hend =>
    rcases program_eq_ok_iff.mp h with ⟨-, rfl⟩ | ⟨hend', -⟩
    · exact ⟨List.forall_mem_nil _, hc.ordered.le⟩
    · simp [hend] at hend'
  | case2 c hend s m hm hs ih =>
    rcases program_eq_ok_iff.mp h with ⟨hend', -⟩ | ⟨-, s', m', hs', rest, hrest, rfl⟩
    · exact absurd hend' hend
    · obtain ⟨_, hs'⟩ := hs'
      cases hs.symm.trans hs'
      obtain ⟨hstatement, hpassed⟩ := statement_nested hc ⟨hm, hs⟩
      exact (hstatement.mono hc.past_le_here (Nat.le_refl _)).append (ih hpassed.settled hrest)
  | case3 c hend e m he =>
    rcases program_eq_ok_iff.mp h with ⟨hend', -⟩ | ⟨-, s', m', ⟨_, hs'⟩, -⟩
    · exact absurd hend' hend
    · cases he.symm.trans hs'

end

end Parse

/-! ### Texts -/

open Parse

theorem Layout.inOrder {before text : List Char} {ts : List Token} (h : Layout before ts text) :
    InOrder (Position.behind before).offset (ts.map Token.span)
      (Position.behind (before ++ text)).offset := by
  induction h with
  | last _ => exact ⟨Position.offset_le_behind _ _, Nat.le_refl _, Nat.le_refl _⟩
  | token _ _ _ _ hspan _ ih =>
    rw [List.map_cons, hspan]
    refine ⟨Position.offset_le_behind _ _, Position.offset_le_behind _ _, ?_⟩
    simpa using ih

theorem settled_of_tokenize {text : String} {ts : List Token} (h : tokenize text = .ok ts) :
    (Cursor.ofTokens ts).Settled ts text.utf8ByteSize := by
  have hlayout : Layout [] ts text.toList := Source.layout_of_tokens Position.behind_nil.symm h
  refine ⟨fun t ht => ht, fun t ht hkind => ?_, ?_⟩
  · obtain ⟨front, word, rest, -, hword, -, hspan⟩ := hlayout.exists_word ht hkind
    rw [hspan]
    exact Position.offset_lt_of_ne_nil front hword
  · have horder := hlayout.inOrder
    rwa [List.nil_append, show (Position.behind text.toList).offset = text.utf8ByteSize by
      rw [Position.behind, String.ofList_toList]] at horder

/-- The nodes of parsed trees start and end with tokens of the text, lie in the nodes above them,
and stand one behind the other there. -/
theorem parsed_nested (text : String) :
    (∀ body, parseProgram text = .ok body →
      ∃ ts, tokenize text = .ok ts ∧ Stmt.AllNested ts 0 body text.utf8ByteSize) ∧
    (∀ s, parseStatement text = .ok s →
      ∃ ts, tokenize text = .ok ts ∧ Stmt.AllNested ts 0 [s] text.utf8ByteSize) ∧
    ∀ e, parseExpression text = .ok e →
      ∃ ts, tokenize text = .ok ts ∧ e.NestedIn ts 0 text.utf8ByteSize := by
  refine ⟨fun body h => ?_, fun s h => ?_, fun e h => ?_⟩
  · obtain ⟨ts, hts, hp⟩ := parseWith_eq_ok_iff.mp h
    exact ⟨ts, hts, program_nested (settled_of_tokenize hts) hp⟩
  · obtain ⟨ts, hts, hp⟩ := parseWith_eq_ok_iff.mp h
    obtain ⟨m, hs, -⟩ := Grammar.whole_eq_ok_iff.mp hp
    obtain ⟨hnested, hpassed⟩ := statement_nested (settled_of_tokenize hts) hs
    exact ⟨ts, hts, hnested.mono (Nat.zero_le _) hpassed.settled.ordered.le⟩
  · obtain ⟨ts, hts, hp⟩ := parseWith_eq_ok_iff.mp h
    obtain ⟨m, he, -⟩ := Grammar.whole_eq_ok_iff.mp hp
    obtain ⟨hnested, hpassed⟩ := expression_nested (settled_of_tokenize hts) he
    exact ⟨ts, hts, hnested.mono (Nat.zero_le _) hpassed.settled.ordered.le⟩

/-- A condition in parentheses, an increment in a block, and a statement without braces. -/
theorem parsed_nested_increment : ∃ body ts,
    parseProgram "if (a) \x7b b++; \x7d else c = -(d);" = .ok body ∧
    tokenize "if (a) \x7b b++; \x7d else c = -(d);" = .ok ts ∧ Stmt.AllNested ts 0 body 30 := by
  obtain ⟨body, hbody⟩ := exists_of_isOk
    (show (parseProgram "if (a) \x7b b++; \x7d else c = -(d);").isOk = true by decide +kernel)
  obtain ⟨ts, hts, hnested⟩ := (parsed_nested _).1 body hbody
  exact ⟨body, ts, hbody, hts, hnested⟩

end EggLang
