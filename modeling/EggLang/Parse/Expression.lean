import EggLang.Number.Numeral
import EggLang.Parse.Cursor

/-! Parsing expressions by the precedence of operators. A prefix operator and its operand, or a
primary expression, is extended to the right as long as the operator that follows binds above the
precedence on the left. -/

namespace EggLang.Parse

theorem kind_of_unary? {t : Token} {op : UnaryOp} (h : UnaryOp.ofToken? t = some op) :
    t.kind = .operator := by
  simp only [UnaryOp.ofToken?] at h
  split at h
  · assumption
  · exact nomatch h

theorem kind_of_operator? {t : Token} {op : Operator} (h : Operator.ofToken? t = some op) :
    t.kind = .operator := by
  simp only [Operator.ofToken?] at h
  split at h
  · assumption
  · exact nomatch h

/-- What the token ahead stands for as an operand of its own, without parentheses. -/
def atom (t : Token) : Except Expectation Expr :=
  match t.kind with
  | .number =>
    match Number.read? t.text with
    | some n => .ok (.literal (.number n) t.span)
    | none => .error .numeral
  | .string => .ok (.literal (.string t.text) t.span)
  | .freeKeyword =>
    if t.text = "true" then .ok (.literal (.boolean true) t.span)
    else if t.text = "false" then .ok (.literal (.boolean false) t.span)
    else .error .expression
  | .identifier => .ok (.var ⟨t.text, t.span⟩)
  | _ => .error .expression

theorem kind_of_atom {t : Token} {e : Expr} (h : atom t = .ok e) : t.kind ≠ .endOfFile := by
  intro hk
  simp [atom, hk] at h

mutual

/-- An expression whose operators bind above `floor`. -/
def expression (floor : Precedence) (c : Cursor) : Reply c.size Expr :=
  match h : UnaryOp.ofToken? c.current with
  | some op =>
    have shorter := Cursor.advance_size_lt (c := c) (by simp [kind_of_unary? h])
    ((expression .unary c.advance).andMaybe fun operand rest _ =>
      extend floor (.unary op operand (c.current.span.join rest.behind)) rest).mono
        c.advance_size_le
  | none => (primary c).andMaybe fun lhs rest _ => extend floor lhs rest
termination_by 2 * c.size + 1

/-- The expression `lhs` with the operators that follow it and bind above `floor`. The left side of
an assignment is looked at only once its right side is parsed. -/
def extend (floor : Precedence) (lhs : Expr) (c : Cursor) : Reply (c.size + 1) Expr :=
  match h : Operator.ofToken? c.current with
  | none => .ok lhs c c.size_lt_succ
  | some op =>
    if op.bindsAbove floor then
      have shorter := Cursor.advance_size_lt (c := c) (by simp [kind_of_operator? h])
      ((expression op.precedence c.advance).andMaybe fun rhs rest _ =>
        let span := lhs.span.join rest.behind
        match op, lhs with
        | .binary op, lhs => extend floor (.binary op lhs rhs span) rest
        | .assignment, .var target => extend floor (.assign target rhs span) rest
        | .assignment, lhs => .error ⟨.assignable, .expression lhs, c.current.span⟩ rest).mono
          c.advance_size_le_succ
    else .ok lhs c c.size_lt_succ
termination_by 2 * c.size

/-- An atom or an expression in parentheses. -/
def primary (c : Cursor) : Reply c.size Expr :=
  if h : c.at? .punctuation "(" then
    have shorter := Cursor.advance_size_lt (c := c) (by simp [Cursor.kind_of_at? h])
    ((expression .lowest c.advance).andThen fun inner rest _ =>
      (rest.expect ")" (.after ")" .expression)).map fun _ _ => inner).mono
        c.advance_size_le
  else
    match h : atom c.current with
    | .ok e => .ok e c.advance (Cursor.advance_size_lt (kind_of_atom h))
    | .error expected => .error (c.failure expected) c
termination_by 2 * c.size

end

/-- The results of parsing expressions one after the other. After an error the next one starts where
the error arose. -/
def expressions : Nat → Cursor → List (Except SyntaxError Expr)
  | 0, _ => []
  | n + 1, c =>
    let reply := expression .lowest c
    reply.toExcept :: expressions n reply.rest

end EggLang.Parse
