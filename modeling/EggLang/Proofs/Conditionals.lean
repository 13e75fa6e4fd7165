import EggLang.Proofs.Concatenation
import EggLang.Proofs.Matching

/-! Conditionals with more than two ways to go. The parser puts each `if` that stands behind an
`else` into the other branch of the one before it, where it runs in a scope of its own. That scope
stays empty while the conditions behind are evaluated, and nothing can tell an empty scope from
none, so that the whole does what its arms do one after the other. -/

namespace EggLang

open Parse Execution

/-! ### Empty scopes -/

namespace Scope

/-- The second stack of scopes is the first with an empty scope put in below the `k` innermost ones,
and above others. -/
inductive Inserted : Nat → List Scope → List Scope → Prop
  | here {ss : List Scope} : ss ≠ [] → Inserted 0 ss ([] :: ss)
  | under {k : Nat} {scope : Scope} {ss ts : List Scope} :
      Inserted k ss ts → Inserted (k + 1) (scope :: ss) (scope :: ts)

namespace Inserted

variable {k : Nat} {ss ts : List Scope}

theorem findSome?_eq (h : Inserted k ss ts) (name : String) :
    ts.findSome? (·.find? name) = ss.findSome? (·.find? name) := by
  induction h with
  | here _ => rw [List.findSome?_cons, find?_nil]
  | under _ ih => rw [List.findSome?_cons, List.findSome?_cons, ih]

theorem replaceIn (h : Inserted k ss ts) (name : String) (x : Variable) :
    Inserted k (Environment.replaceIn name x ss) (Environment.replaceIn name x ts) := by
  induction h with
  | @here ss hss =>
    have hlength := Environment.length_replaceIn name x ss
    refine .here fun hnil => hss ?_
    rwa [hnil, eq_comm, List.length_nil, List.length_eq_zero_iff] at hlength
  | under h ih =>
    rw [Environment.replaceIn, Environment.replaceIn]
    split
    · exact .under h
    · exact .under ih

end Inserted

end Scope

namespace Environment

/-- The second environment is the first with an empty scope below its `k` innermost ones. -/
def Inserted (k : Nat) (env env' : Environment) : Prop := Scope.Inserted k env.scopes env'.scopes

namespace Inserted

variable {k : Nat} {env env' : Environment} {name : String}

theorem below (env : Environment) : Inserted 0 env env.push := .here (List.cons_ne_nil _ _)

theorem eq_push (h : Inserted 0 env env') : env' = env.push := by
  have hscopes : env'.scopes = env.push.scopes := by
    rw [Inserted] at h
    generalize env'.scopes = ts at h ⊢
    cases h
    rfl
  obtain ⟨innermost', outer'⟩ := env'
  cases hscopes
  rfl

theorem under_iff : Inserted (k + 1) env env' ↔
    env'.innermost = env.innermost ∧ Scope.Inserted k env.outer env'.outer := by
  rw [Inserted, scopes, scopes]
  constructor
  · intro h
    generalize env.innermost = s at h ⊢
    cases h with
    | under h => exact ⟨rfl, h⟩
  · rintro ⟨hsame, h⟩
    rw [hsame]
    exact .under h

theorem push (h : Inserted k env env') : Inserted (k + 1) env.push env'.push :=
  under_iff.mpr ⟨rfl, h⟩

theorem pop (h : Inserted (k + 1) env env') : Inserted k env.pop env'.pop := by
  obtain ⟨innermost, outer⟩ := env
  obtain ⟨innermost', outer'⟩ := env'
  have houter : Scope.Inserted k outer outer' := (under_iff.mp h).2
  cases houter with
  | here hne =>
    obtain ⟨scope, rest, rfl⟩ := List.exists_cons_of_ne_nil hne
    exact .here hne
  | under hbelow => exact .under hbelow

theorem find?_eq (h : Inserted k env env') : env'.find? name = env.find? name :=
  h.findSome?_eq name

theorem replace (h : Inserted k env env') (x : Variable) :
    Inserted k (env.replace name x) (env'.replace name x) := by
  rw [Inserted, scopes_replace, scopes_replace]
  exact h.replaceIn name x

end Inserted

theorem access_inserted (k : Nat) : Access (fun name => name) (fun _ => True) Eq (Inserted k) where
  find? h _ := rel_eq_iff.mpr h.find?_eq
  replace h _ hyz := hyz ▸ h.replace _

theorem correspondence_inserted : Correspondence (fun name => name) (fun _ => True) Eq
    fun k => Inserted (k + 1) where
  find? := (access_inserted _).find?
  innermost h _ := rel_eq_iff.mpr (by rw [(Inserted.under_iff.mp h).1])
  replace := (access_inserted _).replace
  add h _ hyz := by
    obtain ⟨hsame, houter⟩ := Inserted.under_iff.mp h
    exact Inserted.under_iff.mpr ⟨by rw [hsame, hyz], houter⟩
  push h := h.push
  pop h := h.pop

end Environment

/-- An empty scope around it all makes no difference to an expression. -/
theorem Expr.lockstep_inserted (k : Nat) (e : Expr) :
    Lockstep (fun name => name) Eq (Environment.Inserted k) e.evaluate e.evaluate := by
  have h := e.lockstep likeness_eq (Environment.access_inserted k) fun _ _ => trivial
  rwa [rename_id] at h

/-! ### Conditionals in a scope of their own -/

namespace Stmt

theorem lockstep_inScope_below (k : Nat) (body : List Stmt) :
    Lockstep (fun name => name) Eq (Machine.Related (Environment.Inserted k) Eq)
      (inScope (executeAll body)) (inScope (executeAll body)) := by
  have hbody := lockstepAll likeness_eq Environment.correspondence_inserted (printed_eq _) body
    (fun _ _ => trivial) (.inr fun _ _ => Eq.symm) k
  rw [renameAll_id] at hbody
  exact lockstep_inScope (fun _ _ => .push) (fun _ _ => .pop) hbody

theorem lockstep_ifElse (condition : Expr) (body : List Stmt) (otherwise : Option (List Stmt))
    (span : Span) : Lockstep (fun name => name) Eq (Machine.Related (Environment.Inserted 0) Eq)
      (ifElse condition body otherwise span).execute
      (ifElse condition body otherwise span).execute := by
  have hcondition : Lockstep (fun name => name) Eq (Machine.Related (Environment.Inserted 0) Eq)
      (evaluating condition.evaluate) (evaluating condition.evaluate) :=
    lockstep_evaluating (condition.lockstep_inserted 0)
  cases otherwise with
  | none =>
    rw [execute]
    refine hcondition.bind ?_
    rintro v _ rfl
    exact lockstep_choose rfl (fun _ => rfl) (lockstep_inScope_below 0 body) (.pure rfl)
  | some otherwise =>
    rw [execute]
    refine hcondition.bind ?_
    rintro v _ rfl
    exact lockstep_choose rfl (fun _ => rfl) (lockstep_inScope_below 0 body)
      (lockstep_inScope_below 0 otherwise)

/-- A conditional does in a scope of its own what it does without one. -/
theorem inScope_ifElse (condition : Expr) (body : List Stmt) (otherwise : Option (List Stmt))
    (span : Span) : inScope (executeAll [ifElse condition body otherwise span]) =
      (ifElse condition body otherwise span).execute := by
  have hlockstep := lockstep_ifElse condition body otherwise span
  generalize ifElse condition body otherwise span = s at hlockstep ⊢
  have hsingle : executeAll [s] = s.execute := bind_pure_unit
  funext m
  rw [hsingle]
  obtain ⟨_, _, m₁, m₁', hx, hy, -, hm₁⟩ | ⟨e, m₁, m₁', hx, hy, hm₁⟩ :=
    hlockstep.same (s := m) (t := { m with environment := m.environment.push })
      ⟨.below m.environment, rfl⟩
  · rw [inScope_of_ok hy, hx, hm₁.environment.eq_push, ← hm₁.output, Environment.pop_push]
  · rw [inScope_of_error hy, hx, hm₁.environment.eq_push, ← hm₁.output, Environment.pop_push]

end Stmt

/-! ### Arms -/

/-- One arm of a conditional, and the place of the conditional that starts with it. -/
structure Arm where
  condition : Expr
  body : List Stmt
  span : Span

namespace Arm

/-- The conditional with the arms, each in the other branch of the one before it. -/
def nest : Arm → List Arm → Option (List Stmt) → Stmt
  | arm, [], final => .ifElse arm.condition arm.body final arm.span
  | arm, next :: rest, final =>
    .ifElse arm.condition arm.body (some [nest next rest final]) arm.span

/-- The body of the first arm whose condition is true, or `final` where none is. No condition behind
that one is evaluated. -/
def select : List Arm → Option (List Stmt) → Evaluation (Option (List Stmt))
  | [], final => pure final
  | arm :: rest, final => do
    match ← arm.condition.evaluate with
    | .boolean true => pure (some arm.body)
    | .boolean false => select rest final
    | v => throw (.nonBooleanCondition v.type)

/-- Evaluates the conditions one after the other and runs what they select in a scope of its own. -/
def run (arms : List Arm) (final : Option (List Stmt)) : Execution Unit := do
  match ← evaluating (select arms final) with
  | some body => inScope (Stmt.executeAll body)
  | none => pure ()

theorem run_cons (arm : Arm) (rest : List Arm) (final : Option (List Stmt)) :
    run (arm :: rest) final = (do
      let v ← evaluating arm.condition.evaluate
      choose v (inScope (Stmt.executeAll arm.body)) (run rest final)) := by
  rw [run, select, evaluating_bind, bind_assoc]
  congr 1
  funext v
  cases v with
  | boolean b =>
    cases b with
    | true => rfl
    | false => rfl
  | number n => rfl
  | string s => rfl

theorem inScope_nest (arm : Arm) (rest : List Arm) (final : Option (List Stmt)) :
    inScope (Stmt.executeAll [nest arm rest final]) = (nest arm rest final).execute := by
  cases rest with
  | nil => exact Stmt.inScope_ifElse ..
  | cons next rest => exact Stmt.inScope_ifElse ..

/-- The induction is on the arms behind the first. They run one scope further in than they would by
themselves. -/
theorem execute_nest (arm : Arm) (rest : List Arm) (final : Option (List Stmt)) :
    (nest arm rest final).execute = run (arm :: rest) final := by
  induction rest generalizing arm with
  | nil =>
    rw [run_cons]
    cases final with
    | none => rfl
    | some body => rfl
  | cons next rest ih => rw [run_cons arm, ← ih next, nest, Stmt.execute, inScope_nest]

/-! ### Arms in a text -/

open Grammar

/-- Tokens that are a conditional before `next`, where an `else` with an `if` behind it leads from
each arm to the one after it. -/
inductive Written : List Token → Option Token → Arm → List Arm → Option (List Stmt) → Prop
  | last {k : Token} {ts us : List Token} {next : Option Token} {e : Expr} {body : List Stmt} :
      k.is .keyword "if" → Derives .expression ts e → Body us next body → isElse next = false →
      Written (k :: ts ++ us) next ⟨e, body, .nowhere⟩ [] none
  | otherwise {k o : Token} {ts us vs : List Token} {next : Option Token} {e : Expr}
      {body final : List Stmt} :
      k.is .keyword "if" → Derives .expression ts e → Body us (some o) body →
      o.is .freeKeyword "else" → Body vs next final →
      Written (k :: ts ++ us ++ o :: vs) next ⟨e, body, .nowhere⟩ [] (some final)
  | elseIf {k o : Token} {ts us vs : List Token} {next : Option Token} {e : Expr}
      {body : List Stmt} {arm : Arm} {rest : List Arm} {final : Option (List Stmt)} :
      k.is .keyword "if" → Derives .expression ts e → Body us (some o) body →
      o.is .freeKeyword "else" → Written vs next arm rest final →
      Written (k :: ts ++ us ++ o :: vs) next ⟨e, body, .nowhere⟩ (arm :: rest) final

variable {ts : List Token} {next : Option Token} {arm : Arm} {rest : List Arm}
  {final : Option (List Stmt)}

theorem Written.exists_head (h : Written ts next arm rest final) :
    ∃ k us, ts = k :: us ∧ k.is .punctuation "\x7b" = false := by
  cases h with
  | last hk | otherwise hk | elseIf hk =>
    exact ⟨_, _, rfl, by simp [Token.is, Parse.kind_of_is hk]⟩

theorem Written.statement (h : Written ts next arm rest final) :
    Statement ts next (nest arm rest final) := by
  induction h with
  | last hk he hbody hnext => exact .ifThen hk he hbody hnext
  | otherwise hk he hbody ho hfinal => exact .ifElse hk he hbody ho hfinal
  | elseIf hk he hbody ho hvs ih =>
    obtain ⟨k', us, rfl, hbrace⟩ := hvs.exists_head
    exact .ifElse hk he hbody ho (.single hbrace ih)

end Arm

/-- Arms one behind the other, nested as the parser nests them, run as they do one after the other:
from every machine to the same one, with the same error if any. The scopes that the nesting adds
make no difference. -/
theorem arms_run_in_turn :
    (∀ arm rest final m, (Arm.nest arm rest final).execute m = Arm.run (arm :: rest) final m) ∧
    (∀ ts next arm rest final c c', Arm.Written ts next arm rest final → c.Takes ts c' →
      Grammar.next? c' = next → ∃ s, (statement c).Gives s c' ∧ s.bare = Arm.nest arm rest final ∧
        ∀ m, s.execute m = Arm.run (arm :: rest) final m) ∧
    ∀ arm rest final m, inScope (Stmt.executeAll [Arm.nest arm rest final]) m =
      (Arm.nest arm rest final).execute m := by
  refine ⟨fun arm rest final m => ?_, ?_, fun arm rest final m => ?_⟩
  · rw [Arm.execute_nest]
  · intro ts next arm rest final c c' hwritten hts hnext
    obtain ⟨s, hs, hgives⟩ := hwritten.statement.found hts hnext
    refine ⟨s, hgives, hs, fun m => ?_⟩
    rw [← Arm.execute_nest, ← hs, Stmt.bare, Stmt.execute_mapSpans]
  · rw [Arm.inScope_nest]

/-- An assignment in the first condition, which the second one reads. -/
theorem arms_run_in_turn_of_assignment : ∃ ts c' s arm next,
    ts.map Token.text =
      ["if", "x", "=", "false", "\x7b", "\x7d", "else", "if", "x", "\x7b", "\x7d"] ∧
    arm.condition = .assign (.ofName "x") (.literal (.boolean false) .nowhere) .nowhere ∧
    next.condition = .var (.ofName "x") ∧ Arm.Written ts none arm [next] none ∧
    (Cursor.ofTokens ts).Takes ts c' ∧ Grammar.next? c' = none ∧
    (statement (.ofTokens ts)).Gives s c' ∧ s.bare = Arm.nest arm [next] none ∧
    ∀ m, s.execute m = Arm.run [arm, next] none m := by
  have hbraces : ∀ next, Grammar.Body [.ofText .punctuation "\x7b", .ofText .punctuation "\x7d"]
      next [] := fun _ => .braces (by decide) .nil (by decide)
  have hfalse : Grammar.Derives .expression [.ofText .freeKeyword "false"]
      (.literal (.boolean false) .nowhere) :=
    Grammar.Derives.loosen (.boolean (b := false) (by decide)) (by decide)
  have hassign : Grammar.Derives .expression
      [.ofText .identifier "x", .ofText .operator "=", .ofText .freeKeyword "false"]
      (.assign (.ofName "x") (.literal (.boolean false) .nowhere) .nowhere) :=
    .assign (.name rfl) (by decide) hfalse
  have hx : Grammar.Derives .expression [.ofText .identifier "x"] (.var (.ofName "x")) :=
    Grammar.Derives.loosen (.var rfl) (by decide)
  have hif : (Token.ofText .keyword "if").is .keyword "if" = true := by decide
  have helse : (Token.ofText .freeKeyword "else").is .freeKeyword "else" = true := by decide
  obtain ⟨ts, htext, hkind, hwritten⟩ : ∃ ts : List Token, ts.map Token.text =
        ["if", "x", "=", "false", "\x7b", "\x7d", "else", "if", "x", "\x7b", "\x7d"] ∧
      (∀ t ∈ ts, t.kind ≠ .endOfFile) ∧ Arm.Written ts none
        ⟨.assign (.ofName "x") (.literal (.boolean false) .nowhere) .nowhere, [], .nowhere⟩
        [⟨.var (.ofName "x"), [], .nowhere⟩] none :=
    ⟨_, by decide, by decide,
      .elseIf hif hassign (hbraces _) helse (.last hif hx (hbraces none) rfl)⟩
  obtain ⟨c', hts, hend⟩ := (Cursor.ofTokens ts).exists_takes_visible
  have hvisible : visible (Cursor.ofTokens ts).ahead = ts := visible_eq_self hkind
  have hnext := Grammar.next?_of_atEnd hend
  rw [hvisible] at hts
  obtain ⟨s, hgives, hbare, hrun⟩ := arms_run_in_turn.2.1 _ _ _ _ _ _ _ hwritten hts hnext
  exact ⟨ts, c', s, _, _, htext, rfl, rfl, hwritten, hts, hnext, hgives, hbare, hrun⟩

end EggLang
