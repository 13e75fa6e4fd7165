import EggLang.Proofs.Names
import EggLang.Proofs.Run
import EggLang.Proofs.Typing

/-! Two runs side by side, of some code and of the same code with its names changed. Where the runs
start in states that are alike, and the operations on environments keep them alike, the runs go the
same way: both end with values that are alike, or both fail with the same error under its name. -/

namespace EggLang

/-! ### Results and runs -/

/-- Both are values, which `r` relates, or both are errors, which differ in their names alone. -/
inductive Follows {α β : Type} (f : String → String) (r : α → β → Prop) :
    Except RuntimeError α → Except RuntimeError β → Prop
  | ok {a : α} {b : β} : r a b → Follows f r (.ok a) (.ok b)
  | error (e : RuntimeError) : Follows f r (.error e) (.error (e.rename f))

/-- From states that `r` relates, `x` and `y` both succeed, with values that `v` relates, or both
fail, with errors that differ in their names alone, and `r` relates the states that they leave. -/
def Lockstep {α β σ τ : Type} (f : String → String) (v : α → β → Prop) (r : σ → τ → Prop)
    (x : EStateM RuntimeError σ α) (y : EStateM RuntimeError τ β) : Prop :=
  ∀ s t, r s t →
    (∃ a b s' t', x s = .ok a s' ∧ y t = .ok b t' ∧ v a b ∧ r s' t') ∨
    ∃ e s' t', x s = .error e s' ∧ y t = .error (e.rename f) t' ∧ r s' t'

section

variable {α α' β β' σ τ : Type} {f : String → String} {v : α → β → Prop} {w : α' → β' → Prop}
  {r : σ → τ → Prop}

theorem Lockstep.pure {a : α} {b : β} (h : v a b) :
    Lockstep f v r (pure a : EStateM RuntimeError σ α) (pure b : EStateM RuntimeError τ β) :=
  fun s t hst => .inl ⟨a, b, s, t, rfl, rfl, h, hst⟩

/-- Without other names, the errors are the same. -/
theorem Lockstep.same {x : EStateM RuntimeError σ α} {y : EStateM RuntimeError τ β} {s : σ} {t : τ}
    (h : Lockstep (fun name => name) v r x y) (hst : r s t) :
    (∃ a b s' t', x s = .ok a s' ∧ y t = .ok b t' ∧ v a b ∧ r s' t') ∨
      ∃ e s' t', x s = .error e s' ∧ y t = .error e t' ∧ r s' t' := by
  simpa only [RuntimeError.rename_id] using h s t hst

theorem lockstep_throw (e : RuntimeError) :
    Lockstep f v r (throw e : EStateM RuntimeError σ α)
      (throw (e.rename f) : EStateM RuntimeError τ β) :=
  fun s t hst => .inr ⟨e, s, t, rfl, rfl, hst⟩

theorem Lockstep.bind {x : EStateM RuntimeError σ α} {y : EStateM RuntimeError τ β}
    {g : α → EStateM RuntimeError σ α'} {h : β → EStateM RuntimeError τ β'}
    (hxy : Lockstep f v r x y) (hgh : ∀ a b, v a b → Lockstep f w r (g a) (h b)) :
    Lockstep f w r (x >>= g) (y >>= h) := by
  intro s t hst
  obtain ⟨a, b, s', t', hx, hy, hab, hst'⟩ | ⟨e, s', t', hx, hy, hst'⟩ := hxy s t hst
  · rw [bind_of_ok hx, bind_of_ok hy]
    exact hgh a b hab s' t' hst'
  · exact .inr ⟨e, s', t', bind_of_error hx, bind_of_error hy, hst'⟩

end

namespace Evaluation

variable {f : String → String} {r : Environment → Environment → Prop}

theorem lockstep_load {v : Value → Value → Prop} {name name' : String}
    (h : ∀ env env', r env env' → Follows f v (env.get name) (env'.get name')) :
    Lockstep f v r (load name) (load name') := by
  intro env env' henv
  have hget := h env env' henv
  rw [load, load]
  generalize env.get name = x at hget ⊢
  generalize env'.get name' = y at hget ⊢
  cases hget with
  | ok hab => exact .inl ⟨_, _, _, _, rfl, rfl, hab, henv⟩
  | error e => exact .inr ⟨e, _, _, rfl, rfl, henv⟩

theorem lockstep_result {α β : Type} {v : α → β → Prop} {x : Except RuntimeError α}
    {y : Except RuntimeError β} (h : Follows f v x y) :
    Lockstep f v r (result x) (result y) := by
  intro env env' henv
  cases h with
  | ok hab => exact .inl ⟨_, _, _, _, rfl, rfl, hab, henv⟩
  | error e => exact .inr ⟨e, _, _, rfl, rfl, henv⟩

end Evaluation

/-- What relates two machines: `r` their environments, and `o` their outputs. -/
structure Machine.Related (r : Environment → Environment → Prop) (o : Output → Output → Prop)
    (m m' : Machine) : Prop where
  environment : r m.environment m'.environment
  output : o m.output m'.output

namespace Execution

variable {α β : Type} {f : String → String} {v : α → β → Prop}
  {r r' : Environment → Environment → Prop} {o : Output → Output → Prop}

theorem lockstep_evaluating {x : Evaluation α} {y : Evaluation β} (h : Lockstep f v r x y) :
    Lockstep f v (Machine.Related r o) (evaluating x) (evaluating y) := by
  intro m m' hm
  rw [evaluating, evaluating]
  obtain ⟨a, b, env, env', hx, hy, hab, henv⟩ | ⟨e, env, env', hx, hy, henv⟩ :=
    h m.environment m'.environment hm.environment
  · rw [hx, hy]
    exact .inl ⟨a, b, _, _, rfl, rfl, hab, henv, hm.output⟩
  · rw [hx, hy]
    exact .inr ⟨e, _, _, rfl, rfl, henv, hm.output⟩

theorem lockstep_printLine {text text' : String}
    (h : Lockstep f Eq o (Output.write (text ++ "\n")) (Output.write (text' ++ "\n"))) :
    Lockstep f Eq (Machine.Related r o) (printLine text) (printLine text') := by
  intro m m' hm
  rw [printLine, printLine]
  obtain ⟨a, b, out, out', hx, hy, hab, hout⟩ | ⟨e, out, out', hx, hy, hout⟩ :=
    h m.output m'.output hm.output
  · rw [hx, hy]
    exact .inl ⟨a, b, _, _, rfl, rfl, hab, hm.environment, hout⟩
  · rw [hx, hy]
    exact .inr ⟨e, _, _, rfl, rfl, hm.environment, hout⟩

theorem lockstep_inScope {x y : Execution Unit}
    (hpush : ∀ env env', r env env' → r' env.push env'.push)
    (hpop : ∀ env env', r' env env' → r env.pop env'.pop)
    (h : Lockstep f Eq (Machine.Related r' o) x y) :
    Lockstep f Eq (Machine.Related r o) (inScope x) (inScope y) := by
  intro m m' hm
  rw [inScope, inScope]
  obtain ⟨a, b, m₁, m₁', hx, hy, hab, hm₁⟩ | ⟨e, m₁, m₁', hx, hy, hm₁⟩ :=
    h { m with environment := m.environment.push } { m' with environment := m'.environment.push }
      ⟨hpush _ _ hm.environment, hm.output⟩
  · rw [hx, hy]
    exact .inl ⟨a, b, _, _, rfl, rfl, hab, hpop _ _ hm₁.environment, hm₁.output⟩
  · rw [hx, hy]
    exact .inr ⟨e, _, _, rfl, rfl, hpop _ _ hm₁.environment, hm₁.output⟩

/-- Two conditions of one type go the same way, or they are no booleans. -/
theorem lockstep_choose {condition condition' : Value} {yes no yes' no' : Execution Unit}
    (htype : condition'.type = condition.type)
    (hcondition : condition.type = .boolean → condition' = condition)
    (hyes : Lockstep f Eq (Machine.Related r o) yes yes')
    (hno : Lockstep f Eq (Machine.Related r o) no no') :
    Lockstep f Eq (Machine.Related r o) (choose condition yes no) (choose condition' yes' no') := by
  by_cases hboolean : condition.type = .boolean
  · rw [hcondition hboolean]
    cases condition with
    | boolean b =>
      cases b with
      | true => exact hyes
      | false => exact hno
    | number n => exact nomatch hboolean
    | string s => exact nomatch hboolean
  · have hthrow : ∀ (v : Value) (yes no : Execution Unit), v.type ≠ .boolean →
        choose v yes no = throw (.nonBooleanCondition v.type) := by
      intro v yes no hv
      cases v with
      | boolean b => exact absurd rfl hv
      | number n => rfl
      | string s => rfl
    rw [hthrow _ _ _ hboolean, hthrow _ _ _ (htype ▸ hboolean), htype]
    exact lockstep_throw (.nonBooleanCondition condition.type)

end Execution

/-! ### Values, variables and environments that are alike -/

/-- Values that `v` relates and variables that `x` relates are alike for operators and stores. -/
structure Likeness (v : Value → Value → Prop) (x : Variable → Variable → Prop) : Prop where
  refl : ∀ a, v a a
  type_eq : ∀ {a b}, v a b → b.type = a.type
  unary : ∀ {op : UnaryOp} {a b a' b'}, v a b → op.apply a = .ok a' → op.apply b = .ok b' → v a' b'
  binary : ∀ {op : BinaryOp} {a₁ b₁ a₂ b₂ a b}, v a₁ b₁ → v a₂ b₂ → op.on? a₁ a₂ = some a →
    op.on? b₁ b₂ = some b → v a b
  signature_eq : ∀ {y z}, x y z → z.signature = y.signature
  value : ∀ {y z}, x y z → Option.Rel v y.value z.value
  declared : ∀ type isConstant, x ⟨type, isConstant, none⟩ ⟨type, isConstant, none⟩
  stored : ∀ {y z a b}, x y z → v a b → a.type = y.type →
    x { y with value := some a } { z with value := some b }

/-- To print values that `v` relates keeps `o`. -/
def Printed (f : String → String) (v : Value → Value → Prop) (o : Output → Output → Prop) : Prop :=
  ∀ {a b}, v a b →
    Lockstep f Eq o (Output.write (a.text ++ "\n")) (Output.write (b.text ++ "\n"))

/-- What expressions need of `r`: a name `name` for which `p` holds finds in the first environment
what `f name` finds in the second, and can be given a value in both. -/
structure Access (f : String → String) (p : String → Prop) (x : Variable → Variable → Prop)
    (r : Environment → Environment → Prop) : Prop where
  find? : ∀ {env env' name}, r env env' → p name →
    Option.Rel x (env.find? name) (env'.find? (f name))
  replace : ∀ {env env' name y z}, r env env' → p name → x y z →
    r (env.replace name y) (env'.replace (f name) z)

/-- The operations on environments keep `r`, where a name `name` for which `p` holds stands for the
first and `f name` for the second. The number is that of the scopes entered since the start. -/
structure Correspondence (f : String → String) (p : String → Prop)
    (x : Variable → Variable → Prop) (r : Nat → Environment → Environment → Prop) : Prop where
  find? : ∀ {k env env' name}, r k env env' → p name →
    Option.Rel x (env.find? name) (env'.find? (f name))
  innermost : ∀ {k env env' name}, r k env env' → p name →
    Option.Rel x (env.innermost.find? name) (env'.innermost.find? (f name))
  replace : ∀ {k env env' name y z}, r k env env' → p name → x y z →
    r k (env.replace name y) (env'.replace (f name) z)
  add : ∀ {k env env' name y z}, r k env env' → p name → x y z →
    r k { env with innermost := (name, y) :: env.innermost }
      { env' with innermost := (f name, z) :: env'.innermost }
  push : ∀ {k env env'}, r k env env' → r (k + 1) env.push env'.push
  pop : ∀ {k env env'}, r (k + 1) env env' → r k env.pop env'.pop

namespace Likeness

variable {v : Value → Value → Prop} {x : Variable → Variable → Prop} (h : Likeness v x)
  (f : String → String)

include h

theorem follows_unary (op : UnaryOp) {a b : Value} (hab : v a b) :
    Follows f v (op.apply a) (op.apply b) := by
  have htype := h.type_eq hab
  cases hresult : op.resultType? a.type with
  | some type =>
    obtain ⟨a', ha, -⟩ := UnaryOp.apply_of_resultType? hresult
    obtain ⟨b', hb, -⟩ := UnaryOp.apply_of_resultType? (htype ▸ hresult)
    rw [ha, hb]
    exact .ok (h.unary hab ha hb)
  | none =>
    have hb := UnaryOp.apply_of_resultType?_eq_none (htype ▸ hresult)
    rw [UnaryOp.apply_of_resultType?_eq_none hresult, hb, htype]
    exact .error (.illegalUnary op a.type)

theorem follows_binary (op : BinaryOp) {a₁ b₁ a₂ b₂ : Value} (h₁ : v a₁ b₁) (h₂ : v a₂ b₂) :
    Follows f v (op.apply a₁ a₂) (op.apply b₁ b₂) := by
  have hon : (op.on? a₁ a₂).map Value.type = (op.on? b₁ b₂).map Value.type := by
    rw [op.type_on?, op.type_on?, h.type_eq h₁, h.type_eq h₂]
  rw [BinaryOp.apply, BinaryOp.apply]
  cases ha : op.on? a₁ a₂ with
  | some a =>
    cases hb : op.on? b₁ b₂ with
    | some b => exact .ok (h.binary h₁ h₂ ha hb)
    | none => simp [ha, hb] at hon
  | none =>
    cases hb : op.on? b₁ b₂ with
    | some b => simp [ha, hb] at hon
    | none =>
      rw [h.type_eq h₁, h.type_eq h₂]
      exact .error (.illegalBinary op a₁.type a₂.type)

theorem lockstep_store (name : String) {a b : Value} (hab : v a b) :
    Lockstep f Eq x (Variable.store name a) (Variable.store (f name) b) := by
  intro y z hyz
  have htype : z.type = y.type := congrArg Signature.type (h.signature_eq hyz)
  have hiff : b.type = z.type ↔ a.type = y.type := by rw [htype, h.type_eq hab]
  rw [Variable.store, Variable.store]
  by_cases ha : a.type = y.type
  · rw [if_pos ha, if_pos (hiff.mpr ha)]
    exact .inl ⟨(), (), _, _, rfl, rfl, rfl, h.stored hyz hab ha⟩
  · rw [if_neg ha, if_neg (mt hiff.mp ha), htype, h.type_eq hab]
    exact .inr ⟨.typeMismatch name y.type a.type, y, z, rfl, rfl, hyz⟩

end Likeness

theorem Correspondence.access {f : String → String} {p : String → Prop}
    {x : Variable → Variable → Prop} {r : Nat → Environment → Environment → Prop}
    (hr : Correspondence f p x r) (k : Nat) : Access f p x (r k) :=
  ⟨hr.find?, hr.replace⟩

/-! ### Expressions -/

section

variable {f : String → String} {p : String → Prop} {v : Value → Value → Prop}
  {x : Variable → Variable → Prop} {r : Environment → Environment → Prop} (hv : Likeness v x)
  (hr : Access f p x r)

include hv hr

namespace Access

variable {name : String}

theorem follows_get {env env' : Environment} (henv : r env env') (hname : p name) :
    Follows f v (env.get name) (env'.get (f name)) := by
  have hfind := hr.find? henv hname
  rw [Environment.get, Environment.get]
  generalize env.find? name = y at hfind ⊢
  generalize env'.find? (f name) = z at hfind ⊢
  cases hfind with
  | none => exact .error (.undeclared name)
  | @some y z hyz =>
    have hvalue := hv.value hyz
    dsimp only
    generalize y.value = a at hvalue ⊢
    generalize z.value = b at hvalue ⊢
    cases hvalue with
    | none => exact .error (.uninitialized name)
    | some hab => exact .ok hab

theorem lockstep_assign {a b : Value} (hname : p name) (hab : v a b) :
    Lockstep f Eq r (Environment.assign name a) (Environment.assign (f name) b) := by
  intro env env' henv
  have hfind := hr.find? henv hname
  rw [Environment.assign, Environment.assign]
  generalize env.find? name = y at hfind ⊢
  generalize env'.find? (f name) = z at hfind ⊢
  cases hfind with
  | none => exact .inr ⟨.undeclared name, env, env', rfl, rfl, henv⟩
  | @some y z hyz =>
    have hconstant : z.isConstant = y.isConstant :=
      congrArg Signature.isConstant (hv.signature_eq hyz)
    dsimp only
    rw [hconstant]
    split
    · exact .inr ⟨.constantReassignment name, env, env', rfl, rfl, henv⟩
    · obtain ⟨_, _, y', z', hy, hz, -, hyz'⟩ | ⟨e, y', z', hy, hz, hyz'⟩ :=
        hv.lockstep_store f name hab y z hyz
      · rw [hy, hz]
        exact .inl ⟨(), (), _, _, rfl, rfl, rfl, hr.replace henv hname hyz'⟩
      · rw [hy, hz]
        exact .inr ⟨e, _, _, rfl, rfl, hr.replace henv hname hyz'⟩

end Access

/-- Names and values that are alike are all that an expression depends on. -/
theorem Expr.lockstep {e : Expr} (he : ∀ name ∈ e.names, p name) :
    Lockstep f v r e.evaluate (e.rename f).evaluate := by
  induction e with
  | literal a span => exact .pure (hv.refl a)
  | var id =>
    have hid : p id.name := he id.name List.mem_cons_self
    exact Evaluation.lockstep_load fun _ _ henv => hr.follows_get hv henv hid
  | unary op operand span ih =>
    refine (ih he).bind fun a b hab => ?_
    exact Evaluation.lockstep_result (hv.follows_unary f op hab)
  | binary op lhs rhs span ihl ihr =>
    obtain ⟨hl, hr⟩ := List.forall_mem_append.mp he
    refine (ihl hl).bind fun a₁ b₁ h₁ => (ihr hr).bind fun a₂ b₂ h₂ => ?_
    exact Evaluation.lockstep_result (hv.follows_binary f op h₁ h₂)
  | assign target value span ih =>
    obtain ⟨htarget, hvalue⟩ := List.forall_mem_cons.mp he
    refine (ih hvalue).bind fun a b hab => ?_
    exact (hr.lockstep_assign hv htarget hab).bind fun _ _ _ => .pure hab

end

/-! ### Declarations -/

section

variable {f : String → String} {p : String → Prop} {v : Value → Value → Prop}
  {x : Variable → Variable → Prop} {r : Nat → Environment → Environment → Prop}
  (hv : Likeness v x) (hr : Correspondence f p x r)

include hv hr

namespace Correspondence

variable {k : Nat} {name : String}

omit hv in
theorem lockstep_declare {y z : Variable} (hname : p name) (hyz : x y z) :
    Lockstep f Eq (r k) (Environment.declare name y) (Environment.declare (f name) z) := by
  intro env env' henv
  have hinnermost := hr.innermost henv hname
  rw [Environment.declare, Environment.declare]
  generalize env.innermost.find? name = y' at hinnermost ⊢
  generalize env'.innermost.find? (f name) = z' at hinnermost ⊢
  cases hinnermost with
  | none => exact .inl ⟨(), (), _, _, rfl, rfl, rfl, hr.add henv hname hyz⟩
  | some _ => exact .inr ⟨.alreadyDeclared name, env, env', rfl, rfl, henv⟩

theorem lockstep_define {y z : Variable} {a b : Value} (hname : p name) (hyz : x y z)
    (hab : v a b) :
    Lockstep f Eq (r k) (Environment.define name y a) (Environment.define (f name) z b) := by
  intro env env' henv
  rw [Environment.define, Environment.define]
  obtain ⟨_, _, y', z', hy, hz, -, hyz'⟩ | ⟨e, y', z', hy, hz, -⟩ :=
    hv.lockstep_store f name hab y z hyz
  · rw [hy, hz]
    exact hr.lockstep_declare hname hyz' env env' henv
  · rw [hy, hz]
    exact .inr ⟨e, env, env', rfl, rfl, henv⟩

end Correspondence

theorem Declaration.lockstep {d : Declaration} (hd : ∀ name ∈ d.names, p name) (k : Nat) :
    Lockstep f Eq (r k) d.evaluate (d.rename f).evaluate := by
  obtain ⟨id, type, isConstant, initializer⟩ := d
  cases initializer with
  | none =>
    have hid : p id.name := hd id.name List.mem_cons_self
    exact hr.lockstep_declare hid (hv.declared type isConstant)
  | some value =>
    obtain ⟨hid, hvalue⟩ := List.forall_mem_cons.mp hd
    refine (Expr.lockstep hv (hr.access k) hvalue).bind fun a b hab => ?_
    exact hr.lockstep_define hv hid (hv.declared type isConstant) hab

end

/-! ### Statements -/

namespace Stmt

/-- The statement has no conditional in it, at any depth. -/
inductive Straight : Stmt → Prop
  | print {value : Expr} {span : Span} : Straight (print value span)
  | declare {d : Declaration} {span : Span} : Straight (declare d span)
  | assign {target : Ident} {value : Expr} {span : Span} : Straight (assign target value span)
  | block {body : List Stmt} {span : Span} : (∀ s ∈ body, Straight s) →
      Straight (block body span)

open Execution

section

variable {f : String → String} {p : String → Prop} {v : Value → Value → Prop}
  {x : Variable → Variable → Prop} {r : Nat → Environment → Environment → Prop}
  {o : Output → Output → Prop}

mutual

/-- Values that are alike may differ only where they do not decide between branches. -/
theorem lockstep (hv : Likeness v x) (hr : Correspondence f p x r) (ho : Printed f v o) :
    (s : Stmt) → (∀ name ∈ s.names, p name) → (s.Straight ∨ ∀ a b, v a b → b = a) → ∀ k,
    Lockstep f Eq (Machine.Related (r k) o) s.execute (s.rename f).execute
  | print value _, hs, _, k => by
    rw [rename, execute, execute]
    refine (lockstep_evaluating (value.lockstep hv (hr.access k) hs)).bind fun a b hab => ?_
    exact lockstep_printLine (ho hab)
  | declare d _, hs, _, k => by
    rw [rename, execute, execute]
    exact lockstep_evaluating (d.lockstep hv hr hs k)
  | assign target value span, hs, _, k => by
    rw [rename, execute, execute]
    have hassign := Expr.lockstep (e := .assign target value span) hv (hr.access k) hs
    exact (lockstep_evaluating hassign).bind fun _ _ _ => .pure rfl
  | ifElse condition body none _, hs, hstraight, k => by
    have hsame := hstraight.resolve_left nofun
    obtain ⟨hc, hb⟩ := List.forall_mem_append.mp hs
    rw [rename, execute, execute]
    refine (lockstep_evaluating (condition.lockstep hv (hr.access k) hc)).bind fun a b hab => ?_
    have hbody := lockstepAll hv hr ho body hb (.inr hsame) (k + 1)
    exact lockstep_choose (hv.type_eq hab) (fun _ => hsame a b hab)
      (lockstep_inScope (fun _ _ => hr.push) (fun _ _ => hr.pop) hbody) (.pure rfl)
  | ifElse condition body (some otherwise) _, hs, hstraight, k => by
    have hsame := hstraight.resolve_left nofun
    obtain ⟨hc, hbodies⟩ := List.forall_mem_append.mp hs
    obtain ⟨hb, hother⟩ := List.forall_mem_append.mp hbodies
    rw [rename, execute, execute]
    refine (lockstep_evaluating (condition.lockstep hv (hr.access k) hc)).bind fun a b hab => ?_
    have hbody := lockstepAll hv hr ho body hb (.inr hsame) (k + 1)
    have hotherwise := lockstepAll hv hr ho otherwise hother (.inr hsame) (k + 1)
    exact lockstep_choose (hv.type_eq hab) (fun _ => hsame a b hab)
      (lockstep_inScope (fun _ _ => hr.push) (fun _ _ => hr.pop) hbody)
      (lockstep_inScope (fun _ _ => hr.push) (fun _ _ => hr.pop) hotherwise)
  | block body _, hs, hstraight, k => by
    have hinside : (∀ s ∈ body, s.Straight) ∨ ∀ a b, v a b → b = a :=
      hstraight.imp_left fun h => by cases h with | block h => exact h
    have hbody := lockstepAll hv hr ho body hs hinside (k + 1)
    rw [rename, execute, execute]
    exact lockstep_inScope (fun _ _ => hr.push) (fun _ _ => hr.pop) hbody

theorem lockstepAll (hv : Likeness v x) (hr : Correspondence f p x r) (ho : Printed f v o) :
    (body : List Stmt) → (∀ name ∈ namesAll body, p name) →
    ((∀ s ∈ body, s.Straight) ∨ ∀ a b, v a b → b = a) → ∀ k,
    Lockstep f Eq (Machine.Related (r k) o) (executeAll body) (executeAll (renameAll f body))
  | [], _, _, _ => .pure rfl
  | s :: rest, hbody, hstraight, k => by
    obtain ⟨hs, hrest⟩ := List.forall_mem_append.mp hbody
    have hfirst := hstraight.imp_left fun h => h s List.mem_cons_self
    have hbehind := hstraight.imp_left fun h s' hs' => h s' (List.mem_cons_of_mem s hs')
    rw [renameAll, executeAll, executeAll]
    exact (lockstep hv hr ho s hs hfirst k).bind fun _ _ _ =>
      lockstepAll hv hr ho rest hrest hbehind k

end

end

end Stmt

end EggLang
