import EggLang.Proofs.Bare
import EggLang.Proofs.Run
import EggLang.Proofs.Typing

/-! Type soundness. While well-typed code runs, the environment fits the context that the rules
carry along, so no operation on it fails but the reading of a variable that has no value yet, and no
operator gets operands it refuses. The only other error is that of an output without room. -/

namespace EggLang

/-- The errors that types do not exclude. -/
def RuntimeError.Permitted (capacity : Option Nat) : RuntimeError → Prop
  | uninitialized _ => True
  | outputFull => capacity.isSome = true
  | _ => False

theorem RuntimeError.Permitted.mono {e : RuntimeError} (h : e.Permitted none)
    (capacity : Option Nat) : e.Permitted capacity := by
  cases e with
  | uninitialized name => trivial
  | outputFull => exact nomatch h
  | _ => exact h

/-- Run from `s`, `x` ends with a result and a state for which `post` holds, or with an error that
is permitted. -/
def Ends {α σ : Type} (capacity : Option Nat) (x : EStateM RuntimeError σ α) (s : σ)
    (post : α → σ → Prop) : Prop :=
  match x s with
  | .ok a s' => post a s'
  | .error e _ => e.Permitted capacity

section

variable {α β σ : Type} {capacity : Option Nat}

theorem ends_iff {x : EStateM RuntimeError σ α} {s : σ} {post : α → σ → Prop} :
    Ends capacity x s post ↔ (∃ a s', x s = .ok a s' ∧ post a s') ∨
      ∃ e s', x s = .error e s' ∧ e.Permitted capacity := by
  unfold Ends
  cases x s with
  | ok a s' => simp [and_assoc]
  | error e s' => simp

theorem Ends.of_ok {x : EStateM RuntimeError σ α} {s s' : σ} {a : α} {post : α → σ → Prop}
    (hx : x s = .ok a s') (hpost : post a s') : Ends capacity x s post :=
  ends_iff.mpr (.inl ⟨a, s', hx, hpost⟩)

theorem Ends.of_error {x : EStateM RuntimeError σ α} {s s' : σ} {e : RuntimeError}
    {post : α → σ → Prop} (hx : x s = .error e s') (he : e.Permitted capacity) :
    Ends capacity x s post :=
  ends_iff.mpr (.inr ⟨e, s', hx, he⟩)

theorem Ends.imp {x : EStateM RuntimeError σ α} {s : σ} {post post' : α → σ → Prop}
    (hx : Ends capacity x s post) (h : ∀ a s', post a s' → post' a s') :
    Ends capacity x s post' := by
  obtain ⟨a, s', hs, hpost⟩ | ⟨e, s', hs, he⟩ := ends_iff.mp hx
  · exact .of_ok hs (h a s' hpost)
  · exact .of_error hs he

theorem Ends.bind {x : EStateM RuntimeError σ α} {f : α → EStateM RuntimeError σ β} {s : σ}
    {mid : α → σ → Prop} {post : β → σ → Prop} (hx : Ends capacity x s mid)
    (hf : ∀ a s', mid a s' → Ends capacity (f a) s' post) : Ends capacity (x >>= f) s post := by
  obtain ⟨a, s', hs, hmid⟩ | ⟨e, s', hs, he⟩ := ends_iff.mp hx
  · have hrest := hf a s' hmid
    rwa [Ends, bind_of_ok hs]
  · exact .of_error (bind_of_error hs) he

end

/-! ### Expressions -/

namespace Environment

variable {env : Environment} {Γ : Context} {name : String} {s : Signature}

theorem Fits.load (henv : env.Fits Γ) (hs : Γ.find? name = some s) :
    Ends none (Evaluation.load name) env fun v env' => v.type = s.type ∧ env'.Fits Γ := by
  rw [← henv.context] at hs
  obtain ⟨x, hx, rfl⟩ := exists_of_find?_context hs
  rw [Ends, Evaluation.load, get, hx]
  cases hv : x.value with
  | none => simp only [hv, RuntimeError.Permitted]
  | some v =>
    simp only [hv]
    exact ⟨henv.wellFormed.typed hx v hv, henv⟩

theorem Fits.ends_assign (henv : env.Fits Γ) (hs : Γ.find? name = some s)
    (hc : s.isConstant = false) {v : Value} (hv : v.type = s.type) :
    Ends none (Environment.assign name v) env fun _ env' => env'.Fits Γ := by
  rw [← henv.context] at hs
  obtain ⟨x, hx, rfl⟩ := exists_of_find?_context hs
  have ha := assign_eq_ok_iff.mpr ⟨x, hx, hc, hv, rfl⟩
  exact .of_ok ha (henv.assign ha)

theorem Fits.innermost_find? (henv : env.Fits Γ) (hname : Γ.innermost.lookup name = none) :
    env.innermost.find? name = none := by
  rw [← henv.context] at hname
  have hfound := Scope.lookup_names env.innermost name
  rw [show env.innermost.names.lookup name = none from hname] at hfound
  exact Option.map_eq_none_iff.mp hfound.symm

theorem Fits.ends_declare (henv : env.Fits Γ) (hname : Γ.innermost.lookup name = none)
    {x : Variable} (hx : x.Typed) :
    Ends none (Environment.declare name x) env fun _ env' =>
      env'.Fits (Γ.declare name x.signature) := by
  have hd := (declare_eq_ok_iff (x := x)).mpr ⟨henv.innermost_find? hname, rfl⟩
  exact .of_ok hd (henv.declare hx hd)

theorem Fits.ends_define (henv : env.Fits Γ) (hname : Γ.innermost.lookup name = none)
    {x : Variable} {v : Value} (hv : v.type = x.type) :
    Ends none (Environment.define name x v) env fun _ env' =>
      env'.Fits (Γ.declare name x.signature) := by
  have hstore : Variable.store name v x = .ok () { x with value := some v } :=
    Variable.store_eq_ok_iff.mpr ⟨hv, rfl⟩
  have hd := define_eq_ok_iff.mpr
    ⟨_, hstore, declare_eq_ok_iff.mpr ⟨henv.innermost_find? hname, rfl⟩⟩
  exact .of_ok hd (henv.define hd)

end Environment

theorem Ends.result {α : Type} {r : Except RuntimeError α} {a : α} {env : Environment}
    {post : α → Environment → Prop} (hr : r = .ok a) (hpost : post a env) :
    Ends none (Evaluation.result r) env post := by
  subst hr
  exact hpost

theorem Expr.HasType.ends {Γ : Context} {e : Expr} {type : DataType} (h : e.HasType Γ type)
    {env : Environment} (henv : env.Fits Γ) :
    Ends none e.evaluate env fun v env' => v.type = type ∧ env'.Fits Γ := by
  induction h generalizing env with
  | literal => exact ⟨rfl, henv⟩
  | var hs => exact henv.load hs
  | unary _ hop ih =>
    refine (ih henv).bind fun v env' ⟨hv, henv'⟩ => ?_
    subst hv
    obtain ⟨w, hw, htype⟩ := UnaryOp.apply_of_resultType? hop
    exact .result hw ⟨htype, henv'⟩
  | binary _ _ hop ihl ihr =>
    refine (ihl henv).bind fun v env₁ ⟨hv, henv₁⟩ => ?_
    refine (ihr henv₁).bind fun w env₂ ⟨hw, henv₂⟩ => ?_
    subst hv
    obtain ⟨u, hu, htype⟩ := BinaryOp.apply_of_resultType? hw.symm hop
    exact .result hu ⟨htype, henv₂⟩
  | assign hs hc _ ih =>
    refine (ih henv).bind fun v env' ⟨hv, henv'⟩ => ?_
    refine (henv'.ends_assign hs hc hv).bind fun _ env'' henv'' => ?_
    exact ⟨hv, henv''⟩

theorem Declaration.ends {Γ : Context} (d : Declaration) {env : Environment}
    (hname : Γ.innermost.lookup d.id.name = none)
    (hvalue : ∀ value, d.initializer = some value → value.HasType Γ d.type) (henv : env.Fits Γ) :
    Ends none d.evaluate env fun _ env' =>
      env'.Fits (Γ.declare d.id.name ⟨d.type, d.isConstant⟩) := by
  rw [Declaration.evaluate]
  cases hinit : d.initializer with
  | none => exact henv.ends_declare hname nofun
  | some value =>
    refine ((hvalue value hinit).ends henv).bind fun v env' ⟨hv, henv'⟩ => ?_
    exact henv'.ends_define hname hv

/-! ### Statements -/

theorem Output.ends_write (text : String) (out : Output) :
    Ends out.capacity (Output.write text) out fun _ out' => out'.capacity = out.capacity := by
  obtain ⟨bytes, limit⟩ := out
  cases limit with
  | none => exact rfl
  | some n =>
    simp only [Ends, write]
    by_cases h : (bytes ++ text.toUTF8).size ≤ n
    · simp only [if_pos h]
    · simp only [if_neg h, RuntimeError.Permitted, Option.isSome_some]

namespace Machine

/-- A machine for the code in a context, with an output of some capacity. -/
structure Fits (m : Machine) (Γ : Context) (capacity : Option Nat) : Prop where
  environment : m.environment.Fits Γ
  capacity : m.output.capacity = capacity

variable {α : Type} {m : Machine} {Γ Δ : Context} {capacity : Option Nat}

theorem Fits.evaluating (hm : m.Fits Γ capacity) {x : Evaluation α}
    {post : α → Environment → Prop} (hx : Ends none x m.environment post) :
    Ends capacity (Execution.evaluating x) m fun a m' =>
      post a m'.environment ∧ m'.output.capacity = capacity := by
  obtain ⟨a, env, h, hpost⟩ | ⟨e, env, h, he⟩ := ends_iff.mp hx
  · have hrun : Execution.evaluating x m = .ok a { m with environment := env } := by
      rw [Execution.evaluating, h]
    exact .of_ok hrun ⟨hpost, hm.capacity⟩
  · have hrun : Execution.evaluating x m = .error e { m with environment := env } := by
      rw [Execution.evaluating, h]
    exact .of_error hrun (he.mono capacity)

theorem Fits.expression (hm : m.Fits Γ capacity) {e : Expr} {type : DataType}
    (he : e.HasType Γ type) :
    Ends capacity (Execution.evaluating e.evaluate) m fun v m' =>
      v.type = type ∧ m'.Fits Γ capacity :=
  (hm.evaluating (he.ends hm.environment)).imp fun _ _ h => ⟨h.1.1, h.1.2, h.2⟩

theorem Fits.declaration (hm : m.Fits Γ capacity) {d : Declaration}
    (hname : Γ.innermost.lookup d.id.name = none)
    (hvalue : ∀ value, d.initializer = some value → value.HasType Γ d.type) :
    Ends capacity (Execution.evaluating d.evaluate) m fun _ m' =>
      m'.Fits (Γ.declare d.id.name ⟨d.type, d.isConstant⟩) capacity :=
  (hm.evaluating (d.ends hname hvalue hm.environment)).imp fun _ _ h => ⟨h.1, h.2⟩

theorem Fits.printLine (hm : m.Fits Γ capacity) (text : String) :
    Ends capacity (Execution.printLine text) m fun _ m' => m'.Fits Γ capacity := by
  have hwrite := Output.ends_write (text ++ "\n") m.output
  obtain ⟨a, out, h, hcapacity⟩ | ⟨e, out, h, he⟩ := ends_iff.mp hwrite
  · have hrun : Execution.printLine text m = .ok a { m with output := out } := by
      rw [Execution.printLine, h]
    exact .of_ok hrun ⟨hm.environment, hcapacity.trans hm.capacity⟩
  · have hrun : Execution.printLine text m = .error e { m with output := out } := by
      rw [Execution.printLine, h]
    exact .of_error hrun (hm.capacity ▸ he)

/-- Whatever a scope declares, leaving it leads back to the context around it. -/
theorem Fits.inScope (hm : m.Fits Γ capacity) {x : Execution Unit} (hΔ : Δ.outer = Γ.scopes)
    (hx : ∀ m', m'.Fits Γ.enter capacity → Ends capacity x m' fun _ m'' => m''.Fits Δ capacity) :
    Ends capacity (Execution.inScope x) m fun _ m' => m'.Fits Γ capacity := by
  have hbody := hx { m with environment := m.environment.push } ⟨hm.environment.push, hm.capacity⟩
  obtain ⟨a, m', h, hfits⟩ | ⟨e, m', h, he⟩ := ends_iff.mp hbody
  · have hrun : Execution.inScope x m =
        .ok a { m' with environment := m'.environment.pop } := by rw [Execution.inScope, h]
    exact .of_ok hrun ⟨hfits.environment.pop hΔ, hfits.capacity⟩
  · have hrun : Execution.inScope x m =
        .error e { m' with environment := m'.environment.pop } := by rw [Execution.inScope, h]
    exact .of_error hrun he

end Machine

theorem Ends.choose {capacity : Option Nat} {condition : Value} {yes no : Execution Unit}
    {m : Machine} {post : Unit → Machine → Prop} (hc : condition.type = .boolean)
    (hyes : Ends capacity yes m post) (hno : Ends capacity no m post) :
    Ends capacity (Execution.choose condition yes no) m post := by
  cases condition with
  | boolean b =>
    cases b with
    | true => exact hyes
    | false => exact hno
  | number n => exact nomatch hc
  | string s => exact nomatch hc

namespace Stmt

mutual

theorem Checks.ends {Γ Δ : Context} {s : Stmt} {capacity : Option Nat} :
    Checks Γ s Δ → ∀ {m : Machine}, m.Fits Γ capacity →
      Ends capacity s.execute m fun _ m' => m'.Fits Δ capacity
  | .print he, m, hm => by
    refine (hm.expression he).bind fun v m' ⟨_, hm'⟩ => ?_
    exact hm'.printLine v.text
  | .declare hname hvalue, m, hm => hm.declaration hname hvalue
  | .assign he, m, hm => by
    refine (hm.expression he).bind fun v m' ⟨_, hm'⟩ => ?_
    exact hm'
  | .ifThen hc hb, m, hm => by
    refine (hm.expression hc).bind fun v m' ⟨hv, hm'⟩ => ?_
    have hbody := hm'.inScope hb.outer_eq fun _ hinner => hb.ends hinner
    exact .choose hv hbody hm'
  | .ifElse hc hb ho, m, hm => by
    refine (hm.expression hc).bind fun v m' ⟨hv, hm'⟩ => ?_
    have hbody := hm'.inScope hb.outer_eq fun _ hinner => hb.ends hinner
    have hotherwise := hm'.inScope ho.outer_eq fun _ hinner => ho.ends hinner
    exact .choose hv hbody hotherwise
  | .block hb, m, hm => hm.inScope hb.outer_eq fun _ hinner => hb.ends hinner

theorem ChecksAll.ends {Γ Δ : Context} {body : List Stmt} {capacity : Option Nat} :
    ChecksAll Γ body Δ → ∀ {m : Machine}, m.Fits Γ capacity →
      Ends capacity (executeAll body) m fun _ m' => m'.Fits Δ capacity
  | .nil, m, hm => hm
  | .cons hs hr, m, hm => by
    refine (hs.ends hm).bind fun _ m' hm' => ?_
    exact hr.ends hm'

end

end Stmt

/-- From the empty environment and for any output, a well-typed program ends in an environment that
fits its context, or it reads a variable that has no value, or its output is full. -/
theorem executeAll_of_checksAll {body : List Stmt} {Γ : Context}
    (h : Stmt.ChecksAll .empty body Γ) (out : Output) :
    (∃ m, Stmt.executeAll body ⟨.empty, out⟩ = .ok () m ∧ m.environment.Fits Γ) ∨
    (∃ e m, Stmt.executeAll body ⟨.empty, out⟩ = .error e m ∧
      ((∃ name, e = .uninitialized name) ∨ e = .outputFull ∧ out.capacity.isSome = true)) := by
  have hends := h.ends (m := ⟨.empty, out⟩) ⟨.empty, rfl⟩
  obtain ⟨_, m, hrun, hfits⟩ | ⟨e, m, hrun, he⟩ := ends_iff.mp hends
  · exact .inl ⟨m, hrun, hfits.environment⟩
  · refine .inr ⟨e, m, hrun, ?_⟩
    cases e with
    | uninitialized name => exact .inl ⟨name, rfl⟩
    | outputFull => exact .inr ⟨rfl, he⟩
    | _ => exact he.elim

/-- `num x = 1; { bool x = x == 1; print(x = !x); }`, where the second `x` is made from the
first. -/
def shadowing : List Stmt :=
  [.declare ⟨.ofName "x", .number, false, some (.literal (.number .one) .nowhere)⟩ .nowhere,
   .block
    [.declare ⟨.ofName "x", .boolean, false,
      some (.binary .equal (.var (.ofName "x")) (.literal (.number .one) .nowhere) .nowhere)⟩
      .nowhere,
     .print (.assign (.ofName "x") (.unary .not (.var (.ofName "x")) .nowhere) .nowhere) .nowhere]
    .nowhere]

theorem executeAll_shadowing :
    Stmt.ChecksAll .empty shadowing ⟨[("x", ⟨.number, false⟩)], []⟩ ∧
    ((∃ m, Stmt.executeAll shadowing ⟨.empty, .empty none⟩ = .ok () m ∧
      m.environment.Fits ⟨[("x", ⟨.number, false⟩)], []⟩) ∨
    (∃ e m, Stmt.executeAll shadowing ⟨.empty, .empty none⟩ = .error e m ∧
      ((∃ name, e = .uninitialized name) ∨
        e = .outputFull ∧ (none : Option Nat).isSome = true))) := by
  have hchecks : Stmt.ChecksAll .empty shadowing ⟨[("x", ⟨.number, false⟩)], []⟩ := by decide
  exact ⟨hchecks, executeAll_of_checksAll hchecks (.empty none)⟩

end EggLang
