import EggLang.Execution
import EggLang.Proofs.Environment
import EggLang.Proofs.Names

/-! How runs end: `after` is the state that a run leaves behind, `Moves` says where runs lead
however they end, `Splits` tells the runs that succeed from those that fail, and `behind` lists what
comes of a run where it succeeds. -/

namespace EggLang

/-- The state that `x` leaves behind when it is run from `s`, where it fails too. -/
def after {α σ : Type} (x : EStateM RuntimeError σ α) (s : σ) : σ :=
  match x s with
  | .ok _ s' => s'
  | .error _ s' => s'

/-- However it ends, `x` leads from a state to one that `r` relates to it. -/
def Moves {α σ : Type} (r : σ → σ → Prop) (x : EStateM RuntimeError σ α) : Prop :=
  ∀ s, r s (after x s)

section

variable {α β σ : Type}

theorem after_of_ok {x : EStateM RuntimeError σ α} {s s' : σ} {a : α} (h : x s = .ok a s') :
    after x s = s' := by
  rw [after, h]

theorem after_of_error {x : EStateM RuntimeError σ α} {s s' : σ} {e : RuntimeError}
    (h : x s = .error e s') : after x s = s' := by
  rw [after, h]

theorem bind_of_ok {x : EStateM RuntimeError σ α} {f : α → EStateM RuntimeError σ β} {s s' : σ}
    {a : α} (h : x s = .ok a s') : (x >>= f) s = f a s' := by
  show EStateM.bind x f s = _
  rw [EStateM.bind, h]

theorem bind_of_error {x : EStateM RuntimeError σ α} {f : α → EStateM RuntimeError σ β} {s s' : σ}
    {e : RuntimeError} (h : x s = .error e s') : (x >>= f) s = .error e s' := by
  show EStateM.bind x f s = _
  rw [EStateM.bind, h]

theorem exists_of_bind_ok {x : EStateM RuntimeError σ α} {f : α → EStateM RuntimeError σ β}
    {s s' : σ} {b : β} (h : (x >>= f) s = .ok b s') :
    ∃ a s₁, x s = .ok a s₁ ∧ f a s₁ = .ok b s' := by
  cases hx : x s with
  | ok a s₁ => exact ⟨a, s₁, rfl, by rwa [bind_of_ok hx] at h⟩
  | error e s₁ =>
    rw [bind_of_error hx] at h
    cases h

theorem after_bind_of_ok {x : EStateM RuntimeError σ α} {f : α → EStateM RuntimeError σ β}
    {s s' : σ} {a : α} (h : x s = .ok a s') : after (x >>= f) s = after (f a) s' := by
  rw [after, bind_of_ok h, after]

theorem after_bind_of_still {x : EStateM RuntimeError σ α} {f : α → EStateM RuntimeError σ β}
    (hf : ∀ a s, after (f a) s = s) (s : σ) : after (x >>= f) s = after x s := by
  cases h : x s with
  | ok a s' => rw [after_bind_of_ok h, hf, after_of_ok h]
  | error e s' => rw [after_of_error (bind_of_error h), after_of_error h]

theorem Moves.pure {r : σ → σ → Prop} (hrefl : ∀ s, r s s) (a : α) :
    Moves r (pure a : EStateM RuntimeError σ α) := hrefl

theorem Moves.bind {r : σ → σ → Prop} {x : EStateM RuntimeError σ α}
    {f : α → EStateM RuntimeError σ β} (htrans : ∀ {s t u}, r s t → r t u → r s u)
    (hx : Moves r x) (hf : ∀ a, Moves r (f a)) : Moves r (x >>= f) := by
  intro s
  have hs := hx s
  cases h : x s with
  | ok a s' =>
    rw [after_of_ok h] at hs
    rw [after_bind_of_ok h]
    exact htrans hs (hf a s')
  | error e s' =>
    rw [after_of_error h] at hs
    rwa [after_of_error (bind_of_error h)]

end

/-- Run from `s`, `x` ends with a result in a state for which `done` holds, or it fails in one for
which `failed` holds. -/
def Splits {α σ : Type} (x : EStateM RuntimeError σ α) (s : σ) (done failed : σ → Prop) : Prop :=
  match x s with
  | .ok _ s' => done s'
  | .error _ s' => failed s'

section

variable {α β σ : Type} {x : EStateM RuntimeError σ α} {s : σ} {done failed : σ → Prop}

theorem splits_iff : Splits x s done failed ↔
    (∃ a s', x s = .ok a s' ∧ done s') ∨ ∃ e s', x s = .error e s' ∧ failed s' := by
  rw [Splits]
  cases x s <;> simp [and_assoc]

theorem Splits.of_moves {r : σ → σ → Prop} (hx : Moves r x) : Splits x s (r s) (r s) := by
  have hs := hx s
  rw [after] at hs
  rw [Splits]
  cases h : x s <;> rwa [h] at hs

theorem Splits.bind {f : α → EStateM RuntimeError σ β} {mid : σ → Prop}
    (hx : Splits x s mid failed) (hf : ∀ a s', mid s' → Splits (f a) s' done failed) :
    Splits (x >>= f) s done failed := by
  obtain ⟨a, s', h, hmid⟩ | ⟨e, s', h, hfailed⟩ := splits_iff.mp hx
  · rw [Splits, bind_of_ok h]
    exact hf a s' hmid
  · rw [Splits, bind_of_error h]
    exact hfailed

end

namespace Atomic

variable {σ : Type} {x : EStateM RuntimeError σ Unit} (hx : Atomic x)

include hx

/-- What fails without a change leads where it started. -/
theorem moves {r : σ → σ → Prop} (hrefl : ∀ s, r s s) (h : ∀ s s', x s = .ok () s' → r s s') :
    Moves r x := by
  intro s
  rw [after]
  cases hrun : x s with
  | ok _ s' => exact h s s' hrun
  | error e s' =>
    rw [hx s e s' hrun]
    exact hrefl s

theorem splits {s : σ} {done failed : σ → Prop} (hdone : ∀ s', x s = .ok () s' → done s')
    (hfailed : failed s) : Splits x s done failed := by
  rw [Splits]
  cases hrun : x s with
  | ok _ s' => exact hdone s' hrun
  | error e s' =>
    rw [hx s e s' hrun]
    exact hfailed

end Atomic

/-- What `next` lists behind `x`, where `x` succeeds. -/
def behind {α σ τ : Type} (x : EStateM RuntimeError σ α) (next : α → σ → List τ) (s : σ) : List τ :=
  match x s with
  | .ok a s' => next a s'
  | .error _ _ => []

section

variable {α σ τ : Type} {x : EStateM RuntimeError σ α} {next : α → σ → List τ} {s s' : σ}

theorem behind_of_ok {a : α} (h : x s = .ok a s') : behind x next s = next a s' := by
  rw [behind, h]

theorem behind_of_error {e : RuntimeError} (h : x s = .error e s') : behind x next s = [] := by
  rw [behind, h]

end

/-! ### Evaluations and executions -/

namespace Evaluation

theorem after_load (name : String) (env : Environment) : after (load name) env = env := by
  rw [after, load]
  cases env.get name <;> rfl

theorem after_result {α : Type} (r : Except RuntimeError α) (env : Environment) :
    after (result r) env = env := by
  cases r <;> rfl

end Evaluation

/-- An expression moves an environment by assignments to its names alone. -/
theorem Expr.moves_names {r : Environment → Environment → Prop} (hrefl : ∀ env, r env env)
    (htrans : ∀ {env env' env''}, r env env' → r env' env'' → r env env'') (e : Expr)
    (hassign : ∀ {name v env env'}, name ∈ e.names → Environment.assign name v env = .ok () env' →
      r env env') :
    Moves r e.evaluate := by
  induction e with
  | literal v span => exact hrefl
  | var id =>
    intro env
    rw [Expr.evaluate, Evaluation.after_load]
    exact hrefl env
  | unary op operand span ih =>
    refine (ih hassign).bind htrans fun v env => ?_
    rw [Evaluation.after_result]
    exact hrefl env
  | binary op lhs rhs span ihl ihr =>
    have hl := ihl fun hname => hassign (List.mem_append_left rhs.names hname)
    have hr := ihr fun hname => hassign (List.mem_append_right lhs.names hname)
    refine hl.bind htrans fun v => hr.bind htrans fun w env => ?_
    rw [Evaluation.after_result]
    exact hrefl env
  | assign target value span ih =>
    have hvalue := ih fun hname => hassign (List.mem_cons_of_mem target.name hname)
    refine hvalue.bind htrans fun v => ?_
    have hassign' := (Environment.atomic_assign target.name v).moves hrefl fun _ _ =>
      hassign (List.mem_cons_self (a := target.name) (l := value.names))
    exact hassign'.bind htrans fun _ => hrefl

theorem Expr.moves {r : Environment → Environment → Prop} (hrefl : ∀ env, r env env)
    (htrans : ∀ {env env' env''}, r env env' → r env' env'' → r env env'')
    (hassign : ∀ {name v env env'}, Environment.assign name v env = .ok () env' → r env env')
    (e : Expr) :
    Moves r e.evaluate :=
  e.moves_names hrefl htrans fun _ => hassign

namespace Execution

theorem after_evaluating {α : Type} (x : Evaluation α) (m : Machine) :
    (after (evaluating x) m).environment = after x m.environment := by
  rw [after, after, evaluating]
  cases x m.environment <;> rfl

theorem output_evaluating {α : Type} (x : Evaluation α) (m : Machine) :
    (after (evaluating x) m).output = m.output := by
  rw [after, evaluating]
  cases x m.environment <;> rfl

theorem splits_evaluating {α : Type} {x : Evaluation α} {m : Machine}
    {done failed : Environment → Prop} (hx : Splits x m.environment done failed) :
    Splits (evaluating x) m (fun m' => done m'.environment) fun m' => failed m'.environment := by
  obtain ⟨a, env, h, hdone⟩ | ⟨e, env, h, hfailed⟩ := splits_iff.mp hx
  · rw [Splits, evaluating, h]
    exact hdone
  · rw [Splits, evaluating, h]
    exact hfailed

theorem environment_printLine (text : String) (m : Machine) :
    (after (printLine text) m).environment = m.environment := by
  rw [after, printLine]
  cases Output.write (text ++ "\n") m.output <;> rfl

theorem environment_inScope (x : Execution Unit) (m : Machine) :
    (after (inScope x) m).environment =
      (after x { m with environment := m.environment.push }).environment.pop := by
  rw [after, after, inScope]
  cases x { m with environment := m.environment.push } <;> rfl

theorem moves_choose {v : Value} {yes no : Execution Unit} {r : Machine → Machine → Prop}
    (hrefl : ∀ m, r m m) (hyes : Moves r yes) (hno : Moves r no) :
    Moves r (choose v yes no) := by
  cases v with
  | boolean b =>
    cases b with
    | true => exact hyes
    | false => exact hno
  | number n => exact hrefl
  | string s => exact hrefl

theorem evaluating_of_ok {α : Type} {x : Evaluation α} {m : Machine} {a : α} {env : Environment}
    (h : x m.environment = .ok a env) : evaluating x m = .ok a { m with environment := env } := by
  rw [evaluating, h]

theorem evaluating_of_error {α : Type} {x : Evaluation α} {m : Machine} {e : RuntimeError}
    {env : Environment} (h : x m.environment = .error e env) :
    evaluating x m = .error e { m with environment := env } := by
  rw [evaluating, h]

theorem evaluating_bind {α β : Type} (x : Evaluation α) (f : α → Evaluation β) :
    evaluating (x >>= f) = (do
      let a ← evaluating x
      evaluating (f a)) := by
  funext m
  cases h : x m.environment with
  | ok a env => rw [bind_of_ok (evaluating_of_ok h), evaluating, evaluating, bind_of_ok h]
  | error e env =>
    rw [bind_of_error (evaluating_of_error h), evaluating_of_error (bind_of_error h)]

theorem inScope_of_ok {x : Execution Unit} {m m' : Machine}
    (h : x { m with environment := m.environment.push } = .ok () m') :
    inScope x m = .ok () { m' with environment := m'.environment.pop } := by
  rw [inScope, h]

theorem inScope_of_error {x : Execution Unit} {m m' : Machine} {e : RuntimeError}
    (h : x { m with environment := m.environment.push } = .error e m') :
    inScope x m = .error e { m' with environment := m'.environment.pop } := by
  rw [inScope, h]

end Execution

namespace Stmt

theorem executeAll_append (body more : List Stmt) :
    executeAll (body ++ more) = (do executeAll body; executeAll more) := by
  induction body with
  | nil => rfl
  | cons s rest ih =>
    rw [List.cons_append, executeAll, executeAll, ih]
    exact (bind_assoc ..).symm

end Stmt

end EggLang
