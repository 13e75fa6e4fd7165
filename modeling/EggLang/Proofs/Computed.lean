import EggLang.Proofs.Grammar.Leaves
import EggLang.Proofs.History
import EggLang.Proofs.Transcript

/-! The values that runs come by. What holds of each literal in some code, and of all that operators
make of values for which it holds, holds of every value that a run of the code computes, stores or
prints. -/

namespace EggLang

/-! ### What runs compute -/

/-- Evaluated in the environment, the expression computes the value for itself or for a part of it,
whether or not it fails behind that. -/
inductive Expr.Computes : Expr → Environment → Value → Prop
  | whole {e : Expr} {env env' : Environment} {v : Value} : e.evaluate env = .ok v env' →
      Computes e env v
  | operand {op : UnaryOp} {operand : Expr} {span : Span} {env : Environment} {v : Value} :
      Computes operand env v → Computes (unary op operand span) env v
  | lhs {op : BinaryOp} {lhs rhs : Expr} {span : Span} {env : Environment} {v : Value} :
      Computes lhs env v → Computes (binary op lhs rhs span) env v
  | rhs {op : BinaryOp} {lhs rhs : Expr} {span : Span} {env env' : Environment} {v w : Value} :
      lhs.evaluate env = .ok w env' → Computes rhs env' v → Computes (binary op lhs rhs span) env v
  | assigned {target : Ident} {value : Expr} {span : Span} {env : Environment} {v : Value} :
      Computes value env v → Computes (assign target value span) env v

namespace Stmt

mutual

/-- Run on the machine, the statement computes the value in one of its expressions. -/
inductive Computes : Stmt → Machine → Value → Prop
  | print {e : Expr} {span : Span} {m : Machine} {v : Value} :
      e.Computes m.environment v → Computes (print e span) m v
  | declare {d : Declaration} {span : Span} {e : Expr} {m : Machine} {v : Value} :
      e ∈ d.initializer → e.Computes m.environment v → Computes (declare d span) m v
  | assign {target : Ident} {e : Expr} {span : Span} {m : Machine} {v : Value} :
      (Expr.assign target e span).Computes m.environment v → Computes (assign target e span) m v
  | condition {e : Expr} {body : List Stmt} {otherwise : Option (List Stmt)} {span : Span}
      {m : Machine} {v : Value} :
      e.Computes m.environment v → Computes (ifElse e body otherwise span) m v
  | body {e : Expr} {body : List Stmt} {otherwise : Option (List Stmt)} {span : Span}
      {m : Machine} {env : Environment} {v : Value} :
      e.evaluate m.environment = .ok (.boolean true) env →
      ComputesAll body { m with environment := env.push } v →
      Computes (ifElse e body otherwise span) m v
  | otherwise {e : Expr} {body other : List Stmt} {span : Span} {m : Machine} {env : Environment}
      {v : Value} : e.evaluate m.environment = .ok (.boolean false) env →
      ComputesAll other { m with environment := env.push } v →
      Computes (ifElse e body (some other) span) m v
  | block {body : List Stmt} {span : Span} {m : Machine} {v : Value} :
      ComputesAll body { m with environment := m.environment.push } v →
      Computes (block body span) m v

inductive ComputesAll : List Stmt → Machine → Value → Prop
  | head {s : Stmt} {rest : List Stmt} {m : Machine} {v : Value} :
      Computes s m v → ComputesAll (s :: rest) m v
  | tail {s : Stmt} {rest : List Stmt} {m m' : Machine} {v : Value} :
      s.execute m = .ok () m' → ComputesAll rest m' v → ComputesAll (s :: rest) m v

end

end Stmt

/-! ### Printed values -/

namespace Execution

variable {α : Type}

theorem exists_of_mem_printedAfter {x : Execution α} {next : α → Machine → List Value}
    {m : Machine} {v : Value} (h : v ∈ printedAfter x next m) :
    ∃ a m', x m = .ok a m' ∧ v ∈ next a m' := by
  cases hx : x m with
  | ok a m' =>
    rw [printedAfter_of_ok hx] at h
    exact ⟨a, m', rfl, h⟩
  | error e m' =>
    rw [printedAfter_of_error hx] at h
    cases h

theorem exists_of_mem_printedAfter_evaluating {x : Evaluation α}
    {next : α → Machine → List Value} {m : Machine} {v : Value}
    (h : v ∈ printedAfter (evaluating x) next m) :
    ∃ a env, x m.environment = .ok a env ∧ v ∈ next a { m with environment := env } := by
  obtain ⟨a, m', hm, h⟩ := exists_of_mem_printedAfter h
  cases hx : x m.environment with
  | ok b env =>
    rw [evaluating_of_ok hx] at hm
    cases hm
    exact ⟨a, env, rfl, h⟩
  | error e env =>
    rw [evaluating_of_error hx] at hm
    cases hm

theorem of_mem_printedOn {condition v : Value} {yes no : Machine → List Value} {m : Machine}
    (h : v ∈ printedOn condition yes no m) :
    (condition = .boolean true ∧ v ∈ yes m) ∨ (condition = .boolean false ∧ v ∈ no m) := by
  cases condition with
  | boolean b =>
    cases b with
    | true => exact .inl ⟨rfl, h⟩
    | false => exact .inr ⟨rfl, h⟩
  | number n => cases h
  | string s => cases h

end Execution

namespace Stmt

open Execution

variable {m : Machine} {v : Value}

mutual

/-- What is printed is computed before. -/
theorem computes_of_transcript : (s : Stmt) → ∀ {m}, v ∈ s.transcript m → s.Computes m v
  | print e span, m, h => by
    obtain ⟨w, env, hw, h⟩ := exists_of_mem_printedAfter_evaluating h
    rw [List.mem_singleton.mp h]
    exact .print (.whole hw)
  | declare d span, m, h => by cases h
  | assign target e span, m, h => by cases h
  | ifElse e body none span, m, h => by
    obtain ⟨w, env, hw, h⟩ := exists_of_mem_printedAfter_evaluating h
    obtain ⟨rfl, h⟩ | ⟨rfl, h⟩ := of_mem_printedOn h
    · exact .body hw (computesAll_of_transcriptAll body h)
    · cases h
  | ifElse e body (some other) span, m, h => by
    obtain ⟨w, env, hw, h⟩ := exists_of_mem_printedAfter_evaluating h
    obtain ⟨rfl, h⟩ | ⟨rfl, h⟩ := of_mem_printedOn h
    · exact .body hw (computesAll_of_transcriptAll body h)
    · exact .otherwise hw (computesAll_of_transcriptAll other h)
  | block body span, m, h => .block (computesAll_of_transcriptAll body h)

theorem computesAll_of_transcriptAll : (body : List Stmt) → ∀ {m}, v ∈ transcriptAll body m →
    ComputesAll body m v
  | [], m, h => by cases h
  | s :: rest, m, h => by
    rcases List.mem_append.mp h with h | h
    · exact .head (computes_of_transcript s h)
    · obtain ⟨_, m', hs, h⟩ := exists_of_mem_printedAfter h
      exact .tail hs (computesAll_of_transcriptAll rest h)

end

end Stmt

/-! ### What operators keep -/

/-- Operators make of values for which `p` holds only such values. -/
structure Value.Kept (p : Value → Prop) : Prop where
  unary : ∀ {op : UnaryOp} {v w}, p v → op.apply v = .ok w → p w
  binary : ∀ {op : BinaryOp} {v w u}, p v → p w → op.apply v w = .ok u → p u

namespace Environment

/-- `p` holds of the value of each variable that has one. -/
abbrev Holds (p : Value → Prop) (env : Environment) : Prop :=
  env.All fun x => ∀ v ∈ x.value, p v

variable {p : Value → Prop} {env env' : Environment} {name : String} {v : Value}

theorem Holds.get (h : env.Holds p) (hv : env.get name = .ok v) : p v := by
  rw [Environment.get] at hv
  cases hx : env.find? name with
  | none =>
    rw [hx] at hv
    cases hv
  | some x =>
    obtain ⟨scope, hscope, hmem⟩ := List.exists_of_findSome?_eq_some hx
    have hvalue := h scope hscope _ (Scope.mem_of_find? hmem)
    cases hxv : x.value with
    | none => simp [hx, hxv] at hv
    | some w =>
      simp only [hx, hxv, Except.ok.injEq] at hv
      exact hv ▸ hvalue w hxv

theorem Holds.assign (h : env.Holds p) (hv : p v) (ha : assign name v env = .ok () env') :
    env'.Holds p := by
  obtain ⟨x, -, -, -, rfl⟩ := assign_eq_ok_iff.mp ha
  refine h.replace ?_
  rintro _ ⟨⟩
  exact hv

theorem Holds.define {x : Variable} (h : env.Holds p) (hv : p v)
    (hd : define name x v env = .ok () env') : env'.Holds p := by
  obtain ⟨y, hy, hd⟩ := define_eq_ok_iff.mp hd
  obtain ⟨-, rfl⟩ := Variable.store_eq_ok_iff.mp hy
  refine h.declare ?_ hd
  rintro _ ⟨⟩
  exact hv

end Environment

/-! ### Runs -/

/-- Started where `inv` holds, `x` passes only through environments where it does, which are those
of its history, and `post` holds of its result. -/
def Sustains {α σ : Type} (view : σ → Environment) (inv : Environment → Prop) (post : α → Prop)
    (x : EStateM RuntimeError σ α) (history : σ → List Environment) : Prop :=
  ∀ s, inv (view s) → (∀ env ∈ history s, inv env) ∧ inv (view (after x s)) ∧
    ∀ a s', x s = .ok a s' → post a

section

variable {α β σ : Type} {view : σ → Environment} {inv : Environment → Prop} {mid : α → Prop}
  {post : β → Prop} {x : EStateM RuntimeError σ α} {f : α → EStateM RuntimeError σ β}
  {history : σ → List Environment}

theorem sustains_of_still (h : ∀ s, view (after x s) = view s)
    (hresult : ∀ s, inv (view s) → ∀ a s', x s = .ok a s' → mid a) :
    Sustains view inv mid x fun s => [view s] := by
  intro s hs
  rw [h]
  exact ⟨List.forall_mem_singleton.mpr hs, hs, hresult s hs⟩

theorem Sustains.bind {next : α → σ → List Environment} (hx : Sustains view inv mid x history)
    (hf : ∀ a, mid a → Sustains view inv post (f a) (next a)) :
    Sustains view inv post (x >>= f) fun s => history s ++ following x next s := by
  intro s hs
  obtain ⟨hhistory, hafter, hresult⟩ := hx s hs
  show (∀ env ∈ history s ++ following x next s, inv env) ∧ _
  cases h : x s with
  | ok a s' =>
    rw [after_of_ok h] at hafter
    obtain ⟨hnext, hf⟩ := hf a (hresult a s' h) s' hafter
    rw [after_bind_of_ok h, bind_of_ok h, following_of_ok h]
    exact ⟨List.forall_mem_append.mpr ⟨hhistory, hnext⟩, hf⟩
  | error e s' =>
    rw [after_of_error h] at hafter
    rw [after_of_error (bind_of_error h), bind_of_error h, following_of_error h, List.append_nil]
    exact ⟨hhistory, hafter, nofun⟩

/-- What leaves the environment alone adds nothing to a history. -/
theorem Sustains.bind_still (hx : Sustains view inv mid x history)
    (hf : ∀ a s, view (after (f a) s) = view s)
    (hresult : ∀ a, mid a → ∀ s b s', f a s = .ok b s' → post b) :
    Sustains view inv post (x >>= f) history := by
  intro s hs
  obtain ⟨hhistory, hafter, hmid⟩ := hx s hs
  refine ⟨hhistory, ?_⟩
  cases h : x s with
  | ok a s' =>
    rw [after_of_ok h] at hafter
    rw [after_bind_of_ok h, bind_of_ok h, hf]
    exact ⟨hafter, hresult a (hmid a s' h) s'⟩
  | error e s' =>
    rw [after_of_error h] at hafter
    rw [after_of_error (bind_of_error h), bind_of_error h]
    exact ⟨hafter, nofun⟩

theorem Atomic.sustains {x : Evaluation Unit} (hx : Atomic x)
    (h : ∀ env env', inv env → x env = .ok () env' → inv env') :
    Sustains (fun env => env) inv (fun _ => True) x (operationHistory x) := by
  intro env henv
  have hafter : inv (after x env) :=
    hx.moves (r := fun env env' => inv env → inv env') (fun _ => id)
      (fun env env' hrun henv => h env env' henv hrun) env henv
  refine ⟨?_, hafter, fun _ _ _ => trivial⟩
  exact List.forall_mem_cons.mpr ⟨henv, List.forall_mem_singleton.mpr hafter⟩

end

theorem Evaluation.eq_of_result_ok {α : Type} {r : Except RuntimeError α} {a : α}
    {env env' : Environment} (h : result r env = .ok a env') : r = .ok a := by
  cases r with
  | ok b =>
    cases h
    rfl
  | error e => cases h

theorem Evaluation.get_of_load_ok {name : String} {v : Value} {env env' : Environment}
    (h : load name env = .ok v env') : env.get name = .ok v := by
  rw [load] at h
  cases hget : env.get name with
  | ok w =>
    rw [hget] at h
    cases h
    rfl
  | error e =>
    rw [hget] at h
    cases h

section

variable {p : Value → Prop} {name : String → Prop} (hp : Value.Kept p)

include hp

theorem Expr.sustains {e : Expr} (he : e.Leaves name p) :
    Sustains (fun env => env) (Environment.Holds p) p e.evaluate e.history := by
  induction he with
  | literal hv =>
    refine sustains_of_still (fun _ => rfl) fun _ _ _ _ h => ?_
    cases h
    exact hv
  | var _ =>
    exact sustains_of_still (Evaluation.after_load _)
      fun _ henv _ _ h => henv.get (Evaluation.get_of_load_ok h)
  | unary _ ih =>
    exact ih.bind_still (fun _ => Evaluation.after_result _)
      fun _ hv _ _ _ h => hp.unary hv (Evaluation.eq_of_result_ok h)
  | binary _ _ ihl ihr =>
    exact ihl.bind fun _ hv => ihr.bind_still (fun _ => Evaluation.after_result _)
      fun _ hw _ _ _ h => hp.binary hv hw (Evaluation.eq_of_result_ok h)
  | @assign target value span _ _ ih =>
    refine ih.bind fun v hv => ?_
    have hassign := (Environment.atomic_assign target.name v).sustains
      fun env _ (henv : env.Holds p) => henv.assign hv
    refine hassign.bind_still (fun _ _ => rfl) ?_
    intro _ _ _ _ _ h
    cases h
    exact hv

theorem Declaration.sustains {d : Declaration} (hd : ∀ e ∈ d.initializer, e.Leaves name p) :
    Sustains (fun env => env) (Environment.Holds p) (fun _ => True) d.evaluate d.history := by
  rw [Declaration.evaluate, Declaration.history]
  cases h : d.initializer with
  | some e =>
    refine (Expr.sustains hp (hd e h)).bind fun v hv => ?_
    exact (Environment.atomic_define _ _ v).sustains fun _ _ henv => henv.define hv
  | none => exact (Environment.atomic_declare _ _).sustains fun _ _ henv => henv.declare (by simp)

end

namespace Execution

variable {α : Type} {inv : Environment → Prop}

theorem sustains_evaluating {post : α → Prop} {x : Evaluation α}
    {history : Environment → List Environment}
    (h : Sustains (fun env => env) inv post x history) :
    Sustains Machine.environment inv post (evaluating x) fun m => history m.environment := by
  intro m hm
  obtain ⟨hhistory, hafter, hresult⟩ := h m.environment hm
  refine ⟨hhistory, by rwa [after_evaluating], fun a m' ha => ?_⟩
  cases hx : x m.environment with
  | ok b env =>
    rw [evaluating_of_ok hx] at ha
    cases ha
    exact hresult a env hx
  | error e env =>
    rw [evaluating_of_error hx] at ha
    cases ha

theorem sustains_inScope {p : Value → Prop} {x : Execution Unit}
    {inside : Machine → List Environment}
    (h : Sustains Machine.environment (Environment.Holds p) (fun _ => True) x inside) :
    Sustains Machine.environment (Environment.Holds p) (fun _ => True) (inScope x)
      (scopeHistory x inside) := by
  intro m hm
  obtain ⟨hinside, hend, -⟩ := h { m with environment := m.environment.push } hm.push
  have hafter : (after (inScope x) m).environment.Holds p := by
    rw [environment_inScope]
    exact hend.pop
  refine ⟨?_, hafter, fun _ _ _ => trivial⟩
  rw [scopeHistory, List.forall_mem_append]
  exact ⟨List.forall_mem_cons.mpr ⟨hm, hinside⟩, List.forall_mem_singleton.mpr hafter⟩

theorem sustains_choose {v : Value} {yes no : Execution Unit}
    {yesHistory noHistory : Machine → List Environment}
    (hyes : Sustains Machine.environment inv (fun _ => True) yes yesHistory)
    (hno : Sustains Machine.environment inv (fun _ => True) no noHistory) :
    Sustains Machine.environment inv (fun _ => True) (choose v yes no)
      (branchHistory v yesHistory noHistory) := by
  cases v with
  | boolean b =>
    cases b with
    | true => exact hyes
    | false => exact hno
  | number n => exact sustains_of_still (fun _ => rfl) fun _ _ _ _ _ => trivial
  | string s => exact sustains_of_still (fun _ => rfl) fun _ _ _ _ _ => trivial

end Execution

namespace Stmt

open Execution

variable {p : Value → Prop} {name : String → Prop}

mutual

theorem sustains (hp : Value.Kept p) : (s : Stmt) → s.Leaves name p →
    Sustains Machine.environment (Environment.Holds p) (fun _ => True) s.execute s.history
  | print _ _, .print he =>
    (sustains_evaluating (Expr.sustains hp he)).bind_still (fun v => environment_printLine v.text)
      fun _ _ _ _ _ _ => trivial
  | declare _ _, .declare _ hd => sustains_evaluating (Declaration.sustains hp hd)
  | assign _ _ _, .assign hname he =>
    (sustains_evaluating (Expr.sustains hp (.assign hname he))).bind_still (fun _ _ => rfl)
      fun _ _ _ _ _ _ => trivial
  | ifElse _ body none _, .ifElse hcondition hbody _ =>
    (sustains_evaluating (Expr.sustains hp hcondition)).bind fun _ _ =>
      sustains_choose (sustains_inScope (sustainsAll hp body hbody))
        (sustains_of_still (fun _ => rfl) fun _ _ _ _ _ => trivial)
  | ifElse _ body (some other) _, .ifElse hcondition hbody hother =>
    (sustains_evaluating (Expr.sustains hp hcondition)).bind fun _ _ =>
      sustains_choose (sustains_inScope (sustainsAll hp body hbody))
        (sustains_inScope (sustainsAll hp other (hother other rfl)))
  | block body _, .block hbody =>
    sustains_inScope (sustainsAll hp body hbody)

theorem sustainsAll (hp : Value.Kept p) :
    (body : List Stmt) → (∀ s ∈ body, s.Leaves name p) →
    Sustains Machine.environment (Environment.Holds p) (fun _ => True) (executeAll body)
      (historyAll body)
  | [], _ => sustains_of_still (fun _ => rfl) fun _ _ _ _ _ => trivial
  | s :: rest, h =>
    (sustains hp s (h s List.mem_cons_self)).bind fun _ _ =>
      sustainsAll hp rest fun s' hs' => h s' (List.mem_cons_of_mem s hs')

end

end Stmt

/-! ### Values along runs -/

/-- In the run of the statements the value is computed by an expression, held by a variable or
printed. -/
inductive Stmt.Arises (body : List Stmt) (m : Machine) (v : Value) : Prop
  | computed : ComputesAll body m v → Arises body m v
  | stored {env : Environment} {scope : Scope} {entry : String × Variable} :
      env ∈ historyAll body m → scope ∈ env.scopes → entry ∈ scope → v ∈ entry.2.value →
      Arises body m v
  | printed : v ∈ transcriptAll body m → Arises body m v

section

variable {p : Value → Prop} {name : String → Prop} (hp : Value.Kept p)

include hp

theorem Expr.holds_of_ok {e : Expr} {env env' : Environment} {v : Value} (he : e.Leaves name p)
    (henv : env.Holds p) (h : e.evaluate env = .ok v env') : env'.Holds p := by
  have hafter := (Expr.sustains hp he env henv).2.1
  rwa [after_of_ok h] at hafter

theorem Expr.Computes.holds {e : Expr} {env : Environment} {v : Value} (h : e.Computes env v)
    (he : e.Leaves name p) (henv : env.Holds p) : p v := by
  induction h with
  | whole h => exact (Expr.sustains hp he _ henv).2.2 _ _ h
  | operand _ ih =>
    cases he with
    | unary he => exact ih he henv
  | lhs _ ih =>
    cases he with
    | binary hl _ => exact ih hl henv
  | rhs hw _ ih =>
    cases he with
    | binary hl hr => exact ih hr (Expr.holds_of_ok hp hl henv hw)
  | assigned _ ih =>
    cases he with
    | assign _ he => exact ih he henv

namespace Stmt

mutual

theorem Computes.holds {s : Stmt} {m : Machine} {v : Value} :
    s.Computes m v → s.Leaves name p → m.environment.Holds p → p v
  | .print h, .print he, hm => h.holds hp he hm
  | .declare hmem h, .declare _ hd, hm => h.holds hp (hd _ hmem) hm
  | .assign h, .assign hname he, hm => h.holds hp (.assign hname he) hm
  | .condition h, .ifElse he _ _, hm => h.holds hp he hm
  | .body he h, .ifElse hcondition hbody _, hm =>
    h.holds hbody (Expr.holds_of_ok hp hcondition hm he).push
  | .otherwise he h, .ifElse hcondition _ hother, hm =>
    h.holds (hother _ rfl) (Expr.holds_of_ok hp hcondition hm he).push
  | .block h, .block hbody, hm => h.holds hbody hm.push

theorem ComputesAll.holds {body : List Stmt} {m : Machine} {v : Value} :
    ComputesAll body m v → (∀ s ∈ body, s.Leaves name p) → m.environment.Holds p → p v
  | .head h, hbody, hm => h.holds (hbody _ List.mem_cons_self) hm
  | .tail (s := s) hs h, hbody, hm => by
    have hafter := (Stmt.sustains hp s (hbody s List.mem_cons_self) _ hm).2.1
    rw [after_of_ok hs] at hafter
    exact h.holds (fun s' hs' => hbody s' (List.mem_cons_of_mem s hs')) hafter

end

theorem Arises.holds {body : List Stmt} {m : Machine} {v : Value} (h : Arises body m v)
    (hbody : ∀ s ∈ body, s.Leaves name p) (hm : m.environment.Holds p) : p v := by
  cases h with
  | computed h => exact h.holds hp hbody hm
  | stored henv hscope hentry hv =>
    exact (Stmt.sustainsAll hp body hbody m hm).1 _ henv _ hscope _ hentry v hv
  | printed h => exact (computesAll_of_transcriptAll body h).holds hp hbody hm

end Stmt

end

end EggLang
