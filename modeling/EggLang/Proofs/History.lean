import EggLang.Proofs.Evolution
import EggLang.Proofs.Program
import EggLang.Proofs.Run
import Mathlib.Data.List.Chain

/-! The histories of sessions: the environments that calls on one machine pass through, in order.
Each of them comes from the one before by one operation, so that what the operations keep holds at
every point of a session and between any two points. -/

namespace EggLang

/-! ### Paths -/

/-- The environments in `path`, each one operation from the next, lead from `first` to `last`. -/
structure Path (first : Environment) (path : List Environment) (last : Environment) : Prop where
  chain : path.IsChain Environment.Step
  head : path.head? = some first
  last : path.getLast? = some last

namespace Path

variable {env env' env₁ env₂ : Environment} {path path' : List Environment}

theorem single (env : Environment) : Path env [env] env := ⟨.singleton env, rfl, rfl⟩

theorem append (h : Path env path env₁) (hstep : env₁.Step env₂) (h' : Path env₂ path' env') :
    Path env (path ++ path') env' where
  chain := by
    refine List.isChain_append.mpr ⟨h.chain, h'.chain, fun x hx y hy => ?_⟩
    cases h.last.symm.trans hx
    cases h'.head.symm.trans hy
    exact hstep
  head := by rw [List.head?_append, h.head, Option.some_or]
  last := by rw [List.getLast?_append, h'.last, Option.some_or]

theorem sound (h : Path env path env') (henv : env.Sound) : ∀ env₁ ∈ path, env₁.Sound := by
  obtain ⟨hchain, hhead, -⟩ := h
  induction path generalizing env with
  | nil => exact List.forall_mem_nil _
  | cons first rest ih =>
    cases hhead
    refine List.forall_mem_cons.mpr ⟨henv, ?_⟩
    cases rest with
    | nil => exact List.forall_mem_nil _
    | cons second rest =>
      rw [List.isChain_cons_cons] at hchain
      exact ih (hchain.1.sound henv) hchain.2 rfl

/-- As long as a scope is there, its variables only evolve. -/
theorem evolves (h : Path env path env') {d : Nat} (hd : ∀ env₁ ∈ path, d ≤ env₁.depth) :
    List.Forall₂ Scope.Evolves (env.outermost d) (env'.outermost d) := by
  obtain ⟨hchain, hhead, hlast⟩ := h
  induction path generalizing env with
  | nil => cases hhead
  | cons first rest ih =>
    cases hhead
    cases rest with
    | nil =>
      cases hlast
      exact Environment.forall₂_evolves_refl _
    | cons second rest =>
      rw [List.isChain_cons_cons] at hchain
      rw [List.forall_mem_cons] at hd
      have hstep := hchain.1.evolves hd.1 (hd.2 second List.mem_cons_self)
      exact Environment.forall₂_trans hstep (ih hd.2 hchain.2 rfl hlast) Scope.Evolves.trans

/-- Any part of a path without gaps is a path. -/
theorem of_part {part : List Environment} {first last : Environment} (h : Path env path env')
    (hpart : part <:+: path) (hfirst : part.head? = some first)
    (hlast : part.getLast? = some last) : Path first part last := by
  have hchain := List.IsChain.infix h.chain hpart
  exact ⟨hchain, hfirst, hlast⟩

end Path

/-! ### Histories of runs -/

section

variable {α β σ : Type}

/-- What follows in a history where `x` succeeds. Nothing follows where it fails. -/
def following (x : EStateM RuntimeError σ α) (next : α → σ → List Environment) (s : σ) :
    List Environment :=
  match x s with
  | .ok a s' => next a s'
  | .error _ _ => []

/-- However it ends, `x` passes through the environments of its history. -/
def Records (view : σ → Environment) (x : EStateM RuntimeError σ α)
    (history : σ → List Environment) : Prop :=
  ∀ s, Path (view s) (history s) (view (after x s))

variable {view : σ → Environment} {x : EStateM RuntimeError σ α}
  {f : α → EStateM RuntimeError σ β} {history : σ → List Environment}

theorem following_of_ok {next : α → σ → List Environment} {s s' : σ} {a : α}
    (h : x s = .ok a s') : following x next s = next a s' := by
  rw [following.eq_def, h]

theorem following_of_error {next : α → σ → List Environment} {s s' : σ} {e : RuntimeError}
    (h : x s = .error e s') : following x next s = [] := by
  rw [following.eq_def, h]

theorem records_of_still (h : ∀ s, view (after x s) = view s) :
    Records view x fun s => [view s] := by
  intro s
  rw [h]
  exact .single _

theorem Records.bind {next : α → σ → List Environment} (hx : Records view x history)
    (hf : ∀ a, Records view (f a) (next a)) :
    Records view (x >>= f) fun s => history s ++ following x next s := by
  intro s
  have hs := hx s
  cases h : x s with
  | ok a s' =>
    rw [after_of_ok h] at hs
    show Path _ (history s ++ following x next s) _
    rw [after_bind_of_ok h, following_of_ok h]
    exact hs.append .stay (hf a s')
  | error e s' =>
    rw [after_of_error h] at hs
    show Path _ (history s ++ following x next s) _
    rwa [after_of_error (bind_of_error h), following_of_error h, List.append_nil]

/-- What leaves the environment alone adds nothing to a history. -/
theorem Records.bind_still (hx : Records view x history)
    (hf : ∀ a s, view (after (f a) s) = view s) : Records view (x >>= f) history := by
  intro s
  have hs := hx s
  cases h : x s with
  | ok a s' =>
    rw [after_of_ok h] at hs
    rwa [after_bind_of_ok h, hf]
  | error e s' =>
    rw [after_of_error h] at hs
    rwa [after_of_error (bind_of_error h)]

end

/-! ### Expressions and declarations -/

/-- The environments around a single operation. -/
def operationHistory (x : Evaluation Unit) (env : Environment) : List Environment :=
  [env, after x env]

def Expr.history : Expr → Environment → List Environment
  | literal _ _ => fun env => [env]
  | var _ => fun env => [env]
  | unary _ operand _ => operand.history
  | binary _ lhs rhs _ => fun env =>
    lhs.history env ++ following lhs.evaluate (fun _ => rhs.history) env
  | assign target value _ => fun env =>
    value.history env ++
      following value.evaluate (fun v => operationHistory (Environment.assign target.name v)) env

def Declaration.history (d : Declaration) : Environment → List Environment :=
  match d.initializer with
  | some value => fun env =>
    value.history env ++ following value.evaluate
      (fun v => operationHistory (Environment.define d.id.name ⟨d.type, d.isConstant, none⟩ v)) env
  | none => operationHistory (Environment.declare d.id.name ⟨d.type, d.isConstant, none⟩)

theorem Atomic.records {x : Evaluation Unit} (hx : Atomic x)
    (h : ∀ env env', x env = .ok () env' → env.Step env') :
    Records (fun env => env) x (operationHistory x) := by
  intro env
  have hstep : env.Step (after x env) := hx.moves (fun _ => .stay) h env
  exact (Path.single env).append hstep (.single _)

theorem Expr.records (e : Expr) : Records (fun env => env) e.evaluate e.history := by
  induction e with
  | literal v span => exact records_of_still fun _ => rfl
  | var id => exact records_of_still (Evaluation.after_load id.name)
  | unary op operand span ih => exact ih.bind_still fun v => Evaluation.after_result (op.apply v)
  | binary op lhs rhs span ihl ihr =>
    exact ihl.bind fun v => ihr.bind_still fun w => Evaluation.after_result (op.apply v w)
  | assign target value span ih =>
    refine ih.bind fun v => ?_
    have hassign := (Environment.atomic_assign target.name v).records fun _ _ => .assign
    exact hassign.bind_still fun _ _ => rfl

/-- A constant without a value would be a declaration that is no step. -/
theorem Declaration.records {d : Declaration}
    (h : d.isConstant = true → d.initializer.isSome = true) :
    Records (fun env => env) d.evaluate d.history := by
  rw [Declaration.evaluate, Declaration.history]
  cases hd : d.initializer with
  | some value =>
    exact value.records.bind fun v => (Environment.atomic_define _ _ v).records fun _ _ => .define
  | none =>
    have hvariable : d.isConstant = false := by simpa [hd] using h
    rw [hvariable]
    exact (Environment.atomic_declare _ _).records fun _ _ => .declare

/-! ### Statements -/

open Execution

/-- The history of `x` in a scope of its own, where `inside` is that of `x`. -/
def scopeHistory (x : Execution Unit) (inside : Machine → List Environment) (m : Machine) :
    List Environment :=
  m.environment :: inside { m with environment := m.environment.push } ++
    [(after (inScope x) m).environment]

/-- The history of one of two ways. -/
def branchHistory (condition : Value) (yes no : Machine → List Environment) :
    Machine → List Environment :=
  match condition with
  | .boolean true => yes
  | .boolean false => no
  | _ => fun m => [m.environment]

namespace Stmt

mutual

def history : Stmt → Machine → List Environment
  | print value _ => fun m => value.history m.environment
  | declare d _ => fun m => d.history m.environment
  | assign target value span => fun m => (Expr.assign target value span).history m.environment
  | ifElse condition body none _ => fun m =>
    condition.history m.environment ++ following (evaluating condition.evaluate)
      (fun v => branchHistory v (scopeHistory (executeAll body) (historyAll body))
        fun m => [m.environment]) m
  | ifElse condition body (some otherwise) _ => fun m =>
    condition.history m.environment ++ following (evaluating condition.evaluate)
      (fun v => branchHistory v (scopeHistory (executeAll body) (historyAll body))
        (scopeHistory (executeAll otherwise) (historyAll otherwise))) m
  | block body _ => scopeHistory (executeAll body) (historyAll body)

def historyAll : List Stmt → Machine → List Environment
  | [] => fun m => [m.environment]
  | s :: rest => fun m => s.history m ++ following s.execute (fun _ => historyAll rest) m

end

/-- Each constant that the statement declares, at any depth, is declared with a value. -/
inductive ConstantsSet : Stmt → Prop
  | print {value : Expr} {span : Span} : ConstantsSet (print value span)
  | declare {d : Declaration} {span : Span} :
      (d.isConstant = true → d.initializer.isSome = true) → ConstantsSet (declare d span)
  | assign {target : Ident} {value : Expr} {span : Span} : ConstantsSet (assign target value span)
  | ifElse {condition : Expr} {body : List Stmt} {otherwise : Option (List Stmt)} {span : Span} :
      (∀ s ∈ body, ConstantsSet s) → (∀ other ∈ otherwise, ∀ s ∈ other, ConstantsSet s) →
      ConstantsSet (ifElse condition body otherwise span)
  | block {body : List Stmt} {span : Span} : (∀ s ∈ body, ConstantsSet s) →
      ConstantsSet (block body span)

end Stmt

theorem records_evaluating {α : Type} {x : Evaluation α}
    {history : Environment → List Environment} (h : Records (fun env => env) x history) :
    Records Machine.environment (evaluating x) fun m => history m.environment := by
  intro m
  rw [after_evaluating]
  exact h m.environment

theorem Records.inScope {x : Execution Unit} {inside : Machine → List Environment}
    (h : Records Machine.environment x inside) :
    Records Machine.environment (inScope x) (scopeHistory x inside) := by
  intro m
  have hinside := h { m with environment := m.environment.push }
  have hleft : (after x { m with environment := m.environment.push }).environment.Step
      (after (Execution.inScope x) m).environment := by
    rw [environment_inScope]
    exact .pop
  exact ((Path.single m.environment).append .push hinside).append hleft (.single _)

theorem records_choose {v : Value} {yes no : Execution Unit}
    {yesHistory noHistory : Machine → List Environment}
    (hyes : Records Machine.environment yes yesHistory)
    (hno : Records Machine.environment no noHistory) :
    Records Machine.environment (choose v yes no) (branchHistory v yesHistory noHistory) := by
  cases v with
  | boolean b =>
    cases b with
    | true => exact hyes
    | false => exact hno
  | number n => exact records_of_still fun _ => rfl
  | string s => exact records_of_still fun _ => rfl

namespace Stmt

mutual

theorem records : (s : Stmt) → s.ConstantsSet →
    Records Machine.environment s.execute s.history
  | print value _, _ =>
    (records_evaluating value.records).bind_still fun v => environment_printLine v.text
  | declare _ _, .declare hd => records_evaluating (Declaration.records hd)
  | assign target value span, _ =>
    (records_evaluating (Expr.assign target value span).records).bind_still fun _ _ => rfl
  | ifElse condition body none _, .ifElse hbody _ =>
    (records_evaluating condition.records).bind fun v =>
      records_choose (v := v) (recordsAll body hbody).inScope (records_of_still fun _ => rfl)
  | ifElse condition body (some otherwise) _, .ifElse hbody hother =>
    (records_evaluating condition.records).bind fun v =>
      records_choose (v := v) (recordsAll body hbody).inScope
        (recordsAll otherwise (hother otherwise rfl)).inScope
  | block body _, .block hbody => (recordsAll body hbody).inScope

theorem recordsAll : (body : List Stmt) → (∀ s ∈ body, s.ConstantsSet) →
    Records Machine.environment (executeAll body) (historyAll body)
  | [], _ => records_of_still fun _ => rfl
  | s :: rest, h =>
    (records s (h s List.mem_cons_self)).bind fun _ =>
      recordsAll rest fun s' hs' => h s' (List.mem_cons_of_mem s hs')

end

/-! ### Parsed statements -/

/-- A statement without its spans declares the same. -/
theorem ConstantsSet.of_bare : (s : Stmt) → s.bare.ConstantsSet → s.ConstantsSet
  | .print _ _, _ => .print
  | .declare d span, h => by
    rw [bare_declare] at h
    cases h with
    | declare hd => exact .declare (by simpa [Declaration.bare, Declaration.mapSpans] using hd)
  | .assign _ _ _, _ => .assign
  | .ifElse condition body none span, h => by
    rw [bare_ifElse] at h
    cases h with
    | ifElse hbody _ =>
      exact .ifElse (fun s hs => of_bare s (hbody s.bare (List.mem_map_of_mem hs))) (by simp)
  | .ifElse condition body (some other) span, h => by
    rw [bare_ifElse] at h
    cases h with
    | ifElse hbody hother =>
      refine .ifElse (fun s hs => of_bare s (hbody s.bare (List.mem_map_of_mem hs))) ?_
      rintro _ ⟨⟩ s hs
      exact of_bare s (hother _ rfl s.bare (List.mem_map_of_mem hs))
  | .block body span, h => by
    rw [bare_block] at h
    cases h with
    | block hbody => exact .block fun s hs => of_bare s (hbody s.bare (List.mem_map_of_mem hs))

end Stmt

namespace Grammar

mutual

theorem Statement.constantsSet {ts : List Token} {next : Option Token} {s : Stmt} :
    Statement ts next s → s.ConstantsSet
  | .print _ _ _ _ _ => .print
  | .ifThen _ _ hb _ => .ifElse hb.constantsSet nofun
  | .ifElse _ _ hb _ ho => .ifElse hb.constantsSet fun _ h => by cases h; exact ho.constantsSet
  | .declare _ _ hc _ => .declare hc
  | .block _ hb _ => .block hb.constantsSet
  | .assign _ _ => .assign
  | .increment _ _ _ => .assign

theorem Body.constantsSet {ts : List Token} {next : Option Token} {body : List Stmt} :
    Body ts next body → ∀ s ∈ body, s.ConstantsSet
  | .braces _ hb _ => hb.constantsSet
  | .single _ hs => List.forall_mem_singleton.mpr hs.constantsSet

theorem Statements.constantsSet {ts : List Token} {next : Option Token} {body : List Stmt} :
    Statements ts next body → ∀ s ∈ body, s.ConstantsSet
  | .nil => List.forall_mem_nil _
  | .cons hs hr => List.forall_mem_cons.mpr ⟨hs.constantsSet, hr.constantsSet⟩

end

end Grammar

/-- A statement that was parsed, on its own or in a program, or that stands in one that was. -/
inductive Stmt.Parsed : Stmt → Prop
  | program {text : String} {body : List Stmt} {s : Stmt} : parseProgram text = .ok body →
      s ∈ body → Parsed s
  | statement {text : String} {s : Stmt} : parseStatement text = .ok s → Parsed s
  | inBlock {body : List Stmt} {span : Span} {s : Stmt} : Parsed (.block body span) → s ∈ body →
      Parsed s
  | inBranch {condition : Expr} {body : List Stmt} {otherwise : Option (List Stmt)} {span : Span}
      {s : Stmt} : Parsed (.ifElse condition body otherwise span) → s ∈ body → Parsed s
  | inOther {condition : Expr} {body other : List Stmt} {span : Span} {s : Stmt} :
      Parsed (.ifElse condition body (some other) span) → s ∈ other → Parsed s

theorem Stmt.Parsed.constantsSet {s : Stmt} (h : s.Parsed) : s.ConstantsSet := by
  induction h with
  | @program text body s hp hs =>
    obtain ⟨ts, -, hread⟩ := statements_of_parseProgram hp
    exact .of_bare s (hread.constantsSet s.bare (List.mem_map_of_mem hs))
  | @statement text s hp =>
    obtain ⟨ts, next, -, hread⟩ := statement_of_parseStatement hp
    exact .of_bare s hread.constantsSet
  | inBlock _ hs ih =>
    cases ih with
    | block hbody => exact hbody _ hs
  | inBranch _ hs ih =>
    cases ih with
    | ifElse hbody _ => exact hbody _ hs
  | inOther _ hs ih =>
    cases ih with
    | ifElse _ hother => exact hother _ rfl _ hs

/-! ### Sessions -/

/-- What can be run on a machine. -/
inductive Call
  | statements (body : List Stmt)
  | statement (s : Stmt)
  | block (body : List Stmt)
  | conditional (condition : Expr) (body : List Stmt) (otherwise : Option (List Stmt))
  | expression (e : Expr)

namespace Call

def run : Call → Execution Unit
  | statements body => Stmt.executeAll body
  | statement s => s.execute
  | block body => (Stmt.block body .nowhere).execute
  | conditional condition body otherwise =>
    (Stmt.ifElse condition body otherwise .nowhere).execute
  | expression e => do
    let _ ← evaluating e.evaluate

def history : Call → Machine → List Environment
  | statements body => Stmt.historyAll body
  | statement s => s.history
  | block body => (Stmt.block body .nowhere).history
  | conditional condition body otherwise =>
    (Stmt.ifElse condition body otherwise .nowhere).history
  | expression e => fun m => e.history m.environment

/-- The statements of the call were parsed. Expressions may be any, as they declare nothing. -/
def Parsed : Call → Prop
  | statements body => ∀ s ∈ body, s.Parsed
  | statement s => s.Parsed
  | block body => ∀ s ∈ body, s.Parsed
  | conditional _ body otherwise =>
    (∀ s ∈ body, s.Parsed) ∧ ∀ other ∈ otherwise, ∀ s ∈ other, s.Parsed
  | expression _ => True

/-- The machine after calls, which go on behind one that fails. -/
def runAll : List Call → Machine → Machine
  | [], m => m
  | call :: rest, m => runAll rest (after call.run m)

def historyAll : List Call → Machine → List Environment
  | [], m => [m.environment]
  | call :: rest, m => call.history m ++ historyAll rest (after call.run m)

theorem records {call : Call} (h : call.Parsed) :
    Records Machine.environment call.run call.history := by
  cases call with
  | statements body => exact Stmt.recordsAll body fun s hs => (h s hs).constantsSet
  | statement s => exact s.records (Stmt.Parsed.constantsSet h)
  | block body => exact Stmt.records _ (.block fun s hs => (h s hs).constantsSet)
  | conditional condition body otherwise =>
    refine Stmt.records _ (.ifElse (fun s hs => (h.1 s hs).constantsSet) ?_)
    exact fun other hother s hs => (h.2 other hother s hs).constantsSet
  | expression e => exact (records_evaluating e.records).bind_still fun _ _ => rfl

theorem path_historyAll {calls : List Call} (h : ∀ call ∈ calls, call.Parsed) (m : Machine) :
    Path m.environment (historyAll calls m) (runAll calls m).environment := by
  induction calls generalizing m with
  | nil => exact .single m.environment
  | cons call rest ih =>
    rw [List.forall_mem_cons] at h
    exact (records h.1 m).append .stay (ih h.2 _)

end Call

/-- What is true of the variables throughout a session of calls on parsed trees, whatever fails in
it. The history has every environment that the session passes through. In all of them each value is
of the type of its variable, and constants have values. While a scope stays, its variables only
evolve. -/
theorem sessions_keep_variables {calls : List Call} (h : ∀ call ∈ calls, call.Parsed)
    (out : Output) :
    Path .empty (Call.historyAll calls ⟨.empty, out⟩)
      (Call.runAll calls ⟨.empty, out⟩).environment ∧
    (∀ env ∈ Call.historyAll calls ⟨.empty, out⟩, env.Sound) ∧
    ∀ part first last d, part <:+: Call.historyAll calls ⟨.empty, out⟩ →
      part.head? = some first → part.getLast? = some last → (∀ env ∈ part, d ≤ env.depth) →
      List.Forall₂ Scope.Evolves (first.outermost d) (last.outermost d) := by
  have hpath := Call.path_historyAll h ⟨.empty, out⟩
  refine ⟨hpath, hpath.sound .empty, fun part first last d hpart hfirst hlast hd => ?_⟩
  exact (hpath.of_part hpart hfirst hlast).evolves hd

/-- A session in which a constant is declared, read in a block, and then assigned to, which
fails. -/
theorem sessions_keep_constant :
    ∃ body s, parseProgram "const bool c = true; \x7b var b [bool]; b = c; \x7d" = .ok body ∧
      parseStatement "c = false;" = .ok s ∧
      ∀ env ∈ Call.historyAll [.statements body, .statement s] ⟨.empty, .empty none⟩,
        env.Sound := by
  have hbody :
      (parseProgram "const bool c = true; \x7b var b [bool]; b = c; \x7d").isOk = true := by
    decide +kernel
  have hs : (parseStatement "c = false;").isOk = true := by decide +kernel
  obtain ⟨body, hbody⟩ := exists_of_isOk hbody
  obtain ⟨s, hs⟩ := exists_of_isOk hs
  have hcalls : ∀ call ∈ [Call.statements body, .statement s], call.Parsed := by
    refine List.forall_mem_cons.mpr ⟨fun _ => .program hbody, ?_⟩
    exact List.forall_mem_singleton.mpr (.statement hs)
  exact ⟨body, s, hbody, hs, (sessions_keep_variables hcalls (.empty none)).2.1⟩

end EggLang
