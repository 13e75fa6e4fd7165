import EggLang.Proofs.Environment
import EggLang.Proofs.Run

/-! The names in scope while code runs. Whatever code does and however it ends, it leaves the scopes
that it found, with the names in them and what was declared of these. The only new names are those
that a list of statements declares directly, as far as it came. -/

namespace EggLang

namespace Scope

/-- What was declared of a name, where the scope has it. -/
def signature? (scope : Scope) (name : String) : Option Signature :=
  (scope.find? name).map Variable.signature

/-- The scopes have the same names, and the same was declared of each. -/
def Alike (s t : Scope) : Prop := ∀ name, t.signature? name = s.signature? name

theorem Alike.refl (s : Scope) : Alike s s := fun _ => rfl

theorem Alike.trans {s t u : Scope} (hst : Alike s t) (htu : Alike t u) : Alike s u :=
  fun name => (htu name).trans (hst name)

theorem alike_replace {scope : Scope} {name : String} {x y : Variable}
    (hy : scope.find? name = some y) (hsame : x.signature = y.signature) :
    Alike scope (scope.replace name x) := by
  intro other
  rw [signature?, signature?, find?_replace]
  split
  · rename_i h
    rw [h, hy, Option.map_some, Option.map_some, Option.map_some, hsame]
  · rfl

end Scope

namespace Environment

/-- The second environment has the scopes of the first with their names. In the innermost there are
also the names in `added`, which are new and different from each other. -/
structure Gains (added : Names) (env env' : Environment) : Prop where
  outer : List.Forall₂ Scope.Alike env.outer env'.outer
  innermost : ∀ name,
    env'.innermost.signature? name = (env.innermost.signature? name).or (added.lookup name)
  fresh : ∀ name ∈ added.map Prod.fst, env.innermost.signature? name = none
  distinct : (added.map Prod.fst).Nodup

variable {env env' env'' : Environment}

theorem Gains.of_alike (h : List.Forall₂ Scope.Alike env.scopes env'.scopes) :
    Gains [] env env' := by
  cases h with
  | cons hinnermost houter =>
    exact ⟨houter, fun name => by simp [hinnermost name], by simp, by simp⟩

theorem Gains.refl (env : Environment) : Gains [] env env :=
  .of_alike (List.forall₂_same.mpr fun scope _ => Scope.Alike.refl scope)

theorem Gains.depth_eq {added : Names} (h : Gains added env env') : env'.depth = env.depth := by
  rw [depth, depth, h.outer.length_eq]

theorem Gains.trans {added added' : Names} (h : Gains added env env')
    (h' : Gains added' env' env'') : Gains (added ++ added') env env'' := by
  have hfresh : ∀ name ∈ added'.map Prod.fst, env.innermost.signature? name = none ∧
      added.lookup name = none := by
    intro name hname
    have hnone := h'.fresh name hname
    rwa [h.innermost, Option.or_eq_none_iff] at hnone
  refine ⟨?_, fun name => ?_, fun name hname => ?_, ?_⟩
  · exact forall₂_trans h.outer h'.outer Scope.Alike.trans
  · rw [h'.innermost, h.innermost, Option.or_assoc, List.lookup_append]
  · rw [List.map_append, List.mem_append] at hname
    exact hname.elim (h.fresh name) fun hname => (hfresh name hname).1
  · rw [List.map_append, List.nodup_append]
    refine ⟨h.distinct, h'.distinct, fun name hname other hother heq => ?_⟩
    subst heq
    obtain ⟨entry, hentry, rfl⟩ := List.mem_map.mp hname
    have hnone := List.lookup_eq_none_iff.mp (hfresh _ hother).2 entry hentry
    simp at hnone

theorem Gains.assign {name : String} {v : Value} (h : assign name v env = .ok () env') :
    Gains [] env env' := by
  obtain ⟨x, hx, -, -, rfl⟩ := assign_eq_ok_iff.mp h
  refine .of_alike ?_
  rw [scopes_replace]
  have hreplace : ∀ scope : Scope, scope.find? name = some x →
      scope.Alike (scope.replace name { x with value := some v }) :=
    fun _ hfound => Scope.alike_replace hfound rfl
  exact forall₂_replaceIn Scope.Alike.refl hreplace hx

theorem Gains.declare {name : String} {x : Variable} (h : declare name x env = .ok () env') :
    Gains [(name, x.signature)] env env' := by
  obtain ⟨hname, rfl⟩ := declare_eq_ok_iff.mp h
  refine ⟨List.forall₂_same.mpr fun scope _ => Scope.Alike.refl scope, fun other => ?_, ?_, ?_⟩
  · rw [Scope.signature?, Scope.signature?, Scope.find?_cons, List.lookup_cons]
    by_cases heq : other = name
    · simp [heq, hname]
    · simp [heq, beq_false_of_ne heq]
  · simp [Scope.signature?, hname]
  · simp

theorem Gains.define {name : String} {x : Variable} {v : Value}
    (h : define name x v env = .ok () env') : Gains [(name, x.signature)] env env' := by
  obtain ⟨y, hy, hd⟩ := define_eq_ok_iff.mp h
  have hsame : y.signature = x.signature := Variable.signature_of_store hy
  exact hsame ▸ .declare hd

/-- What is gained in a scope is lost when it is left. -/
theorem Gains.pop {added : Names} (h : Gains added env.push env') : Gains [] env env'.pop := by
  obtain ⟨innermost, outer⟩ := env'
  cases h.outer with
  | cons hinnermost houter => exact .of_alike (.cons hinnermost houter)

end Environment

open Environment (Gains)

theorem Expr.gains (e : Expr) : Moves (Gains []) e.evaluate :=
  e.moves Gains.refl Gains.trans Gains.assign

/-! ### Statements -/

/-- The names that a statement declares in the scope that it stands in. -/
def Stmt.declared : Stmt → Names
  | declare d _ => [(d.id.name, ⟨d.type, d.isConstant⟩)]
  | _ => []

/-- A declaration that fails declares nothing. -/
theorem Declaration.splits (d : Declaration) (env : Environment) :
    Splits d.evaluate env (env.Gains [(d.id.name, ⟨d.type, d.isConstant⟩)]) (env.Gains []) := by
  rw [Declaration.evaluate]
  cases d.initializer with
  | none => exact (Environment.atomic_declare _ _).splits (fun _ hd => .declare hd) (.refl env)
  | some value =>
    refine (Splits.of_moves value.gains).bind fun v env' henv' => ?_
    exact (Environment.atomic_define _ _ _).splits (fun _ hd => henv'.trans (.define hd)) henv'

namespace Machine

/-- `Environment.Gains` for the environments of machines. -/
def Gains (added : Names) (m m' : Machine) : Prop := m.environment.Gains added m'.environment

theorem Gains.refl (m : Machine) : Gains [] m m := Environment.Gains.refl m.environment

theorem Gains.trans {added added' : Names} {m m' m'' : Machine} (h : m.Gains added m')
    (h' : m'.Gains added' m'') : m.Gains (added ++ added') m'' :=
  Environment.Gains.trans h h'

end Machine

namespace Execution

theorem moves_evaluating {α : Type} {x : Evaluation α} (hx : Moves (Gains []) x) :
    Moves (Machine.Gains []) (evaluating x) := by
  intro m
  rw [Machine.Gains, after_evaluating]
  exact hx m.environment

theorem moves_printLine (text : String) : Moves (Machine.Gains []) (printLine text) := by
  intro m
  rw [Machine.Gains, environment_printLine]
  exact Environment.Gains.refl m.environment

/-- Whatever code gains in a scope of its own, nothing of it is left. -/
theorem moves_inScope {x : Execution Unit}
    (hx : ∀ m : Machine, ∃ added, m.Gains added (after x m)) :
    Moves (Machine.Gains []) (inScope x) := by
  intro m
  obtain ⟨added, h⟩ := hx { m with environment := m.environment.push }
  rw [Machine.Gains, environment_inScope]
  exact Environment.Gains.pop h

end Execution

namespace Stmt

open Execution

/-- How statements leave a machine `m`: all of them are done, or those up to one that fails are. -/
def Progress (m : Machine) (body : List Stmt) : Prop :=
  (∃ m', executeAll body m = .ok () m' ∧ m.Gains (body.flatMap declared) m') ∨
  ∃ before s behind m₁ e m', body = before ++ s :: behind ∧
    executeAll before m = .ok () m₁ ∧ s.execute m₁ = .error e m' ∧
    executeAll body m = .error e m' ∧ m.Gains (before.flatMap declared) m'

theorem Progress.gains {m : Machine} {body : List Stmt} (h : Progress m body) :
    ∃ added, m.Gains added (after (executeAll body) m) := by
  obtain ⟨m', hrun, hgains⟩ | ⟨before, _, _, _, e, m', -, -, -, hrun, hgains⟩ := h
  · exact ⟨_, by rwa [after_of_ok hrun]⟩
  · exact ⟨_, by rwa [after_of_error hrun]⟩

theorem progress_nil (m : Machine) : Progress m [] := .inl ⟨m, rfl, .refl m⟩

theorem progress_cons {s : Stmt} {rest : List Stmt} {m : Machine}
    (hs : Splits s.execute m (m.Gains s.declared) (m.Gains []))
    (hrest : ∀ m', Progress m' rest) : Progress m (s :: rest) := by
  obtain ⟨_, m₁, h, hgains⟩ | ⟨e, m₁, h, hgains⟩ := splits_iff.mp hs
  · have hcons : ∀ body, executeAll (s :: body) m = executeAll body m₁ := fun body => bind_of_ok h
    obtain ⟨m', hrun, hgains'⟩ |
        ⟨before, s', behind, m₂, e, m', rfl, hbefore, hs', hrun, hgains'⟩ := hrest m₁
    · exact .inl ⟨m', by rw [hcons, hrun], hgains.trans hgains'⟩
    · exact .inr ⟨s :: before, s', behind, m₂, e, m', rfl, by rw [hcons, hbefore], hs',
        by rw [hcons, hrun], hgains.trans hgains'⟩
  · exact .inr ⟨[], s, rest, m, e, m₁, rfl, rfl, h, bind_of_error h, hgains⟩

mutual

theorem splits : (s : Stmt) → (m : Machine) →
    Splits s.execute m (m.Gains s.declared) (m.Gains [])
  | print value span, m => by
    have hvalue := moves_evaluating value.gains
    have hmoves := hvalue.bind Machine.Gains.trans fun v => moves_printLine v.text
    exact .of_moves hmoves
  | declare d span, m => splits_evaluating (d.splits m.environment)
  | assign target value span, m => by
    have hvalue := moves_evaluating (Expr.assign target value span).gains
    have hmoves := hvalue.bind Machine.Gains.trans fun _ => .pure Machine.Gains.refl ()
    exact .of_moves hmoves
  | ifElse condition body none span, m => by
    have hbody := moves_inScope fun m' => (progress body m').gains
    have hmoves := (moves_evaluating condition.gains).bind Machine.Gains.trans fun v =>
      moves_choose (v := v) Machine.Gains.refl hbody (.pure Machine.Gains.refl ())
    exact .of_moves hmoves
  | ifElse condition body (some otherwise) span, m => by
    have hbody := moves_inScope fun m' => (progress body m').gains
    have hotherwise := moves_inScope fun m' => (progress otherwise m').gains
    have hmoves := (moves_evaluating condition.gains).bind Machine.Gains.trans fun v =>
      moves_choose (v := v) Machine.Gains.refl hbody hotherwise
    exact .of_moves hmoves
  | block body span, m => by
    have hmoves := moves_inScope fun m' => (progress body m').gains
    exact .of_moves hmoves

theorem progress : (body : List Stmt) → (m : Machine) → Progress m body
  | [], m => progress_nil m
  | s :: rest, m => progress_cons (s.splits m) (progress rest)

end

theorem gains_of_ok {body : List Stmt} {m m' : Machine} (h : executeAll body m = .ok () m') :
    m.Gains (body.flatMap declared) m' := by
  obtain ⟨m₁, hrun, hgains⟩ | ⟨_, _, _, _, e, m₁, -, -, -, hrun, -⟩ := progress body m
  · cases h.symm.trans hrun
    exact hgains
  · cases h.symm.trans hrun

end Stmt

/-- Code keeps the scopes around it and the names in them, also where it fails. An expression, a
block and a conditional declare nothing where they stand. A list of statements declares there what
the declarations directly in it do, up to a statement that fails. -/
theorem executeAll_scopes :
    (∀ (e : Expr) (env : Environment), env.Gains [] (after e.evaluate env)) ∧
    (∀ (body : List Stmt) (span : Span) (m : Machine),
      m.Gains [] (after (Stmt.block body span).execute m)) ∧
    (∀ (condition : Expr) (body : List Stmt) (otherwise : Option (List Stmt)) (span : Span)
      (m : Machine), m.Gains [] (after (Stmt.ifElse condition body otherwise span).execute m)) ∧
    (∀ (s : Stmt) (m : Machine),
      (∃ m', s.execute m = .ok () m' ∧ m.Gains s.declared m') ∨
      ∃ e m', s.execute m = .error e m' ∧ m.Gains [] m') ∧
    (∀ (body : List Stmt) (m : Machine),
      (∃ m', Stmt.executeAll body m = .ok () m' ∧ m.Gains (body.flatMap Stmt.declared) m') ∨
      ∃ before s behind m₁ e m', body = before ++ s :: behind ∧
        Stmt.executeAll before m = .ok () m₁ ∧ s.execute m₁ = .error e m' ∧
        Stmt.executeAll body m = .error e m' ∧ m.Gains (before.flatMap Stmt.declared) m') ∧
    (∀ (added : Names) (env env' : Environment), env.Gains added env' →
      env'.depth = env.depth) := by
  have hnone : ∀ (s : Stmt) (m : Machine), s.declared = [] → m.Gains [] (after s.execute m) := by
    intro s m hs
    have hsplits := s.splits m
    rw [hs] at hsplits
    obtain ⟨_, m', h, hgains⟩ | ⟨e, m', h, hgains⟩ := splits_iff.mp hsplits
    · rwa [after_of_ok h]
    · rwa [after_of_error h]
  have hsplits : ∀ (s : Stmt) (m : Machine), (∃ m', s.execute m = .ok () m' ∧
      m.Gains s.declared m') ∨ ∃ e m', s.execute m = .error e m' ∧ m.Gains [] m' := by
    intro s m
    obtain ⟨_, m', h⟩ | h := splits_iff.mp (s.splits m)
    · exact .inl ⟨m', h⟩
    · exact .inr h
  exact ⟨Expr.gains, fun _ _ m => hnone _ m rfl, fun _ _ _ _ m => hnone _ m rfl, hsplits,
    Stmt.progress, fun _ _ _ => Gains.depth_eq⟩

end EggLang
