import EggLang.Proofs.Bare
import EggLang.Proofs.Bindings
import EggLang.Proofs.Run

/-! What expressions store. Each assignment in an expression is made when all its operands have been
evaluated, from left to right, up to the first error. Nothing but the values of the variables that
are assigned to changes, and each of these holds the value that was stored last. -/

namespace EggLang

/-! ### Assignments one after the other -/

namespace Environment

/-- Values stored under names one after the other, each by an assignment that succeeds, lead from
the first environment to the second. -/
inductive Assigned (env : Environment) : List (String × Value) → Environment → Prop
  | nil : Assigned env [] env
  | snoc {stores : List (String × Value)} {env₁ env₂ : Environment} {name : String} {v : Value} :
      Assigned env stores env₁ → assign name v env₁ = .ok () env₂ →
      Assigned env (stores ++ [(name, v)]) env₂

/-- A binding of a name with another value, or without one. -/
def withValue (value : Option Value) (binding : Nat × Variable) : Nat × Variable :=
  (binding.1, { binding.2 with value := value })

variable {env env' env₁ : Environment} {stores more : List (String × Value)} {name : String}
  {v : Value}

theorem exists_stack_of_find? {x : Variable} (h : env.find? name = some x) :
    ∃ d rest, env.bindings.stack name = (d, x) :: rest := by
  rw [← map_top?_bindings, Bindings.top?] at h
  cases hstack : env.bindings.stack name with
  | nil =>
    rw [hstack] at h
    cases h
  | cons top rest =>
    rw [hstack] at h
    cases h
    exact ⟨top.1, rest, rfl⟩

/-- An assignment changes the value of the innermost binding of its name. -/
theorem stack_assign (h : assign name v env = .ok () env') (other : String) :
    env'.bindings.stack other = if other = name
      then (env.bindings.stack other).modifyHead (withValue (some v))
      else env.bindings.stack other := by
  obtain ⟨x, hx, -, -, rfl⟩ := assign_eq_ok_iff.mp h
  obtain ⟨d, rest, hstack⟩ := exists_stack_of_find? hx
  rw [bindings_replace, Bindings.setTop, Bindings.stack_update]
  split
  · rename_i hother
    rw [hother, hstack]
    rfl
  · rfl

theorem depth_assign (h : assign name v env = .ok () env') : env'.depth = env.depth := by
  obtain ⟨x, -, -, -, rfl⟩ := assign_eq_ok_iff.mp h
  rw [← depth_bindings, bindings_replace]
  rfl

theorem get_assign (h : assign name v env = .ok () env') (other : String) :
    env'.get other = if other = name then .ok v else env.get other := by
  obtain ⟨x, hx, -⟩ := assign_eq_ok_iff.mp h
  obtain ⟨d, rest, hstack⟩ := exists_stack_of_find? hx
  rw [← get_bindings, ← get_bindings, Bindings.get, Bindings.get, Bindings.top?, Bindings.top?,
    stack_assign h]
  by_cases hother : other = name
  · rw [if_pos hother, if_pos hother, hother, hstack]
    rfl
  · rw [if_neg hother, if_neg hother]

namespace Assigned

theorem append (h : env.Assigned stores env₁) (h' : env₁.Assigned more env') :
    env.Assigned (stores ++ more) env' := by
  induction h' with
  | nil => rwa [List.append_nil]
  | snoc _ hassign ih =>
    rw [← List.append_assoc]
    exact ih.snoc hassign

theorem eq_of_nil (h : env.Assigned stores env') (hstores : stores = []) : env' = env := by
  cases h with
  | nil => rfl
  | snoc => simp at hstores

theorem depth_eq (h : env.Assigned stores env') : env'.depth = env.depth := by
  induction h with
  | nil => rfl
  | snoc _ hassign ih => rw [depth_assign hassign, ih]

/-- Of each name only the innermost binding changes, and of that only the value. -/
theorem exists_withValue (h : env.Assigned stores env') (name : String) :
    ∃ value, env'.bindings.stack name =
      (env.bindings.stack name).modifyHead (withValue value) := by
  induction h with
  | nil =>
    cases hstack : env.bindings.stack name with
    | nil => exact ⟨none, rfl⟩
    | cons top rest => exact ⟨top.2.value, rfl⟩
  | @snoc stores env₁ env₂ target v _ hassign ih =>
    obtain ⟨value, hvalue⟩ := ih
    rw [stack_assign hassign, hvalue]
    split
    · exact ⟨some v, by cases env.bindings.stack name <;> rfl⟩
    · exact ⟨value, rfl⟩

theorem stack_of_not_mem (h : env.Assigned stores env') (hname : name ∉ stores.map Prod.fst) :
    env'.bindings.stack name = env.bindings.stack name := by
  induction h with
  | nil => rfl
  | snoc _ hassign ih =>
    rw [List.map_append, List.mem_append, not_or] at hname
    rw [stack_assign hassign, if_neg (by simpa using hname.2), ih hname.1]

/-- The value that was stored last is what a name holds. -/
theorem get_of_lookup (h : env.Assigned stores env') (hlast : stores.reverse.lookup name = some v) :
    env'.get name = .ok v := by
  induction h with
  | nil => cases hlast
  | @snoc stores env₁ env₂ target w _ hassign ih =>
    rw [List.reverse_append, List.reverse_singleton, List.singleton_append,
      List.lookup_cons] at hlast
    rw [get_assign hassign]
    split
    · rename_i hname
      rw [hname, beq_self_eq_true] at hlast
      cases hlast
      rfl
    · rename_i hname
      rw [beq_false_of_ne hname] at hlast
      exact ih hlast

end Assigned

end Environment

/-! ### Expressions -/

namespace Expr

/-- The names that an expression assigns to, from left to right. Those in the value of an assignment
come before its own. -/
def targets : Expr → List String
  | literal _ _ => []
  | var _ => []
  | unary _ operand _ => operand.targets
  | binary _ lhs rhs _ => lhs.targets ++ rhs.targets
  | assign target value _ => value.targets ++ [target.name]

/-- The assignments that are made, each with its value, in order and up to the first error. -/
def stores : Expr → Environment → List (String × Value)
  | literal _ _, _ => []
  | var _, _ => []
  | unary _ operand _, env => operand.stores env
  | binary _ lhs rhs _, env =>
    lhs.stores env ++ behind lhs.evaluate (fun _ env' => rhs.stores env') env
  | assign target value span, env =>
    value.stores env ++
      behind (assign target value span).evaluate (fun v _ => [(target.name, v)]) env

section

variable {target : Ident} {value : Expr} {span : Span} {env env₁ env' : Environment} {v : Value}

theorem evaluate_assign_of_ok (hvalue : value.evaluate env = .ok v env₁)
    (hassign : Environment.assign target.name v env₁ = .ok () env') :
    (assign target value span).evaluate env = .ok v env' := by
  rw [evaluate, bind_of_ok hvalue, bind_of_ok hassign]
  rfl

theorem evaluate_assign_of_error {e : RuntimeError} (hvalue : value.evaluate env = .ok v env₁)
    (hassign : Environment.assign target.name v env₁ = .error e env') :
    (assign target value span).evaluate env = .error e env' := by
  rw [evaluate, bind_of_ok hvalue, bind_of_error hassign]

end

/-- However it ends, an expression makes its assignments and does nothing else. -/
theorem assigned (e : Expr) (env : Environment) :
    env.Assigned (e.stores env) (after e.evaluate env) := by
  induction e generalizing env with
  | literal v span => exact .nil
  | var id =>
    rw [evaluate, Evaluation.after_load]
    exact .nil
  | unary op operand span ih =>
    rw [evaluate, after_bind_of_still fun v => Evaluation.after_result (op.apply v)]
    exact ih env
  | binary op lhs rhs span ihl ihr =>
    have hl := ihl env
    rw [evaluate, stores]
    cases hlhs : lhs.evaluate env with
    | error e env₁ =>
      rw [after_of_error hlhs] at hl
      rwa [after_of_error (bind_of_error hlhs), behind_of_error hlhs, List.append_nil]
    | ok v env₁ =>
      rw [after_of_ok hlhs] at hl
      rw [after_bind_of_ok hlhs, behind_of_ok hlhs,
        after_bind_of_still fun w => Evaluation.after_result (op.apply v w)]
      exact hl.append (ihr env₁)
  | assign target value span ih =>
    have hstores := ih env
    rw [stores]
    cases hvalue : value.evaluate env with
    | error e env₁ =>
      have herror : (assign target value span).evaluate env = .error e env₁ := bind_of_error hvalue
      rw [after_of_error hvalue] at hstores
      rwa [after_of_error herror, behind_of_error herror, List.append_nil]
    | ok v env₁ =>
      rw [after_of_ok hvalue] at hstores
      cases hassign : Environment.assign target.name v env₁ with
      | error e env' =>
        have herror : (assign target value span).evaluate env = .error e env' :=
          evaluate_assign_of_error hvalue hassign
        rw [after_of_error herror, behind_of_error herror, List.append_nil,
          Environment.atomic_assign target.name v env₁ e env' hassign]
        exact hstores
      | ok _ env' =>
        have hok : (assign target value span).evaluate env = .ok v env' :=
          evaluate_assign_of_ok hvalue hassign
        rw [after_of_ok hok, behind_of_ok hok]
        exact hstores.snoc hassign

/-- An expression that has a value made all its assignments. -/
theorem map_stores_of_ok {e : Expr} {env env' : Environment} {v : Value}
    (h : e.evaluate env = .ok v env') : (e.stores env).map Prod.fst = e.targets := by
  induction e generalizing env env' v with
  | literal v span => rfl
  | var id => rfl
  | unary op operand span ih =>
    obtain ⟨w, env₁, hoperand, -⟩ := exists_of_bind_ok h
    exact ih hoperand
  | binary op lhs rhs span ihl ihr =>
    obtain ⟨w, env₁, hlhs, h⟩ := exists_of_bind_ok h
    obtain ⟨w', env₂, hrhs, -⟩ := exists_of_bind_ok h
    rw [stores, targets, List.map_append, ihl hlhs, behind_of_ok hlhs, ihr hrhs]
  | assign target value span ih =>
    obtain ⟨w, env₁, hvalue, -⟩ := exists_of_bind_ok h
    rw [stores, targets, List.map_append, ih hvalue, behind_of_ok h]
    rfl

/-- The assignments that are made are the first ones that are written. -/
theorem map_stores_prefix (e : Expr) (env : Environment) :
    (e.stores env).map Prod.fst <+: e.targets := by
  induction e generalizing env with
  | literal v span => exact List.nil_prefix
  | var id => exact List.nil_prefix
  | unary op operand span ih => exact ih env
  | binary op lhs rhs span ihl ihr =>
    rw [stores, targets, List.map_append]
    cases hlhs : lhs.evaluate env with
    | error e env₁ =>
      rw [behind_of_error hlhs, List.map_nil, List.append_nil]
      exact (ihl env).trans (List.prefix_append _ _)
    | ok v env₁ =>
      rw [behind_of_ok hlhs, map_stores_of_ok hlhs]
      exact (List.prefix_append_right_inj _).mpr (ihr env₁)
  | assign target value span ih =>
    cases hassign : (assign target value span).evaluate env with
    | error e env₁ =>
      rw [stores, targets, behind_of_error hassign, List.append_nil]
      exact (ih env).trans (List.prefix_append _ _)
    | ok v env₁ =>
      have hall := map_stores_of_ok hassign
      exact ⟨[], by rw [hall, List.append_nil]⟩

theorem mem_targets_of_stores {e : Expr} {env : Environment} {name : String}
    (h : name ∈ (e.stores env).map Prod.fst) : name ∈ e.targets :=
  (e.map_stores_prefix env).subset h

end Expr

/-- Whatever an expression does, it prints nothing and changes no more than the values in the
innermost bindings of its targets. Where it has a value, all its assignments were made in the order
in which they are written, and each target holds what was assigned to it last. -/
theorem expression_writes (e : Expr) :
    (∀ m, (after (Execution.evaluating e.evaluate) m).output = m.output ∧
      (after (Execution.evaluating e.evaluate) m).environment = after e.evaluate m.environment) ∧
    (∀ env, (after e.evaluate env).depth = env.depth ∧
      (∀ name, ∃ value, (after e.evaluate env).bindings.stack name =
        (env.bindings.stack name).modifyHead (Environment.withValue value)) ∧
      ∀ name, name ∉ e.targets →
        (after e.evaluate env).bindings.stack name = env.bindings.stack name) ∧
    (e.targets = [] → ∀ env, after e.evaluate env = env) ∧
    ∀ env v env', e.evaluate env = .ok v env' → (e.stores env).map Prod.fst = e.targets ∧
      ∀ name ∈ e.targets, ∃ w, (e.stores env).reverse.lookup name = some w ∧
        env'.get name = .ok w := by
  refine ⟨fun m => ?_, fun env => ?_, fun hnone env => ?_, fun env v env' h => ?_⟩
  · exact ⟨Execution.output_evaluating _ m, Execution.after_evaluating _ m⟩
  · have hassigned := e.assigned env
    refine ⟨hassigned.depth_eq, hassigned.exists_withValue, fun name hname => ?_⟩
    exact hassigned.stack_of_not_mem (mt Expr.mem_targets_of_stores hname)
  · have hstores := e.map_stores_prefix env
    rw [hnone, List.prefix_nil, List.map_eq_nil_iff] at hstores
    exact (e.assigned env).eq_of_nil hstores
  · have hstores := Expr.map_stores_of_ok h
    have hassigned := e.assigned env
    rw [after_of_ok h] at hassigned
    refine ⟨hstores, fun name hname => ?_⟩
    rw [← hstores, List.mem_map] at hname
    obtain ⟨store, hmem, rfl⟩ := hname
    have hsome : ((e.stores env).reverse.lookup store.1).isSome = true :=
      List.lookup_isSome_iff.mpr ⟨store, List.mem_reverse.mpr hmem, beq_self_eq_true _⟩
    obtain ⟨w, hw⟩ := Option.isSome_iff_exists.mp hsome
    exact ⟨w, hw, hassigned.get_of_lookup hw⟩

/-- Two assignments to one name in the operands of one operator, and the name by itself. -/
theorem expression_writes_of_and : ∃ (e : Expr) (env env' : Environment),
    e = .binary .and (.assign (.ofName "a") (.literal (.boolean true) .nowhere) .nowhere)
      (.assign (.ofName "a") (.literal (.boolean false) .nowhere) .nowhere) .nowhere ∧
    env = ⟨[("a", ⟨.boolean, false, none⟩), ("b", ⟨.string, false, none⟩)], []⟩ ∧
    e.evaluate env = .ok (.boolean false) env' ∧ "b" ∉ e.targets ∧
    env'.bindings.stack "b" = env.bindings.stack "b" ∧
    ((e.stores env).map Prod.fst = e.targets ∧ "a" ∈ e.targets ∧
      ∃ w, (e.stores env).reverse.lookup "a" = some w ∧ env'.get "a" = .ok w) ∧
    (Expr.var (.ofName "a")).targets = [] ∧ after (Expr.var (.ofName "a")).evaluate env = env := by
  obtain ⟨e, he⟩ : ∃ e : Expr, e =
      .binary .and (.assign (.ofName "a") (.literal (.boolean true) .nowhere) .nowhere)
        (.assign (.ofName "a") (.literal (.boolean false) .nowhere) .nowhere) .nowhere := ⟨_, rfl⟩
  obtain ⟨env, henv⟩ : ∃ env : Environment, env =
      ⟨[("a", ⟨.boolean, false, none⟩), ("b", ⟨.string, false, none⟩)], []⟩ := ⟨_, rfl⟩
  obtain ⟨env', hevaluate⟩ : ∃ env', e.evaluate env = .ok (.boolean false) env' := by
    rw [he, henv]
    exact ⟨_, rfl⟩
  have ha : "a" ∈ e.targets := by
    rw [he]
    decide
  have hb : "b" ∉ e.targets := by
    rw [he]
    decide
  obtain ⟨-, hframe, -, hvalue⟩ := expression_writes e
  obtain ⟨hstores, hlast⟩ := hvalue env _ env' hevaluate
  have hstack := (hframe env).2.2 "b" hb
  rw [after_of_ok hevaluate] at hstack
  exact ⟨e, env, env', he, henv, hevaluate, hb, hstack, ⟨hstores, ha, hlast "a" ha⟩, rfl,
    (expression_writes (.var (.ofName "a"))).2.2.1 rfl env⟩

end EggLang
