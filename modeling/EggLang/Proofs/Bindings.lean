import EggLang.Proofs.Environment
import Mathlib.Data.List.Chain
import Mathlib.Logic.Function.Basic

/-! Lexical binding name by name: a depth and, for each name, the variables that it is bound to,
each with the depth of its scope. Environments, which are searched scope by scope, answer all
requests as such bindings do. -/

namespace EggLang

/-- The depths of `bs` descend strictly from below `d`. -/
def Descends (d : Nat) (bs : List (Nat × Variable)) : Prop :=
  (d :: bs.map Prod.fst).IsChain (· > ·)

section

variable {d d' : Nat} {b : Nat × Variable} {bs : List (Nat × Variable)}

theorem Descends.nil : Descends d [] := .singleton d

theorem descends_cons : Descends d (b :: bs) ↔ b.1 < d ∧ Descends b.1 bs := List.isChain_cons_cons

theorem Descends.mono (h : Descends d bs) (hd : d ≤ d') : Descends d' bs := by
  cases bs with
  | nil => exact .nil
  | cons b rest =>
    obtain ⟨hb, hrest⟩ := descends_cons.mp h
    exact descends_cons.mpr ⟨Nat.lt_of_lt_of_le hb hd, hrest⟩

/-- Where no binding is at depth `d`, one can be added there. -/
theorem Descends.below (h : Descends (d + 1) bs) (hd : bs.head?.map Prod.fst ≠ some d) :
    Descends d bs := by
  cases bs with
  | nil => exact .nil
  | cons b rest =>
    obtain ⟨hb, hrest⟩ := descends_cons.mp h
    have hne : b.1 ≠ d := by simpa using hd
    exact descends_cons.mpr ⟨by omega, hrest⟩

end

/-- A depth, and the bindings of each name, the innermost first. -/
@[ext] structure Bindings where
  depth : Nat
  stack : String → List (Nat × Variable)
  depth_pos : 0 < depth
  descends : ∀ name, Descends (depth + 1) (stack name)

namespace Bindings

def initial : Bindings := ⟨1, fun _ => [], Nat.one_pos, fun _ => .nil⟩

def top? (b : Bindings) (name : String) : Option (Nat × Variable) := (b.stack name).head?

/-- The bindings with those of one name changed. -/
def update (b : Bindings) (name : String) (bs : List (Nat × Variable))
    (h : Descends (b.depth + 1) bs) : Bindings where
  depth := b.depth
  stack := Function.update b.stack name bs
  depth_pos := b.depth_pos
  descends other := by
    rw [Function.update_apply]
    split
    · exact h
    · exact b.descends other

theorem stack_update (b : Bindings) (name : String) {bs : List (Nat × Variable)}
    (h : Descends (b.depth + 1) bs) (other : String) :
    (b.update name bs h).stack other = if other = name then bs else b.stack other :=
  Function.update_apply ..

def push (b : Bindings) : Bindings where
  depth := b.depth + 1
  stack := b.stack
  depth_pos := Nat.succ_pos b.depth
  descends name := (b.descends name).mono (Nat.le_succ _)

/-- The bindings without the first where that is at depth `d`. -/
def leave (d : Nat) : List (Nat × Variable) → List (Nat × Variable)
  | [] => []
  | b :: rest => if b.1 = d then rest else b :: rest

theorem descends_leave {d : Nat} {bs : List (Nat × Variable)} (h : Descends (d + 1) bs) :
    Descends d (leave d bs) := by
  cases bs with
  | nil => exact .nil
  | cons b rest =>
    rw [leave]
    split
    · rename_i hb
      exact hb ▸ (descends_cons.mp h).2
    · rename_i hb
      exact h.below (by simpa using hb)

/-- Leaves a scope, with all that is bound in it. At depth one nothing happens. -/
def pop (b : Bindings) : Bindings :=
  if h : 1 < b.depth then
    { depth := b.depth - 1
      stack := fun name => leave b.depth (b.stack name)
      depth_pos := Nat.sub_pos_of_lt h
      descends := fun name => by
        rw [Nat.sub_add_cancel b.depth_pos]
        exact descends_leave (b.descends name) }
  else b

/-- Binds a name at the present depth, where it may not be bound yet. -/
def declare (b : Bindings) (name : String) (x : Variable) : Except RuntimeError Bindings :=
  if h : (b.top? name).map Prod.fst = some b.depth then .error (.alreadyDeclared name)
  else
    .ok (b.update name ((b.depth, x) :: b.stack name)
      (descends_cons.mpr ⟨Nat.lt_succ_self _, (b.descends name).below h⟩))

/-- Checks the type of a value, and then binds a name to a variable with it. -/
def define (b : Bindings) (name : String) (x : Variable) (v : Value) :
    Except RuntimeError Bindings :=
  if v.type = x.type then b.declare name { x with value := some v }
  else .error (.typeMismatch name x.type v.type)

def get (b : Bindings) (name : String) : Except RuntimeError Value :=
  match b.top? name with
  | none => .error (.undeclared name)
  | some (_, x) =>
    match x.value with
    | none => .error (.uninitialized name)
    | some v => .ok v

/-- The bindings with another variable in the innermost one of a name. -/
def setTop (b : Bindings) (name : String) (x : Variable) : Bindings :=
  b.update name ((b.stack name).modifyHead fun top => (top.1, x)) <| by
    have h := b.descends name
    cases hbs : b.stack name with
    | nil => exact .nil
    | cons top rest =>
      rw [hbs] at h
      exact h

def assign (b : Bindings) (name : String) (v : Value) : Except RuntimeError Bindings :=
  match b.top? name with
  | none => .error (.undeclared name)
  | some (_, x) =>
    if x.isConstant then .error (.constantReassignment name)
    else if v.type = x.type then .ok (b.setTop name { x with value := some v })
    else .error (.typeMismatch name x.type v.type)

/-- Keeps the bindings where a change of them fails. -/
def commit (b : Bindings) :
    Except RuntimeError Bindings → Except RuntimeError (Option Value) × Bindings
  | .ok b' => (.ok none, b')
  | .error e => (.error e, b)

def perform (b : Bindings) :
    Environment.Request → Except RuntimeError (Option Value) × Bindings
  | .push => (.ok none, b.push)
  | .pop => (.ok none, b.pop)
  | .declare name x => b.commit (b.declare name x)
  | .define name x v => b.commit (b.define name x v)
  | .assign name v => b.commit (b.assign name v)
  | .get name => ((b.get name).map some, b)

end Bindings

/-! ### The bindings of an environment -/

namespace Environment

/-- The bindings of a name in scopes, the last of which is at depth one. -/
def bindingsIn (name : String) : List Scope → List (Nat × Variable)
  | [] => []
  | scope :: rest =>
    match scope.find? name with
    | some x => (rest.length + 1, x) :: bindingsIn name rest
    | none => bindingsIn name rest

theorem bindingsIn_of_some {name : String} {scope : Scope} {x : Variable}
    (h : scope.find? name = some x) (rest : List Scope) :
    bindingsIn name (scope :: rest) = (rest.length + 1, x) :: bindingsIn name rest := by
  rw [bindingsIn, h]

theorem bindingsIn_of_none {name : String} {scope : Scope} (h : scope.find? name = none)
    (rest : List Scope) : bindingsIn name (scope :: rest) = bindingsIn name rest := by
  rw [bindingsIn, h]

theorem descends_bindingsIn (name : String) (scopes : List Scope) :
    Descends (scopes.length + 1) (bindingsIn name scopes) := by
  induction scopes with
  | nil => exact .nil
  | cons scope rest ih =>
    cases h : scope.find? name with
    | some x =>
      rw [bindingsIn_of_some h]
      exact descends_cons.mpr ⟨Nat.lt_succ_self _, ih⟩
    | none =>
      rw [bindingsIn_of_none h]
      exact ih.mono (Nat.le_succ _)

def bindings (env : Environment) : Bindings where
  depth := env.depth
  stack name := bindingsIn name env.scopes
  depth_pos := Nat.succ_pos _
  descends name := descends_bindingsIn name env.scopes

variable {env : Environment} {name : String}

theorem leave_bindingsIn (name : String) (scope : Scope) (rest : List Scope) :
    Bindings.leave (rest.length + 1) (bindingsIn name (scope :: rest)) = bindingsIn name rest := by
  cases h : scope.find? name with
  | some x => rw [bindingsIn_of_some h, Bindings.leave, if_pos rfl]
  | none =>
    rw [bindingsIn_of_none h]
    have hrest := descends_bindingsIn name rest
    cases hbs : bindingsIn name rest with
    | nil => rfl
    | cons b bs =>
      rw [hbs] at hrest
      have hb : b.1 < rest.length + 1 := (descends_cons.mp hrest).1
      rw [Bindings.leave, if_neg (Nat.ne_of_lt hb)]

theorem head?_bindingsIn (name : String) (scopes : List Scope) :
    (bindingsIn name scopes).head?.map Prod.snd = scopes.findSome? (·.find? name) := by
  induction scopes with
  | nil => rfl
  | cons scope rest ih =>
    rw [List.findSome?_cons]
    cases h : scope.find? name with
    | some x => rw [bindingsIn_of_some h]; rfl
    | none => rw [bindingsIn_of_none h, ih]

theorem bindingsIn_cons_congr {scope scope' : Scope} {rest rest' : List Scope}
    (hscope : scope.find? name = scope'.find? name) (hlength : rest.length = rest'.length)
    (hrest : bindingsIn name rest = bindingsIn name rest') :
    bindingsIn name (scope :: rest) = bindingsIn name (scope' :: rest') := by
  rw [bindingsIn, bindingsIn, hscope, hlength, hrest]

theorem bindingsIn_replaceIn (name : String) (x : Variable) (scopes : List Scope) :
    bindingsIn name (replaceIn name x scopes) =
      (bindingsIn name scopes).modifyHead fun top => (top.1, x) := by
  induction scopes with
  | nil => rfl
  | cons scope rest ih =>
    rw [replaceIn]
    cases h : scope.find? name with
    | some y =>
      have hx : (scope.replace name x).find? name = some x := by
        rw [Scope.find?_replace, if_pos rfl, h, Option.map_some]
      rw [Option.isSome_some, if_pos rfl, bindingsIn_of_some h, bindingsIn_of_some hx]
      rfl
    | none =>
      rw [Option.isSome_none, if_neg Bool.false_ne_true, bindingsIn_of_none h,
        bindingsIn_of_none h, ih]

theorem bindingsIn_replaceIn_of_ne {other : String} (hne : other ≠ name) (x : Variable)
    (scopes : List Scope) :
    bindingsIn other (replaceIn name x scopes) = bindingsIn other scopes := by
  induction scopes with
  | nil => rfl
  | cons scope rest ih =>
    rw [replaceIn]
    split
    · refine bindingsIn_cons_congr ?_ rfl rfl
      rw [Scope.find?_replace, if_neg hne]
    · exact bindingsIn_cons_congr rfl (length_replaceIn name x rest) ih

/-! ### Requests -/

@[simp] theorem depth_bindings (env : Environment) : env.bindings.depth = env.depth := rfl

theorem stack_bindings (env : Environment) (name : String) :
    env.bindings.stack name = bindingsIn name env.scopes := rfl

theorem map_top?_bindings (env : Environment) (name : String) :
    (env.bindings.top? name).map Prod.snd = env.find? name :=
  head?_bindingsIn name env.scopes

theorem bindings_empty : bindings .empty = .initial := by
  ext name
  · rfl
  · rw [stack_bindings, empty, scopes, bindingsIn_of_none (Scope.find?_nil name)]
    rfl

theorem bindings_push (env : Environment) : env.push.bindings = env.bindings.push := by
  refine Bindings.ext rfl (funext fun name => ?_)
  exact bindingsIn_of_none (Scope.find?_nil name) env.scopes

theorem bindings_pop (env : Environment) : env.pop.bindings = env.bindings.pop := by
  obtain ⟨innermost, outer⟩ := env
  cases outer with
  | nil => rfl
  | cons scope rest =>
    have hdepth : 1 < (bindings ⟨innermost, scope :: rest⟩).depth := by
      rw [depth_bindings, depth, List.length_cons]
      omega
    rw [Bindings.pop, dif_pos hdepth]
    refine Bindings.ext rfl (funext fun name => ?_)
    exact (leave_bindingsIn name innermost (scope :: rest)).symm

theorem bindings_replace (env : Environment) (name : String) (x : Variable) :
    (env.replace name x).bindings = env.bindings.setTop name x := by
  have hlength := length_replaceIn name x env.scopes
  rw [← scopes_replace] at hlength
  refine Bindings.ext (Nat.succ.inj (congrArg Nat.succ hlength)) (funext fun other => ?_)
  rw [stack_bindings, scopes_replace, Bindings.setTop, Bindings.stack_update]
  split
  · rename_i heq
    rw [heq, bindingsIn_replaceIn, stack_bindings]
  · rename_i hne
    rw [bindingsIn_replaceIn_of_ne hne, stack_bindings]

/-- The innermost scope has a name where the first binding of the name is at the present depth. -/
theorem top?_bindings_at_depth_iff (env : Environment) (name : String) :
    (env.bindings.top? name).map Prod.fst = some env.bindings.depth ↔
      (env.innermost.find? name).isSome = true := by
  rw [Bindings.top?, stack_bindings, scopes]
  cases h : env.innermost.find? name with
  | some x =>
    rw [bindingsIn_of_some h]
    simp [depth]
  | none =>
    rw [bindingsIn_of_none h]
    have houter := descends_bindingsIn name env.outer
    cases hbs : bindingsIn name env.outer with
    | nil => simp
    | cons b bs =>
      rw [hbs] at houter
      have hb : b.1 < env.outer.length + 1 := (descends_cons.mp houter).1
      simpa [depth] using Nat.ne_of_lt hb

/-- What an operation makes of the bindings, or why it fails. -/
def bindingsOf : EStateM.Result RuntimeError Environment Unit → Except RuntimeError Bindings
  | .ok () env => .ok env.bindings
  | .error e _ => .error e

theorem bindingsOf_declare (env : Environment) (name : String) (x : Variable) :
    bindingsOf (declare name x env) = env.bindings.declare name x := by
  have hiff := env.top?_bindings_at_depth_iff name
  rw [declare, Bindings.declare]
  cases h : env.innermost.find? name with
  | some y =>
    rw [h] at hiff
    rw [dif_pos (hiff.mpr rfl)]
    rfl
  | none =>
    rw [h] at hiff
    rw [dif_neg fun htop => Bool.false_ne_true (hiff.mp htop)]
    refine congrArg Except.ok (Bindings.ext rfl (funext fun other => ?_))
    rw [Bindings.stack_update, stack_bindings, stack_bindings, scopes, scopes]
    split
    · rename_i heq
      have hx : Scope.find? ((name, x) :: env.innermost) name = some x := by
        rw [Scope.find?_cons, if_pos rfl]
      rw [heq, bindingsIn_of_some hx, bindingsIn_of_none h]
      rfl
    · rename_i hne
      refine bindingsIn_cons_congr ?_ rfl rfl
      rw [Scope.find?_cons, if_neg hne]

theorem bindingsOf_define (env : Environment) (name : String) (x : Variable) (v : Value) :
    bindingsOf (define name x v env) = env.bindings.define name x v := by
  rw [define, Bindings.define, Variable.store]
  by_cases hv : v.type = x.type
  · rw [if_pos hv, if_pos hv]
    exact bindingsOf_declare env name _
  · rw [if_neg hv, if_neg hv]
    rfl

theorem bindingsOf_assign (env : Environment) (name : String) (v : Value) :
    bindingsOf (assign name v env) = env.bindings.assign name v := by
  have htop := env.map_top?_bindings name
  rw [assign, Bindings.assign, ← htop]
  cases env.bindings.top? name with
  | none => rfl
  | some top =>
    obtain ⟨d, x⟩ := top
    dsimp only [Option.map_some]
    rw [Variable.store]
    split
    · rfl
    · by_cases hv : v.type = x.type
      · rw [if_pos hv, if_pos hv]
        exact congrArg Except.ok (bindings_replace env name _)
      · rw [if_neg hv, if_neg hv]
        rfl

theorem get_bindings (env : Environment) (name : String) :
    env.bindings.get name = env.get name := by
  rw [get, Bindings.get, ← map_top?_bindings]
  cases env.bindings.top? name <;> rfl

section

variable {x : EStateM RuntimeError Environment Unit} (hx : Atomic x) (env : Environment)

include hx

/-- An operation that fails leaves the bindings as they were, as `commit` does. -/
theorem commit_bindingsOf : env.bindings.commit (bindingsOf (x env)) =
    ((answer (x env)).1, (answer (x env)).2.bindings) := by
  cases h : x env with
  | ok _ env' => rfl
  | error e env' =>
    rw [hx env e env' h]
    rfl

theorem answer_isOk_or_eq : (answer (x env)).1.isOk = true ∨ (answer (x env)).2 = env := by
  cases h : x env with
  | ok _ env' => exact .inl rfl
  | error e env' => exact .inr (hx env e env' h)

end

/-- An environment answers a request as its bindings do. -/
theorem perform_bindings (env : Environment) (request : Request) :
    env.bindings.perform request =
      ((env.perform request).1, (env.perform request).2.bindings) := by
  cases request with
  | push => rw [perform, Bindings.perform, bindings_push]
  | pop => rw [perform, Bindings.perform, bindings_pop]
  | declare name x =>
    rw [Bindings.perform, ← bindingsOf_declare]
    exact commit_bindingsOf (atomic_declare name x) env
  | define name x v =>
    rw [Bindings.perform, ← bindingsOf_define]
    exact commit_bindingsOf (atomic_define name x v) env
  | assign name v =>
    rw [Bindings.perform, ← bindingsOf_assign]
    exact commit_bindingsOf (atomic_assign name v) env
  | get name => rw [perform, Bindings.perform, get_bindings]

/-- The answers of a store to requests one after the other, each with the depth behind it, and the
store after them. -/
def serve {σ : Type} (perform : σ → Request → Except RuntimeError (Option Value) × σ)
    (depth : σ → Nat) (s : σ) :
    List Request → List (Except RuntimeError (Option Value) × Nat) × σ
  | [] => ([], s)
  | request :: rest =>
    let (answer, s') := perform s request
    let (answers, last) := serve perform depth s' rest
    ((answer, depth s') :: answers, last)

theorem serve_bindings (env : Environment) (requests : List Request) :
    serve Bindings.perform Bindings.depth env.bindings requests =
      ((serve perform depth env requests).1, (serve perform depth env requests).2.bindings) := by
  induction requests generalizing env with
  | nil => rfl
  | cons request rest ih =>
    rw [serve, perform_bindings, serve]
    dsimp only
    rw [ih, depth_bindings]

/-- From the empty environment on, any requests are answered as by bindings name by name, with the
same depth behind each, and they leave the bindings of the environment that they lead to. A request
that fails leaves the environment as it was. -/
theorem requests_answered_by_name :
    (∀ requests : List Request,
      (serve perform depth .empty requests).1 =
        (serve Bindings.perform Bindings.depth .initial requests).1 ∧
      (serve perform depth .empty requests).2.bindings =
        (serve Bindings.perform Bindings.depth .initial requests).2) ∧
    (∀ (env : Environment) (request : Request),
      (env.perform request).1.isOk = true ∨ (env.perform request).2 = env) := by
  constructor
  · intro requests
    rw [← bindings_empty, serve_bindings]
    exact ⟨rfl, rfl⟩
  · intro env request
    cases request with
    | push => exact .inl rfl
    | pop => exact .inl rfl
    | declare name x => exact answer_isOk_or_eq (atomic_declare name x) env
    | define name x v => exact answer_isOk_or_eq (atomic_define name x v) env
    | assign name v => exact answer_isOk_or_eq (atomic_assign name v) env
    | get name => exact .inr rfl

/-- A variable without a value hides the one around it until its scope is left. -/
example :
    (serve perform depth .empty
      [.define "x" ⟨.boolean, true, none⟩ (.boolean true), .push,
       .declare "x" ⟨.string, false, none⟩, .get "x", .pop, .get "x"]).1 =
      [(.ok none, 1), (.ok none, 2), (.ok none, 2), (.error (.uninitialized "x"), 2),
       (.ok none, 1), (.ok (some (.boolean true)), 1)] := by
  decide

end Environment

end EggLang
