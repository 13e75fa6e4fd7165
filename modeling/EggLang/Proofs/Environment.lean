import EggLang.Environment
import Mathlib.Data.List.Forall2

/-! What declarations fix about the variables in scope, apart from their values, and how the
operations on environments keep it. In an environment that grows from the empty one no scope has a
name twice, and the values that variables hold are of their types. An operation that fails has
changed nothing. -/

namespace EggLang

/-- Where `x` fails, it leaves the state that it was run from. -/
def Atomic {α σ : Type} (x : EStateM RuntimeError σ α) : Prop :=
  ∀ s e s', x s = .error e s' → s' = s

/-- What a declaration fixes about its variable. -/
structure Signature where
  type : DataType
  isConstant : Bool
deriving DecidableEq, Repr

/-- The names of one scope, the latest first. -/
abbrev Names := List (String × Signature)

/-- The names in scope, scope by scope. -/
structure Context where
  innermost : Names
  outer : List Names
deriving DecidableEq, Repr

namespace Context

def empty : Context := ⟨[], []⟩

def scopes (Γ : Context) : List Names := Γ.innermost :: Γ.outer

def enter (Γ : Context) : Context := ⟨[], Γ.scopes⟩

def declare (Γ : Context) (name : String) (s : Signature) : Context :=
  { Γ with innermost := (name, s) :: Γ.innermost }

/-- The innermost declaration of a name. -/
def find? (Γ : Context) (name : String) : Option Signature :=
  Γ.scopes.findSome? (·.lookup name)

theorem eq_of_scopes_eq {Γ Δ : Context} (h : Γ.scopes = Δ.scopes) : Γ = Δ := by
  cases Γ
  cases Δ
  simpa [scopes] using h

end Context

namespace Variable

def signature (x : Variable) : Signature := ⟨x.type, x.isConstant⟩

/-- The value of a variable, where it has one, is of its type. -/
def Typed (x : Variable) : Prop := ∀ v, x.value = some v → v.type = x.type

theorem store_eq_ok_iff {x y : Variable} {name : String} {v : Value} :
    store name v x = .ok () y ↔ v.type = x.type ∧ y = { x with value := some v } := by
  by_cases h : v.type = x.type <;> simp [store, h, eq_comm]

theorem atomic_store (name : String) (v : Value) : Atomic (store name v) := by
  intro x e y h
  unfold store at h
  split at h <;> cases h
  rfl

theorem typed_of_store {x y : Variable} {name : String} {v : Value}
    (h : store name v x = .ok () y) : y.Typed := by
  obtain ⟨hv, rfl⟩ := store_eq_ok_iff.mp h
  intro w hw
  cases hw
  exact hv

theorem signature_of_store {x y : Variable} {name : String} {v : Value}
    (h : store name v x = .ok () y) : y.signature = x.signature := by
  rw [(store_eq_ok_iff.mp h).2]
  rfl

end Variable

/-! ### One scope -/

namespace Scope

def names (scope : Scope) : Names := scope.map fun entry => (entry.1, entry.2.signature)

structure WellFormed (scope : Scope) : Prop where
  distinct : (scope.map Prod.fst).Nodup
  typed : ∀ entry ∈ scope, entry.2.Typed

theorem lookup_names (scope : Scope) (name : String) :
    scope.names.lookup name = (scope.find? name).map Variable.signature := by
  induction scope with
  | nil => rfl
  | cons entry rest ih =>
    rw [names, find?, List.map_cons, List.lookup_cons, List.lookup_cons]
    split
    · rfl
    · exact ih

theorem mem_of_find? {scope : Scope} {name : String} {x : Variable}
    (h : scope.find? name = some x) : (name, x) ∈ scope := by
  obtain ⟨before, behind, rfl, -⟩ := List.lookup_eq_some_iff.mp h
  simp

theorem find?_eq_none_iff {scope : Scope} {name : String} :
    scope.find? name = none ↔ name ∉ scope.map Prod.fst := by
  rw [find?, List.lookup_eq_none_iff]
  constructor
  · intro h hmem
    obtain ⟨entry, hentry, rfl⟩ := List.mem_map.mp hmem
    simpa using h entry hentry
  · intro h entry hentry
    rw [bne_iff_ne]
    rintro rfl
    exact h (List.mem_map_of_mem hentry)

theorem WellFormed.nil : WellFormed [] := ⟨by simp, by simp⟩

theorem WellFormed.cons {scope : Scope} {name : String} {x : Variable} (hs : scope.WellFormed)
    (hname : scope.find? name = none) (hx : x.Typed) : WellFormed ((name, x) :: scope) := by
  constructor
  · exact List.nodup_cons.mpr ⟨find?_eq_none_iff.mp hname, hs.distinct⟩
  · intro entry hentry
    rcases List.mem_cons.mp hentry with rfl | hentry
    · exact hx
    · exact hs.typed entry hentry

theorem find?_nil (name : String) : find? [] name = none := rfl

theorem find?_cons (entry : String × Variable) (scope : Scope) (name : String) :
    find? (entry :: scope) name = if name = entry.1 then some entry.2 else scope.find? name := by
  rw [find?, List.lookup_cons]
  by_cases h : name = entry.1
  · simp [h]
  · rw [if_neg h, beq_false_of_ne h, find?]

theorem replace_cons (entry : String × Variable) (scope : Scope) (name : String) (x : Variable) :
    replace (entry :: scope) name x =
      if entry.1 = name then (name, x) :: scope else entry :: scope.replace name x := rfl

theorem fst_replace (scope : Scope) (name : String) (x : Variable) :
    (scope.replace name x).map Prod.fst = scope.map Prod.fst := by
  induction scope with
  | nil => rfl
  | cons entry rest ih =>
    rw [replace_cons]
    split
    · rename_i h
      rw [List.map_cons, List.map_cons, h]
    · rw [List.map_cons, List.map_cons, ih]

theorem find?_replace (scope : Scope) (name : String) (x : Variable) (other : String) :
    (scope.replace name x).find? other =
      if other = name then (scope.find? name).map fun _ => x else scope.find? other := by
  induction scope with
  | nil => simp [replace, find?]
  | cons entry rest ih =>
    rw [replace_cons, find?_cons, find?_cons]
    by_cases hentry : entry.1 = name
    · rw [if_pos hentry, find?_cons]
      split <;> simp_all
    · rw [if_neg hentry, find?_cons, ih, if_neg (Ne.symm hentry)]
      split
      · rename_i hother
        rw [hother, if_neg hentry]
      · rfl

/-- A replacement puts another variable where the name is found, and keeps what stands around. -/
theorem exists_replace {scope : Scope} {name : String} {y : Variable}
    (h : scope.find? name = some y) : ∃ before behind, scope = before ++ (name, y) :: behind ∧
      ∀ x, scope.replace name x = before ++ (name, x) :: behind := by
  induction scope with
  | nil => cases h
  | cons entry rest ih =>
    rw [find?_cons] at h
    by_cases hentry : entry.1 = name
    · rw [if_pos hentry.symm, Option.some.injEq] at h
      refine ⟨[], rest, ?_, fun x => ?_⟩
      · rw [← hentry, ← h, List.nil_append]
      · rw [replace_cons, if_pos hentry, List.nil_append]
    · rw [if_neg (Ne.symm hentry)] at h
      obtain ⟨before, behind, hrest, hreplace⟩ := ih h
      refine ⟨entry :: before, behind, ?_, fun x => ?_⟩
      · rw [hrest, List.cons_append]
      · rw [replace_cons, if_neg hentry, hreplace, List.cons_append]

/-- To put a variable back where it stands changes nothing. -/
theorem replace_self {scope : Scope} {name : String} {x : Variable}
    (h : scope.find? name = some x) : scope.replace name x = scope := by
  obtain ⟨before, behind, hscope, hreplace⟩ := exists_replace h
  rw [hreplace, ← hscope]

theorem forall_replace {p : Variable → Prop} {scope : Scope} {name : String} {x : Variable}
    (hs : ∀ entry ∈ scope, p entry.2) (hx : p x) : ∀ entry ∈ scope.replace name x, p entry.2 := by
  induction scope with
  | nil => exact hs
  | cons entry rest ih =>
    rw [List.forall_mem_cons] at hs
    rw [replace_cons]
    split
    · exact List.forall_mem_cons.mpr ⟨hx, hs.2⟩
    · exact List.forall_mem_cons.mpr ⟨hs.1, ih hs.2⟩

theorem WellFormed.replace {scope : Scope} {name : String} {x : Variable} (hs : scope.WellFormed)
    (hx : x.Typed) : (scope.replace name x).WellFormed := by
  constructor
  · rw [fst_replace]
    exact hs.distinct
  · exact forall_replace hs.typed hx

/-- Replacing a variable by one with its signature keeps the names of the scope. -/
theorem names_replace {scope : Scope} {name : String} {x y : Variable}
    (hy : scope.find? name = some y) (hsame : x.signature = y.signature) :
    (scope.replace name x).names = scope.names := by
  obtain ⟨before, behind, hscope, hreplace⟩ := exists_replace hy
  rw [hreplace, hscope, names, names, List.map_append, List.map_append, List.map_cons,
    List.map_cons, hsame]

end Scope

/-! ### Environments -/

namespace Environment

def context (env : Environment) : Context :=
  ⟨env.innermost.names, env.outer.map Scope.names⟩

def WellFormed (env : Environment) : Prop := ∀ scope ∈ env.scopes, scope.WellFormed

@[simp] theorem scopes_context (env : Environment) :
    env.context.scopes = env.scopes.map Scope.names := rfl

@[simp] theorem context_push (env : Environment) : env.push.context = env.context.enter := rfl

theorem WellFormed.empty : WellFormed .empty := by
  intro scope hscope
  rw [List.mem_singleton.mp hscope]
  exact .nil

theorem WellFormed.push {env : Environment} (h : env.WellFormed) : env.push.WellFormed :=
  List.forall_mem_cons.mpr ⟨.nil, h⟩

theorem WellFormed.pop {env : Environment} (h : env.WellFormed) : env.pop.WellFormed := by
  obtain ⟨innermost, outer⟩ := env
  cases outer with
  | nil => exact h
  | cons scope rest => exact (List.forall_mem_cons.mp h).2

/-- Below the innermost scope, an environment is what leaving that scope makes of it. -/
theorem context_pop {env : Environment} {Γ : Context} (h : env.context.outer = Γ.scopes) :
    env.pop.context = Γ := by
  obtain ⟨innermost, outer⟩ := env
  cases outer with
  | nil => exact nomatch h
  | cons scope rest => exact Context.eq_of_scopes_eq h

theorem find?_context (env : Environment) (name : String) :
    env.context.find? name = (env.find? name).map Variable.signature := by
  rw [Context.find?, scopes_context, List.findSome?_map, find?]
  induction env.scopes with
  | nil => rfl
  | cons scope rest ih =>
    rw [List.findSome?_cons, List.findSome?_cons, ih, Function.comp_apply, Scope.lookup_names]
    cases scope.find? name <;> rfl

theorem exists_of_find?_context {env : Environment} {name : String} {s : Signature}
    (h : env.context.find? name = some s) : ∃ x, env.find? name = some x ∧ x.signature = s := by
  rw [find?_context] at h
  exact Option.map_eq_some_iff.mp h

theorem WellFormed.typed {env : Environment} (h : env.WellFormed) {name : String} {x : Variable}
    (hx : env.find? name = some x) : x.Typed := by
  obtain ⟨scope, hscope, hx⟩ := List.exists_of_findSome?_eq_some hx
  exact (h scope hscope).typed _ (Scope.mem_of_find? hx)

theorem scopes_replace (env : Environment) (name : String) (x : Variable) :
    (env.replace name x).scopes = replaceIn name x env.scopes := by
  rw [replace, scopes, scopes, replaceIn]
  split <;> rfl

theorem forall₂_trans {r : Scope → Scope → Prop} {ss ts us : List Scope}
    (hst : List.Forall₂ r ss ts) (htu : List.Forall₂ r ts us)
    (htrans : ∀ {s t u}, r s t → r t u → r s u) : List.Forall₂ r ss us := by
  induction hst generalizing us with
  | nil => exact htu
  | cons h _ ih =>
    cases htu with
    | cons h' htu => exact .cons (htrans h h') (ih htu)

/-- A replacement keeps what relates each scope to itself and to the one with the replacement. -/
theorem forall₂_replaceIn {r : Scope → Scope → Prop} {name : String} {x y : Variable}
    (hrefl : ∀ scope, r scope scope)
    (hreplace : ∀ scope : Scope, scope.find? name = some y → r scope (scope.replace name x))
    {scopes : List Scope} (hy : scopes.findSome? (·.find? name) = some y) :
    List.Forall₂ r scopes (replaceIn name x scopes) := by
  induction scopes with
  | nil => exact .nil
  | cons scope rest ih =>
    rw [List.findSome?_cons] at hy
    rw [replaceIn]
    cases hfound : scope.find? name with
    | some z =>
      rw [hfound] at hy
      cases hy
      rw [Option.isSome_some, if_pos rfl]
      exact .cons (hreplace scope hfound) (List.forall₂_same.mpr fun scope _ => hrefl scope)
    | none =>
      rw [hfound] at hy
      rw [Option.isSome_none, if_neg Bool.false_ne_true]
      exact .cons (hrefl scope) (ih hy)

theorem length_replaceIn (name : String) (x : Variable) (scopes : List Scope) :
    (replaceIn name x scopes).length = scopes.length := by
  induction scopes with
  | nil => rfl
  | cons scope rest ih =>
    rw [replaceIn]
    split
    · rfl
    · rw [List.length_cons, List.length_cons, ih]

theorem forall_replaceIn {p : Scope → Prop} {name : String} {x : Variable}
    (hreplace : ∀ scope, p scope → p (scope.replace name x)) {scopes : List Scope}
    (h : ∀ scope ∈ scopes, p scope) : ∀ scope ∈ replaceIn name x scopes, p scope := by
  induction scopes with
  | nil => exact h
  | cons scope rest ih =>
    rw [List.forall_mem_cons] at h
    rw [replaceIn]
    split
    · exact List.forall_mem_cons.mpr ⟨hreplace scope h.1, h.2⟩
    · exact List.forall_mem_cons.mpr ⟨h.1, ih h.2⟩

theorem names_replaceIn {name : String} {x y : Variable} {scopes : List Scope}
    (hy : scopes.findSome? (·.find? name) = some y) (hsame : x.signature = y.signature) :
    (replaceIn name x scopes).map Scope.names = scopes.map Scope.names := by
  have hreplace : ∀ scope : Scope, scope.find? name = some y →
      scope.names = (scope.replace name x).names :=
    fun _ hfound => (Scope.names_replace hfound hsame).symm
  have hnames : List.Forall₂ (fun s t => s.names = t.names) scopes (replaceIn name x scopes) :=
    forall₂_replaceIn (r := fun s t => s.names = t.names) (fun _ => rfl) hreplace hy
  refine Eq.symm ?_
  rw [← List.forall₂_eq_eq_eq, List.forall₂_map_left_iff, List.forall₂_map_right_iff]
  exact hnames

theorem replaceIn_self {name : String} {x : Variable} {scopes : List Scope}
    (h : scopes.findSome? (·.find? name) = some x) : replaceIn name x scopes = scopes := by
  have hsame : List.Forall₂ Eq scopes (replaceIn name x scopes) :=
    forall₂_replaceIn (fun _ => rfl) (fun _ hfound => (Scope.replace_self hfound).symm) h
  rw [List.forall₂_eq_eq_eq] at hsame
  exact hsame.symm

theorem eq_of_scopes_eq {env env' : Environment} (h : env.scopes = env'.scopes) : env = env' := by
  cases env
  cases env'
  simpa [scopes] using h

/-- To put a variable back where it was found changes nothing. -/
theorem replace_self {env : Environment} {name : String} {x : Variable}
    (h : env.find? name = some x) : env.replace name x = env :=
  eq_of_scopes_eq ((env.scopes_replace name x).trans (replaceIn_self h))

/-! ### The operations -/

/-- What an environment is for the code in a context: it has the variables that the context names,
and values of their types. -/
structure Fits (env : Environment) (Γ : Context) : Prop where
  wellFormed : env.WellFormed
  context : env.context = Γ

theorem Fits.empty : Fits .empty .empty := ⟨.empty, rfl⟩

theorem Fits.push {env : Environment} {Γ : Context} (h : env.Fits Γ) : env.push.Fits Γ.enter :=
  ⟨h.wellFormed.push, by rw [context_push, h.context]⟩

theorem Fits.pop {env : Environment} {Γ Δ : Context} (h : env.Fits Δ) (hΔ : Δ.outer = Γ.scopes) :
    env.pop.Fits Γ :=
  ⟨h.wellFormed.pop, context_pop (by rw [h.context, hΔ])⟩

theorem assign_eq_ok_iff {env env' : Environment} {name : String} {v : Value} :
    assign name v env = .ok () env' ↔
      ∃ x, env.find? name = some x ∧ x.isConstant = false ∧ v.type = x.type ∧
        env' = env.replace name { x with value := some v } := by
  rw [assign]
  cases env.find? name with
  | none => simp
  | some x =>
    by_cases hc : x.isConstant = true
    · simp [hc]
    · by_cases hv : v.type = x.type <;> simp [Variable.store, hc, hv, @eq_comm _ env']

/-- The variable that a value does not fit is put back as it was. -/
theorem atomic_assign (name : String) (v : Value) : Atomic (assign name v) := by
  intro env e env' h
  rw [assign] at h
  split at h
  · cases h
    rfl
  · rename_i x hx
    split at h
    · cases h
      rfl
    · split at h
      · cases h
      · rename_i e y hstore
        cases h
        rw [Variable.atomic_store name v x e y hstore, replace_self hx]

theorem Fits.assign {env env' : Environment} {Γ : Context} {name : String} {v : Value}
    (h : env.Fits Γ) (ha : assign name v env = .ok () env') : env'.Fits Γ := by
  obtain ⟨x, hx, -, hv, rfl⟩ := assign_eq_ok_iff.mp ha
  have htyped : Variable.Typed { x with value := some v } := by
    intro w hw
    cases hw
    exact hv
  constructor
  · rw [WellFormed, scopes_replace]
    exact forall_replaceIn (fun _ hscope => hscope.replace htyped) h.wellFormed
  · refine Context.eq_of_scopes_eq ?_
    rw [← h.context, scopes_context, scopes_context, scopes_replace]
    exact names_replaceIn hx rfl

theorem declare_eq_ok_iff {env env' : Environment} {name : String} {x : Variable} :
    declare name x env = .ok () env' ↔ env.innermost.find? name = none ∧
      env' = { env with innermost := (name, x) :: env.innermost } := by
  rw [declare]
  cases env.innermost.find? name <;> simp [eq_comm]

theorem atomic_declare (name : String) (x : Variable) : Atomic (declare name x) := by
  intro env e env' h
  rw [declare] at h
  split at h <;> cases h
  rfl

theorem Fits.declare {env env' : Environment} {Γ : Context} {name : String} {x : Variable}
    (h : env.Fits Γ) (hx : x.Typed) (hd : declare name x env = .ok () env') :
    env'.Fits (Γ.declare name x.signature) := by
  obtain ⟨hname, rfl⟩ := declare_eq_ok_iff.mp hd
  obtain ⟨hinnermost, houter⟩ := List.forall_mem_cons.mp h.wellFormed
  constructor
  · exact List.forall_mem_cons.mpr ⟨hinnermost.cons hname hx, houter⟩
  · rw [← h.context]
    rfl

theorem define_eq_ok_iff {env env' : Environment} {name : String} {x : Variable} {v : Value} :
    define name x v env = .ok () env' ↔
      ∃ y, Variable.store name v x = .ok () y ∧ declare name y env = .ok () env' := by
  rw [define]
  cases Variable.store name v x <;> simp

theorem atomic_define (name : String) (x : Variable) (v : Value) : Atomic (define name x v) := by
  intro env e env' h
  rw [define] at h
  split at h
  · exact atomic_declare name _ env e env' h
  · cases h
    rfl

theorem Fits.define {env env' : Environment} {Γ : Context} {name : String} {x : Variable}
    {v : Value} (h : env.Fits Γ) (hd : define name x v env = .ok () env') :
    env'.Fits (Γ.declare name x.signature) := by
  obtain ⟨y, hy, hd⟩ := define_eq_ok_iff.mp hd
  have hsame := Variable.signature_of_store hy
  exact hsame ▸ h.declare (Variable.typed_of_store hy) hd

end Environment

end EggLang
