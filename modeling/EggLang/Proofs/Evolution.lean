import EggLang.Proofs.Environment

/-! The variables in scope over time. An environment changes by one operation at a time, and what
each operation keeps of the variables is kept as long as their scope is there. -/

namespace EggLang

/-! ### Variables and scopes -/

namespace Variable

/-- What is true of a variable at all times: its value is of its type, and a constant has one. -/
structure Sound (x : Variable) : Prop where
  typed : x.Typed
  constant : x.isConstant = true → x.value.isSome = true

/-- What a variable may become: its declaration stays, a constant keeps its value, and a variable
with a value has one from then on. -/
structure Evolves (x y : Variable) : Prop where
  signature : y.signature = x.signature
  constant : x.isConstant = true → y.value = x.value
  initialized : x.value.isSome = true → y.value.isSome = true

theorem Evolves.refl (x : Variable) : x.Evolves x := ⟨rfl, fun _ => rfl, fun h => h⟩

theorem Evolves.isConstant_eq {x y : Variable} (h : x.Evolves y) : y.isConstant = x.isConstant :=
  congrArg Signature.isConstant h.signature

theorem Evolves.trans {x y z : Variable} (hxy : x.Evolves y) (hyz : y.Evolves z) : x.Evolves z where
  signature := hyz.signature.trans hxy.signature
  constant hx := (hyz.constant (hxy.isConstant_eq.trans hx)).trans (hxy.constant hx)
  initialized hx := hyz.initialized (hxy.initialized hx)

end Variable

namespace Scope

/-- Every variable of the first scope is still in the second. -/
def Evolves (s t : Scope) : Prop :=
  ∀ name x, s.find? name = some x → ∃ y, t.find? name = some y ∧ x.Evolves y

theorem Evolves.refl (s : Scope) : s.Evolves s := fun _ x hx => ⟨x, hx, .refl x⟩

theorem Evolves.trans {s t u : Scope} (hst : s.Evolves t) (htu : t.Evolves u) : s.Evolves u := by
  intro name x hx
  obtain ⟨y, hy, hxy⟩ := hst name x hx
  obtain ⟨z, hz, hyz⟩ := htu name y hy
  exact ⟨z, hz, hxy.trans hyz⟩

theorem evolves_replace {scope : Scope} {name : String} {x y : Variable}
    (hy : scope.find? name = some y) (hx : y.Evolves x) : scope.Evolves (scope.replace name x) := by
  intro other z hz
  rw [find?_replace]
  split
  · rename_i h
    rw [h, hy] at hz
    cases hz
    exact ⟨x, by rw [hy, Option.map_some], hx⟩
  · exact ⟨z, hz, .refl z⟩

theorem evolves_cons {scope : Scope} {name : String} (hname : scope.find? name = none)
    (x : Variable) : scope.Evolves ((name, x) :: scope) := by
  intro other z hz
  refine ⟨z, ?_, .refl z⟩
  rw [find?_cons, if_neg, hz]
  rintro rfl
  exact nomatch hname.symm.trans hz

end Scope

/-! ### Operations -/

namespace Environment

/-- `q` holds of every variable in every scope. -/
def All (q : Variable → Prop) (env : Environment) : Prop :=
  ∀ scope ∈ env.scopes, ∀ entry ∈ scope, q entry.2

/-- Every variable in every scope is sound. -/
def Sound (env : Environment) : Prop := ∀ scope ∈ env.scopes, ∀ entry ∈ scope, entry.2.Sound

/-- The outermost `d` scopes. -/
def outermost (env : Environment) (d : Nat) : List Scope := env.scopes.drop (env.depth - d)

/-- What one operation makes of an environment, or none. A constant is declared with its value. -/
inductive Step : Environment → Environment → Prop
  | stay {env : Environment} : Step env env
  | push {env : Environment} : Step env env.push
  | pop {env : Environment} : Step env env.pop
  | declare {env env' : Environment} {name : String} {type : DataType} :
      declare name ⟨type, false, none⟩ env = .ok () env' → Step env env'
  | define {env env' : Environment} {name : String} {x : Variable} {v : Value} :
      define name x v env = .ok () env' → Step env env'
  | assign {env env' : Environment} {name : String} {v : Value} :
      assign name v env = .ok () env' → Step env env'

variable {env env' : Environment}

section

variable {q : Variable → Prop} {name : String} {x : Variable}

theorem All.empty : All q .empty := by
  intro scope hscope
  rw [List.mem_singleton.mp hscope]
  exact List.forall_mem_nil _

theorem All.push (h : env.All q) : env.push.All q :=
  List.forall_mem_cons.mpr ⟨List.forall_mem_nil _, h⟩

theorem All.pop (h : env.All q) : env.pop.All q := by
  obtain ⟨innermost, outer⟩ := env
  cases outer with
  | nil => exact h
  | cons scope rest => exact (List.forall_mem_cons.mp h).2

theorem All.declare (h : env.All q) (hx : q x) (hd : declare name x env = .ok () env') :
    env'.All q := by
  obtain ⟨-, rfl⟩ := declare_eq_ok_iff.mp hd
  obtain ⟨hinnermost, houter⟩ := List.forall_mem_cons.mp h
  exact List.forall_mem_cons.mpr ⟨List.forall_mem_cons.mpr ⟨hx, hinnermost⟩, houter⟩

theorem All.replace (h : env.All q) (hx : q x) : (env.replace name x).All q := by
  have hreplace : ∀ scope : Scope, (∀ entry ∈ scope, q entry.2) →
      ∀ entry ∈ scope.replace name x, q entry.2 :=
    fun _ hscope => Scope.forall_replace hscope hx
  rw [All, scopes_replace]
  exact forall_replaceIn hreplace h

end

theorem Sound.all (h : env.Sound) : env.All Variable.Sound := h

theorem Sound.empty : Sound .empty := All.empty (q := Variable.Sound)

theorem Sound.assign {name : String} {v : Value} (henv : env.Sound)
    (h : assign name v env = .ok () env') : env'.Sound := by
  obtain ⟨x, -, -, hv, rfl⟩ := assign_eq_ok_iff.mp h
  have hx : Variable.Sound { x with value := some v } := by
    refine ⟨fun w hw => ?_, fun _ => rfl⟩
    cases hw
    exact hv
  exact henv.all.replace hx

theorem Step.sound (h : Step env env') (henv : env.Sound) : env'.Sound := by
  cases h with
  | stay => exact henv
  | push => exact henv.all.push
  | pop => exact henv.all.pop
  | declare h =>
    refine henv.all.declare ⟨fun v hv => ?_, fun hc => ?_⟩ h
    · cases hv
    · cases hc
  | define h =>
    obtain ⟨y, hy, hd⟩ := define_eq_ok_iff.mp h
    refine henv.all.declare ⟨Variable.typed_of_store hy, fun _ => ?_⟩ hd
    rw [(Variable.store_eq_ok_iff.mp hy).2]
    rfl
  | assign h => exact henv.assign h

/-- Scope by scope, the variables of the first environment evolve into those of the second. -/
theorem evolves_outermost (h : List.Forall₂ Scope.Evolves env.scopes env'.scopes) (d : Nat) :
    List.Forall₂ Scope.Evolves (env.outermost d) (env'.outermost d) := by
  have hdepth : env'.depth = env.depth := h.length_eq.symm
  rw [outermost, outermost, hdepth]
  exact List.forall₂_drop _ h

theorem forall₂_evolves_refl (scopes : List Scope) : List.Forall₂ Scope.Evolves scopes scopes :=
  List.forall₂_same.mpr fun scope _ => .refl scope

/-- The innermost scope is none of the outermost ones where there are enough below it. -/
theorem outermost_cons {scope : Scope} {d : Nat} (hd : d ≤ env.depth) :
    outermost ⟨scope, env.scopes⟩ d = env.outermost d := by
  have hdepth : depth ⟨scope, env.scopes⟩ - d = env.depth - d + 1 := by
    rw [depth, scopes, List.length_cons]
    rw [depth] at hd ⊢
    omega
  rw [outermost, outermost, hdepth]
  rfl

theorem outermost_push {d : Nat} (hd : d ≤ env.depth) : env.push.outermost d = env.outermost d :=
  outermost_cons hd

theorem outermost_pop {d : Nat} (hd : d ≤ env.pop.depth) :
    env.pop.outermost d = env.outermost d := by
  obtain ⟨innermost, outer⟩ := env
  cases outer with
  | nil => rfl
  | cons scope rest => exact Eq.symm (outermost_cons (show d ≤ depth ⟨scope, rest⟩ from hd))

theorem evolves_declare {name : String} {x : Variable} (h : declare name x env = .ok () env') :
    List.Forall₂ Scope.Evolves env.scopes env'.scopes := by
  obtain ⟨hname, rfl⟩ := declare_eq_ok_iff.mp h
  exact .cons (Scope.evolves_cons hname x) (forall₂_evolves_refl env.outer)

theorem evolves_assign {name : String} {v : Value} (h : assign name v env = .ok () env') :
    List.Forall₂ Scope.Evolves env.scopes env'.scopes := by
  obtain ⟨x, hx, hc, -, rfl⟩ := assign_eq_ok_iff.mp h
  have hevolves : x.Evolves { x with value := some v } := by
    refine ⟨rfl, fun hconstant => ?_, fun _ => rfl⟩
    exact nomatch hc.symm.trans hconstant
  have hreplace : ∀ scope : Scope, scope.find? name = some x →
      scope.Evolves (scope.replace name { x with value := some v }) :=
    fun _ hfound => Scope.evolves_replace hfound hevolves
  rw [scopes_replace]
  exact forall₂_replaceIn Scope.Evolves.refl hreplace hx

/-- A scope that is there before and after an operation keeps its variables. -/
theorem Step.evolves (h : Step env env') {d : Nat} (hd : d ≤ env.depth) (hd' : d ≤ env'.depth) :
    List.Forall₂ Scope.Evolves (env.outermost d) (env'.outermost d) := by
  cases h with
  | stay => exact forall₂_evolves_refl _
  | push =>
    rw [outermost_push hd]
    exact forall₂_evolves_refl _
  | pop =>
    rw [outermost_pop hd']
    exact forall₂_evolves_refl _
  | declare h => exact evolves_outermost (evolves_declare h) d
  | define h =>
    obtain ⟨y, -, hd⟩ := define_eq_ok_iff.mp h
    exact evolves_outermost (evolves_declare hd) d
  | assign h => exact evolves_outermost (evolves_assign h) d

end Environment

end EggLang
