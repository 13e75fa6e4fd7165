import EggLang.Proofs.Matching

/-! What code has to do with the variables whose names are not in it: nothing. It does not depend on
them, and it leaves them as they are, also where it fails. -/

namespace EggLang

/-! ### Environments that are the same under some names -/

/-- Under each name for which `q` holds the scopes have the same variable, or none. -/
def Scope.SameOn (q : String → Prop) (s t : Scope) : Prop :=
  ∀ name, q name → t.find? name = s.find? name

/-- The environments have as many scopes, and these are the same one by one, under the names for
which `q` holds. -/
def Environment.SameOn (q : String → Prop) (env env' : Environment) : Prop :=
  List.Forall₂ (Scope.SameOn q) env.scopes env'.scopes

namespace Scope

variable {q : String → Prop} {s t u : Scope} {name : String}

theorem SameOn.refl (s : Scope) : s.SameOn q s := fun _ _ => rfl

theorem SameOn.trans (h : s.SameOn q t) (h' : t.SameOn q u) : s.SameOn q u :=
  fun name hname => (h' name hname).trans (h name hname)

theorem sameOn_cons (s : Scope) (x : Variable) (hname : ¬q name) : s.SameOn q ((name, x) :: s) := by
  intro other hother
  have hne : other ≠ name := fun heq => hname (heq ▸ hother)
  rw [find?_cons, if_neg hne]

theorem sameOn_replace (s : Scope) (x : Variable) (hname : ¬q name) :
    s.SameOn q (s.replace name x) := by
  intro other hother
  have hne : other ≠ name := fun heq => hname (heq ▸ hother)
  rw [find?_replace, if_neg hne]

theorem matches_eq_iff : s.Matches (fun name => name) q Eq t ↔ s.SameOn q t :=
  forall₂_congr fun _ _ => rel_eq_iff

end Scope

namespace Environment

variable {q : String → Prop} {env env' env'' : Environment} {name : String}

theorem SameOn.refl (env : Environment) : env.SameOn q env :=
  List.forall₂_same.mpr fun scope _ => Scope.SameOn.refl scope

theorem SameOn.trans (h : env.SameOn q env') (h' : env'.SameOn q env'') : env.SameOn q env'' :=
  forall₂_trans h h' Scope.SameOn.trans

/-- A scope that is entered and left leaves nothing behind. -/
theorem SameOn.pop (h : env.push.SameOn q env') : env.SameOn q env'.pop := by
  obtain ⟨innermost, outer⟩ := env'
  cases (List.forall₂_cons.mp h).2 with
  | cons hscope hrest => exact .cons hscope hrest

theorem SameOn.assign {v : Value} (hname : ¬q name) (h : assign name v env = .ok () env') :
    env.SameOn q env' := by
  obtain ⟨x, hx, -, -, rfl⟩ := assign_eq_ok_iff.mp h
  rw [SameOn, scopes_replace]
  exact forall₂_replaceIn Scope.SameOn.refl (fun s _ => s.sameOn_replace _ hname) hx

theorem SameOn.declare {x : Variable} (hname : ¬q name) (h : declare name x env = .ok () env') :
    env.SameOn q env' := by
  obtain ⟨-, rfl⟩ := declare_eq_ok_iff.mp h
  exact .cons (env.innermost.sameOn_cons x hname)
    (List.forall₂_same.mpr fun scope _ => Scope.SameOn.refl scope)

theorem SameOn.define {x : Variable} {v : Value} (hname : ¬q name)
    (h : define name x v env = .ok () env') : env.SameOn q env' := by
  obtain ⟨y, -, hd⟩ := define_eq_ok_iff.mp h
  exact .declare hname hd

theorem matches_eq_iff : env.Matches (fun name => name) q Eq env' ↔ env.SameOn q env' := by
  have hscope : Scope.Matches (fun name => name) q Eq = Scope.SameOn q :=
    funext fun _ => funext fun _ => propext Scope.matches_eq_iff
  rw [Matches, SameOn, hscope]

end Environment

open Environment (SameOn)

/-! ### What code leaves alone -/

section

variable {q : String → Prop}

theorem Expr.keeps {e : Expr} (he : ∀ name ∈ e.names, ¬q name) :
    Moves (SameOn q) e.evaluate :=
  e.moves_names SameOn.refl SameOn.trans fun hname => SameOn.assign (he _ hname)

theorem Declaration.keeps {d : Declaration} (hd : ∀ name ∈ d.names, ¬q name) :
    Moves (SameOn q) d.evaluate := by
  obtain ⟨id, type, isConstant, initializer⟩ := d
  cases initializer with
  | none =>
    have hid : ¬q id.name := hd id.name List.mem_cons_self
    exact (Environment.atomic_declare _ _).moves SameOn.refl fun _ _ => SameOn.declare hid
  | some value =>
    obtain ⟨hid, hvalue⟩ := List.forall_mem_cons.mp hd
    refine (Expr.keeps hvalue).bind SameOn.trans fun v => ?_
    exact (Environment.atomic_define _ _ _).moves SameOn.refl fun _ _ => SameOn.define hid

/-- `Environment.SameOn` for the environments of machines. -/
def Machine.SameOn (q : String → Prop) (m m' : Machine) : Prop :=
  m.environment.SameOn q m'.environment

theorem Machine.SameOn.refl (m : Machine) : m.SameOn q m := Environment.SameOn.refl m.environment

theorem Machine.SameOn.trans {m m' m'' : Machine} (h : m.SameOn q m') (h' : m'.SameOn q m'') :
    m.SameOn q m'' :=
  Environment.SameOn.trans h h'

namespace Execution

theorem keeps_evaluating {α : Type} {x : Evaluation α} (hx : Moves (Environment.SameOn q) x) :
    Moves (Machine.SameOn q) (evaluating x) := by
  intro m
  rw [Machine.SameOn, after_evaluating]
  exact hx m.environment

theorem keeps_printLine (text : String) : Moves (Machine.SameOn q) (printLine text) := by
  intro m
  rw [Machine.SameOn, environment_printLine]
  exact .refl m.environment

theorem keeps_inScope {x : Execution Unit} (hx : Moves (Machine.SameOn q) x) :
    Moves (Machine.SameOn q) (inScope x) := by
  intro m
  rw [Machine.SameOn, environment_inScope]
  exact Environment.SameOn.pop (hx { m with environment := m.environment.push })

end Execution

namespace Stmt

open Execution

mutual

theorem keeps : (s : Stmt) → (∀ name ∈ s.names, ¬q name) → Moves (Machine.SameOn q) s.execute
  | print value _, hs => by
    rw [execute]
    exact (keeps_evaluating (Expr.keeps hs)).bind Machine.SameOn.trans fun v =>
      keeps_printLine v.text
  | declare d _, hs => by
    rw [execute]
    exact keeps_evaluating (Declaration.keeps hs)
  | assign target value span, hs => by
    rw [execute]
    have hassign := Expr.keeps (e := .assign target value span) hs
    exact (keeps_evaluating hassign).bind Machine.SameOn.trans fun _ => .pure Machine.SameOn.refl ()
  | ifElse condition body none _, hs => by
    obtain ⟨hc, hb⟩ := List.forall_mem_append.mp hs
    have hbody := keeps_inScope (keepsAll body hb)
    rw [execute]
    exact (keeps_evaluating (Expr.keeps hc)).bind Machine.SameOn.trans fun v =>
      moves_choose Machine.SameOn.refl hbody (.pure Machine.SameOn.refl ())
  | ifElse condition body (some otherwise) _, hs => by
    obtain ⟨hc, hbodies⟩ := List.forall_mem_append.mp hs
    obtain ⟨hb, hother⟩ := List.forall_mem_append.mp hbodies
    have hbody := keeps_inScope (keepsAll body hb)
    have hotherwise := keeps_inScope (keepsAll otherwise hother)
    rw [execute]
    exact (keeps_evaluating (Expr.keeps hc)).bind Machine.SameOn.trans fun v =>
      moves_choose Machine.SameOn.refl hbody hotherwise
  | block body _, hs => by
    rw [execute]
    exact keeps_inScope (keepsAll body hs)

theorem keepsAll : (body : List Stmt) → (∀ name ∈ namesAll body, ¬q name) →
    Moves (Machine.SameOn q) (executeAll body)
  | [], _ => .pure Machine.SameOn.refl ()
  | s :: rest, hbody => by
    obtain ⟨hs, hrest⟩ := List.forall_mem_append.mp hbody
    rw [executeAll]
    exact (keeps s hs).bind Machine.SameOn.trans fun _ => keepsAll rest hrest

end

end Stmt

end

/-! ### Two runs -/

/-- Runs from environments that are the same under the names in the code print the same and end the
same way, in environments that are again the same there. All other variables are as they were. -/
theorem executeAll_sameOn {body : List Stmt} {env env' : Environment}
    (h : env.SameOn (· ∈ Stmt.namesAll body) env') (out : Output) :
    ∃ last last' out',
      ((Stmt.executeAll body ⟨env, out⟩ = .ok () ⟨last, out'⟩ ∧
          Stmt.executeAll body ⟨env', out⟩ = .ok () ⟨last', out'⟩) ∨
        ∃ e, Stmt.executeAll body ⟨env, out⟩ = .error e ⟨last, out'⟩ ∧
          Stmt.executeAll body ⟨env', out⟩ = .error e ⟨last', out'⟩) ∧
      last.SameOn (· ∈ Stmt.namesAll body) last' ∧
      env.SameOn (· ∉ Stmt.namesAll body) last ∧ env'.SameOn (· ∉ Stmt.namesAll body) last' := by
  -- The two runs in lockstep settle the names in the code, and each run by itself all others.
  have hinjective : Set.InjOn (fun name : String => name) {name | name ∈ Stmt.namesAll body} :=
    fun _ _ _ _ h => h
  have hlockstep := Stmt.lockstepAll likeness_eq
    (Environment.correspondence_matches hinjective) (printed_eq _) body (fun _ hname => hname)
    (.inr fun _ _ => Eq.symm) 0
  rw [Stmt.renameAll_id] at hlockstep
  have hkeeps := Stmt.keepsAll body (q := (· ∉ Stmt.namesAll body)) fun _ hname hnot => hnot hname
  have hfirst := hkeeps ⟨env, out⟩
  have hsecond := hkeeps ⟨env', out⟩
  obtain ⟨_, _, ⟨last, out'⟩, ⟨last', _⟩, hrun, hrun', -, hlast, rfl⟩ |
    ⟨e, ⟨last, out'⟩, ⟨last', _⟩, hrun, hrun', hlast, rfl⟩ :=
    hlockstep.same (s := ⟨env, out⟩) (t := ⟨env', out⟩)
      ⟨Environment.matches_eq_iff.mpr h, rfl⟩
  · rw [after_of_ok hrun] at hfirst
    rw [after_of_ok hrun'] at hsecond
    exact ⟨last, last', out', .inl ⟨hrun, hrun'⟩, Environment.matches_eq_iff.mp hlast, hfirst,
      hsecond⟩
  · rw [after_of_error hrun] at hfirst
    rw [after_of_error hrun'] at hsecond
    exact ⟨last, last', out', .inr ⟨e, hrun, hrun'⟩, Environment.matches_eq_iff.mp hlast, hfirst,
      hsecond⟩

/-- `{ bool y = x; x = !y; } print(x);` -/
def toggling : List Stmt :=
  [.block
    [.declare ⟨⟨"y", .nowhere⟩, .boolean, false, some (.var ⟨"x", .nowhere⟩)⟩ .nowhere,
     .assign ⟨"x", .nowhere⟩ (.unary .not (.var ⟨"y", .nowhere⟩) .nowhere) .nowhere]
    .nowhere,
   .print (.var ⟨"x", .nowhere⟩) .nowhere]

/-- An environment with a value for `x`, and a variable that `toggling` has no name for. -/
def beside (z : Variable) : Environment :=
  ⟨[("z", z), ("x", ⟨.boolean, false, some (.boolean true)⟩)], []⟩

theorem executeAll_sameOn_toggling :
    (beside ⟨.string, true, none⟩).SameOn (· ∈ Stmt.namesAll toggling)
      (beside ⟨.number, false, some (.number .one)⟩) ∧
    ∃ last last' out',
      ((Stmt.executeAll toggling ⟨beside ⟨.string, true, none⟩, .empty none⟩ =
            .ok () ⟨last, out'⟩ ∧
          Stmt.executeAll toggling
            ⟨beside ⟨.number, false, some (.number .one)⟩, .empty none⟩ = .ok () ⟨last', out'⟩) ∨
        ∃ e, Stmt.executeAll toggling ⟨beside ⟨.string, true, none⟩, .empty none⟩ =
            .error e ⟨last, out'⟩ ∧
          Stmt.executeAll toggling
            ⟨beside ⟨.number, false, some (.number .one)⟩, .empty none⟩ = .error e ⟨last', out'⟩) ∧
      last.SameOn (· ∈ Stmt.namesAll toggling) last' ∧
      (beside ⟨.string, true, none⟩).SameOn (· ∉ Stmt.namesAll toggling) last ∧
      (beside ⟨.number, false, some (.number .one)⟩).SameOn (· ∉ Stmt.namesAll toggling) last' := by
  have hsame : (beside ⟨.string, true, none⟩).SameOn (· ∈ Stmt.namesAll toggling)
      (beside ⟨.number, false, some (.number .one)⟩) := by
    refine .cons (fun name hname => ?_) .nil
    have hne : name ≠ "z" := by
      rintro rfl
      exact absurd hname (by decide)
    simp [beside, Scope.find?_cons, hne]
  exact ⟨hsame, executeAll_sameOn hsame (.empty none)⟩

end EggLang
