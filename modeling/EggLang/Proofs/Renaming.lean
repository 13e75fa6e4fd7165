import EggLang.Proofs.Matching
import EggLang.Proofs.Scopes

/-! A variable of a block under another name, one that is nowhere in the block. Under either name
the block does the same, whatever is declared around it. -/

namespace EggLang

/-- The name `new` instead of `old`. -/
def newName (old new name : String) : String := if name = old then new else name

section

variable {old new name : String}

@[simp] theorem newName_self : newName old new old = new := if_pos rfl

theorem newName_of_ne (h : name ≠ old) : newName old new name = name := if_neg h

theorem newName_injOn : Set.InjOn (newName old new) {name | name ≠ new} := by
  intro a ha b hb h
  by_cases hao : a = old <;> by_cases hbo : b = old
  · rw [hao, hbo]
  · rw [hao, newName_self, newName_of_ne hbo] at h
    exact absurd h.symm hb
  · rw [hbo, newName_self, newName_of_ne hao] at h
    exact absurd h ha
  · rwa [newName_of_ne hao, newName_of_ne hbo] at h

end

/-! ### Stacks of scopes -/

namespace Scope

/-- The scopes match as deep as a block in which there is `old` in the first stack and `new` in the
second, and around it the stacks are the same. The number is that of the scopes inside the block. -/
inductive Renamed (old new : String) : Nat → List Scope → List Scope → Prop
  | block {s t : Scope} {outer : List Scope} :
      s.Matches (newName old new) (· ≠ new) Eq t → (s.find? old).isSome → outer ≠ [] →
      Renamed old new 0 (s :: outer) (t :: outer)
  | inner {k : Nat} {s t : Scope} {ss ts : List Scope} :
      s.Matches (newName old new) (· ≠ new) Eq t → Renamed old new k ss ts →
      Renamed old new (k + 1) (s :: ss) (t :: ts)

namespace Renamed

variable {old new name : String} {k : Nat} {s t : Scope} {ss ts : List Scope} {x y : Variable}

theorem head (h : Renamed old new k (s :: ss) (t :: ts)) :
    s.Matches (newName old new) (· ≠ new) Eq t := by
  cases h with
  | block hs _ _ => exact hs
  | inner hs _ => exact hs

/-- Around the block `old` and `new` may be any variables: code finds `old` in the block at the
latest, and it has no `new`. -/
theorem find? (h : Renamed old new k ss ts) (hname : name ≠ new) :
    Option.Rel Eq (ss.findSome? (·.find? name))
      (ts.findSome? (·.find? (newName old new name))) := by
  induction h with
  | @block s t outer hs hold _ =>
    by_cases heq : name = old
    · subst heq
      rw [List.findSome?_cons, List.findSome?_cons]
      obtain ⟨hs, -⟩ | ⟨y, z, hs, ht, hyz⟩ := hs.found hname
      · rw [hs] at hold
        cases hold
      · rw [hs, ht]
        exact .some hyz
    · refine hs.findSome?_cons hname ?_
      rw [newName_of_ne heq]
      exact rel_eq_iff.mpr rfl
  | inner hs _ ih => exact hs.findSome?_cons hname ih

theorem replaceIn (h : Renamed old new k ss ts) (hname : name ≠ new) :
    Renamed old new k (Environment.replaceIn name x ss)
      (Environment.replaceIn (newName old new name) x ts) := by
  induction h with
  | @block s t outer hs hold houter =>
    rw [Environment.replaceIn, Environment.replaceIn, hs.isSome_eq hname]
    by_cases hfound : (s.find? name).isSome
    · rw [if_pos hfound, if_pos hfound]
      refine .block (hs.replace newName_injOn hname rfl) ?_ houter
      rw [find?_replace]
      split
      · rwa [Option.isSome_map]
      · exact hold
    · have hne : name ≠ old := by
        rintro rfl
        exact hfound hold
      rw [if_neg hfound, if_neg hfound, newName_of_ne hne]
      refine .block hs hold ?_
      rw [← List.length_pos_iff, Environment.length_replaceIn]
      exact List.length_pos_iff.mpr houter
  | @inner k s t ss ts hs hrest ih =>
    rw [Environment.replaceIn, Environment.replaceIn, hs.isSome_eq hname]
    split
    · exact .inner (hs.replace newName_injOn hname rfl) hrest
    · exact .inner hs ih

theorem cons (h : Renamed old new k (s :: ss) (t :: ts)) (hname : name ≠ new) :
    Renamed old new k (((name, x) :: s) :: ss) (((newName old new name, x) :: t) :: ts) := by
  cases h with
  | block hs hold houter =>
    refine .block (hs.cons newName_injOn hname rfl) ?_ houter
    rw [find?_cons]
    split
    · rfl
    · exact hold
  | inner hs hrest => exact .inner (hs.cons newName_injOn hname rfl) hrest

end Renamed

end Scope

/-- `Scope.Renamed` for the scopes of environments. -/
def Environment.Renamed (old new : String) (k : Nat) (env env' : Environment) : Prop :=
  Scope.Renamed old new k env.scopes env'.scopes

theorem correspondence_renamed (old new : String) :
    Correspondence (newName old new) (· ≠ new) Eq (Environment.Renamed old new) where
  find? h hname := h.find? hname
  innermost h hname := h.head _ hname
  replace h hname hyz := by
    rw [Environment.Renamed, Environment.scopes_replace, Environment.scopes_replace, hyz]
    exact h.replaceIn hname
  add h hname hyz := by
    rw [hyz]
    exact h.cons hname
  push h := .inner .nil h
  pop {k env env'} h := by
    obtain ⟨innermost, outer⟩ := env
    obtain ⟨innermost', outer'⟩ := env'
    cases h with
    | inner _ hrest =>
      cases hrest with
      | block hs hold houter => exact .block hs hold houter
      | inner hs hrest => exact .inner hs hrest

/-- Nothing is left of the difference when the block is left. -/
theorem Environment.Renamed.pop_eq {old new : String} {env env' : Environment}
    (h : env.Renamed old new 0 env') : env'.pop = env.pop := by
  obtain ⟨innermost, outer⟩ := env
  obtain ⟨innermost', outer'⟩ := env'
  cases h with
  | block _ _ houter =>
    obtain ⟨scope, rest, rfl⟩ := List.exists_cons_of_ne_nil houter
    rfl

theorem leave_eq_of_renamed {old new : String} {m m' : Machine}
    (h : m.Related (Environment.Renamed old new 0) Eq m') :
    ({ m' with environment := m'.environment.pop } : Machine) =
      { m with environment := m.environment.pop } := by
  rw [Environment.Renamed.pop_eq h.environment, h.output]

/-! ### The declaration -/

namespace Environment

/-- A name that was not in the innermost scope and is not new is still not in it. -/
theorem Gains.find?_eq_none {env env' : Environment} {added : Names} {name : String}
    (h : env.Gains added env') (hname : env.innermost.find? name = none)
    (hadded : name ∉ added.map Prod.fst) : env'.innermost.find? name = none := by
  have hnone : added.lookup name = none := List.lookup_eq_none_iff.mpr fun entry hentry =>
    bne_iff_ne.mpr fun heq => hadded (heq ▸ List.mem_map_of_mem hentry)
  have hsignature := h.innermost name
  rw [Scope.signature?, Scope.signature?, hname, hnone] at hsignature
  exact Option.map_eq_none_iff.mp hsignature

/-- Run in one environment, `x` and `y` put what one name is into scope under either name, or both
fail and change nothing. -/
def Enters (old new : String) (env : Environment) (x y : Evaluation Unit) : Prop :=
  (∃ last last', x env = .ok () last ∧ y env = .ok () last' ∧ last.Renamed old new 0 last') ∨
    ∃ e, x env = .error e env ∧ y env = .error (e.rename (newName old new)) env

/-- The innermost scope is that of a block, and neither name is in it. -/
structure Free (old new : String) (env : Environment) : Prop where
  old : env.innermost.find? old = none
  new : env.innermost.find? new = none
  outer : env.outer ≠ []

namespace Free

variable {old new : String} {env env' : Environment}

theorem push (env : Environment) : env.push.Free old new := ⟨rfl, rfl, List.cons_ne_nil _ _⟩

theorem gains {added : Names} (h : env.Free old new) (hgains : env.Gains added env')
    (hold : old ∉ added.map Prod.fst) (hnew : new ∉ added.map Prod.fst) : env'.Free old new := by
  refine ⟨hgains.find?_eq_none h.old hold, hgains.find?_eq_none h.new hnew, ?_⟩
  rw [← List.length_pos_iff, ← hgains.outer.length_eq]
  exact List.length_pos_iff.mpr h.outer

theorem declares (h : env.Free old new) (hne : old ≠ new) (x : Variable) :
    Enters old new env (declare old x) (declare new x) := by
  have hsame : env.innermost.Matches (newName old new) (· ≠ new) Eq env.innermost := by
    intro name hname
    rw [rel_eq_iff]
    by_cases heq : name = old
    · rw [heq, newName_self, h.old, h.new]
    · rw [newName_of_ne heq]
  have hcons := hsame.cons newName_injOn hne (rfl : x = x)
  rw [newName_self] at hcons
  refine .inl ⟨_, _, declare_eq_ok_iff.mpr ⟨h.old, rfl⟩, declare_eq_ok_iff.mpr ⟨h.new, rfl⟩, ?_⟩
  refine .block hcons ?_ h.outer
  rw [Scope.find?_cons, if_pos rfl]
  rfl

theorem defines (h : env.Free old new) (hne : old ≠ new) (x : Variable) (v : Value) :
    Enters old new env (define old x v) (define new x v) := by
  have hstore := likeness_eq.lockstep_store (newName old new) old (rfl : v = v) x x rfl
  rw [newName_self] at hstore
  rw [Enters, define, define]
  obtain ⟨_, _, y, _, hold, hnew, -, rfl⟩ | ⟨e, y, z, hold, hnew, -⟩ := hstore
  · rw [hold, hnew]
    exact h.declares hne y
  · rw [hold, hnew]
    exact .inr ⟨e, rfl, rfl⟩

end Free

end Environment

namespace Declaration

def withName (d : Declaration) (name : String) : Declaration := { d with id := ⟨name, d.id.span⟩ }

/-- The first part of a declaration, in which its name is not in scope yet. -/
def initialValue (d : Declaration) : Evaluation (Option Value) :=
  match d.initializer with
  | some value => do
    let v ← value.evaluate
    pure (some v)
  | none => pure none

/-- The second part of a declaration, under some name. -/
def enter (d : Declaration) (name : String) : Option Value → Evaluation Unit
  | some v => Environment.define name ⟨d.type, d.isConstant, none⟩ v
  | none => Environment.declare name ⟨d.type, d.isConstant, none⟩

theorem evaluate_eq (d : Declaration) :
    d.evaluate = (do
      let v ← d.initialValue
      d.enter d.id.name v) := by
  rw [evaluate, initialValue]
  cases d.initializer with
  | none => rfl
  | some value =>
    simp only [bind_assoc, pure_bind]
    rfl

theorem gains_initialValue (d : Declaration) : Moves (Environment.Gains []) d.initialValue := by
  rw [initialValue]
  cases d.initializer with
  | none => exact .pure Environment.Gains.refl none
  | some value =>
    exact value.gains.bind Environment.Gains.trans fun v => .pure Environment.Gains.refl (some v)

theorem enters (d : Declaration) {old new : String} {env : Environment} (h : env.Free old new)
    (hne : old ≠ new) (v : Option Value) :
    Environment.Enters old new env (d.enter old v) (d.enter new v) := by
  cases v with
  | none => exact h.declares hne _
  | some v => exact h.defines hne _ v

end Declaration

/-! ### The block -/

namespace Stmt

open Execution

/-- What a block does up to where the name of its declaration `d` is in scope. -/
def preamble (pre : List Stmt) (d : Declaration) : Execution (Option Value) := do
  executeAll pre
  evaluating d.initialValue

/-- What a block does behind its preamble, where the variable that `d` declares is called `name`. -/
def remainder (d : Declaration) (name : String) (post : List Stmt) (v : Option Value) :
    Execution Unit := do
  evaluating (d.enter name v)
  executeAll post

theorem executeAll_declare (pre : List Stmt) (d : Declaration) (span : Span) (post : List Stmt) :
    executeAll (pre ++ declare d span :: post) = preamble pre d >>= remainder d d.id.name post := by
  rw [executeAll_append, executeAll, execute, d.evaluate_eq, evaluating_bind, preamble]
  simp only [bind_assoc]
  rfl

/-- What a statement declares is in its text. -/
theorem names_of_declared {s : Stmt} {name : String} (h : name ∈ s.declared.map Prod.fst) :
    name ∈ s.names := by
  cases s with
  | declare d _ =>
    rw [List.mem_singleton.mp h, names, Declaration.names]
    cases d.initializer <;> exact List.mem_cons_self
  | print _ _ => exact nomatch h
  | assign _ _ _ => exact nomatch h
  | ifElse _ _ _ _ => exact nomatch h
  | block _ _ => exact nomatch h

/-- Where the preamble of a block succeeds, both names are free behind it. -/
theorem free_of_preamble {pre : List Stmt} {d : Declaration} {new : String} {m m' : Machine}
    {v : Option Value} (hpre : ∀ s ∈ pre, d.id.name ∉ s.declared.map Prod.fst)
    (hnew : new ∉ namesAll pre) (hm : m.environment.Free d.id.name new)
    (h : preamble pre d m = .ok v m') : m'.environment.Free d.id.name new := by
  have hdeclared : ∀ name, (∀ s ∈ pre, name ∉ s.declared.map Prod.fst) →
      name ∉ (pre.flatMap declared).map Prod.fst := by
    intro name hname hmem
    rw [List.map_flatMap, List.mem_flatMap] at hmem
    obtain ⟨s, hs, hmem⟩ := hmem
    exact hname s hs hmem
  have hnew' : ∀ s ∈ pre, new ∉ s.declared.map Prod.fst := fun s hs hmem =>
    hnew (mem_namesAll hs (names_of_declared hmem))
  cases hrun : executeAll pre m with
  | error e m₁ => exact nomatch (bind_of_error hrun).symm.trans h
  | ok _ m₁ =>
    have hfree := hm.gains (gains_of_ok hrun) (hdeclared _ hpre) (hdeclared _ hnew')
    have hvalue : evaluating d.initialValue m₁ = .ok v m' := (bind_of_ok hrun).symm.trans h
    have hgains := d.gains_initialValue m₁.environment
    rw [← after_evaluating, after_of_ok hvalue] at hgains
    exact hfree.gains hgains List.not_mem_nil List.not_mem_nil

/-- Behind the preamble, runs under either name leave the block in the same way. -/
theorem remainder_withName {d : Declaration} {old new : String} {m : Machine} {post : List Stmt}
    (hm : m.environment.Free old new) (hne : old ≠ new) (hpost : ∀ name ∈ namesAll post, name ≠ new)
    (v : Option Value) :
    (∃ last last', remainder d old post v m = .ok () last ∧
      remainder d new (renameAll (newName old new) post) v m = .ok () last' ∧
      ({ last' with environment := last'.environment.pop } : Machine) =
        { last with environment := last.environment.pop }) ∨
    ∃ e last last', remainder d old post v m = .error e last ∧
      remainder d new (renameAll (newName old new) post) v m =
        .error (e.rename (newName old new)) last' ∧
      ({ last' with environment := last'.environment.pop } : Machine) =
        { last with environment := last.environment.pop } := by
  obtain ⟨env, env', hold, hnew, henv⟩ | ⟨e, hold, hnew⟩ := d.enters hm hne v
  · have hlockstep := lockstepAll likeness_eq (correspondence_renamed old new) (printed_eq _) post
      hpost (.inr fun _ _ => Eq.symm) 0 { m with environment := env } { m with environment := env' }
      ⟨henv, rfl⟩
    rw [remainder, remainder, bind_of_ok (evaluating_of_ok hold),
      bind_of_ok (evaluating_of_ok hnew)]
    obtain ⟨_, _, last, last', hrun, hrun', -, hlast⟩ | ⟨e, last, last', hrun, hrun', hlast⟩ :=
      hlockstep
    · exact .inl ⟨last, last', hrun, hrun', leave_eq_of_renamed hlast⟩
    · exact .inr ⟨e, last, last', hrun, hrun', leave_eq_of_renamed hlast⟩
  · exact .inr ⟨e, m, m, bind_of_error (evaluating_of_error hold),
      bind_of_error (evaluating_of_error hnew), rfl⟩

end Stmt

/-- What a run ends with, with other names in its error. -/
def renameError (f : String → String) :
    EStateM.Result RuntimeError Machine Unit → EStateM.Result RuntimeError Machine Unit
  | .ok a m => .ok a m
  | .error e m => .error (e.rename f) m

open Execution Stmt in
/-- A variable of a block can have any name that is not in the block: what the block prints and the
environment that it leaves stay the same. Its error does so where the block fails before the name is
in scope, and otherwise it has the other name as well. -/
theorem inScope_withName {pre post : List Stmt} {d : Declaration} {span : Span} {new : String}
    (hpre : ∀ s ∈ pre, d.id.name ∉ s.declared.map Prod.fst)
    (hnew : new ∉ namesAll (pre ++ declare d span :: post)) (m : Machine) :
    inScope (executeAll (pre ++ declare (d.withName new) span ::
        renameAll (newName d.id.name new) post)) m =
      match preamble pre d { m with environment := m.environment.push } with
      | .error _ _ => inScope (executeAll (pre ++ declare d span :: post)) m
      | .ok _ _ => renameError (newName d.id.name new)
        (inScope (executeAll (pre ++ declare d span :: post)) m) := by
  rw [namesAll_append, namesAll, List.mem_append, List.mem_append, not_or, not_or] at hnew
  obtain ⟨hnewPre, hnewHere, hnewPost⟩ := hnew
  have hne : d.id.name ≠ new := by
    rintro rfl
    exact hnewHere (names_of_declared (List.mem_singleton_self _))
  have hpost : ∀ name ∈ namesAll post, name ≠ new := by
    rintro name hname rfl
    exact hnewPost hname
  have hbody := congrFun (executeAll_declare pre d span post)
    { m with environment := m.environment.push }
  have hbody' := congrFun (executeAll_declare pre (d.withName new) span
    (renameAll (newName d.id.name new) post)) { m with environment := m.environment.push }
  -- The two blocks have one preamble, since the initializer has the outer meaning of the name.
  cases hpreamble : preamble pre d { m with environment := m.environment.push } with
  | error e m₁ =>
    have hfails := hbody.trans (bind_of_error hpreamble)
    have hfails' := hbody'.trans (bind_of_error hpreamble)
    exact (inScope_of_error hfails').trans (inScope_of_error hfails).symm
  | ok v m₁ =>
    have hbehind := hbody.trans (bind_of_ok hpreamble)
    have hbehind' := hbody'.trans (bind_of_ok hpreamble)
    have hfree := free_of_preamble hpre hnewPre (.push m.environment) hpreamble
    obtain ⟨last, last', hrun, hrun', hleave⟩ | ⟨e, last, last', hrun, hrun', hleave⟩ :=
      remainder_withName (d := d) hfree hne hpost v
    · have hends := inScope_of_ok (hbehind.trans hrun)
      have hends' := inScope_of_ok (hbehind'.trans hrun')
      rw [hends, hends', hleave]
      rfl
    · have hends := inScope_of_error (hbehind.trans hrun)
      have hends' := inScope_of_error (hbehind'.trans hrun')
      rw [hends, hends', hleave]
      rfl

/-- `bool x = !x;` -/
def negation : Declaration :=
  ⟨⟨"x", .nowhere⟩, .boolean, false, some (.unary .not (.var ⟨"x", .nowhere⟩) .nowhere)⟩

/-- `x = !x; { num x = 1; print(x); } x = 1;`, where the last assignment is of another type. -/
def negated : List Stmt :=
  [.assign ⟨"x", .nowhere⟩ (.unary .not (.var ⟨"x", .nowhere⟩) .nowhere) .nowhere,
   .block
    [.declare ⟨⟨"x", .nowhere⟩, .number, false, some (.literal (.number .one) .nowhere)⟩ .nowhere,
     .print (.var ⟨"x", .nowhere⟩) .nowhere]
    .nowhere,
   .assign ⟨"x", .nowhere⟩ (.literal (.number .one) .nowhere) .nowhere]

/-- A machine with values for `x` and `y`. -/
def outside : Machine :=
  ⟨⟨[("y", ⟨.boolean, false, some (.boolean false)⟩),
    ("x", ⟨.boolean, false, some (.boolean true)⟩)], []⟩, .empty none⟩

open Execution Stmt in
theorem inScope_withName_negation :
    (∀ s ∈ [print (.var ⟨"x", .nowhere⟩) .nowhere], "x" ∉ s.declared.map Prod.fst) ∧
    "y" ∉ namesAll ([print (.var ⟨"x", .nowhere⟩) .nowhere] ++
      declare negation .nowhere :: negated) ∧
    inScope (executeAll ([print (.var ⟨"x", .nowhere⟩) .nowhere] ++
        declare (negation.withName "y") .nowhere :: renameAll (newName "x" "y") negated)) outside =
      match preamble [print (.var ⟨"x", .nowhere⟩) .nowhere] negation
          { outside with environment := outside.environment.push } with
      | .error _ _ => inScope (executeAll ([print (.var ⟨"x", .nowhere⟩) .nowhere] ++
          declare negation .nowhere :: negated)) outside
      | .ok _ _ => renameError (newName "x" "y")
        (inScope (executeAll ([print (.var ⟨"x", .nowhere⟩) .nowhere] ++
          declare negation .nowhere :: negated)) outside) := by
  have hpre : ∀ s ∈ [print (.var ⟨"x", .nowhere⟩) .nowhere],
      negation.id.name ∉ s.declared.map Prod.fst := by decide
  have hnew : "y" ∉ namesAll ([print (.var ⟨"x", .nowhere⟩) .nowhere] ++
      declare negation .nowhere :: negated) := by decide
  exact ⟨hpre, hnew, inScope_withName hpre hnew outside⟩

end EggLang
