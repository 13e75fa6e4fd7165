import EggLang.Proofs.Lockstep
import Mathlib.Data.Set.Function

/-! Scopes with the same variables under some of their names, where the names may differ from one
scope to the other. Stacks of such scopes keep code in lockstep. -/

namespace EggLang

theorem rel_eq_iff {α : Type} {a b : Option α} : Option.Rel Eq a b ↔ b = a := by
  cases a <;> cases b <;> simp [eq_comm]

/-! ### Scopes -/

namespace Scope

/-- Where `p` holds for `name`, there are variables that `x` relates under `name` in the first scope
and under `f name` in the second, or there is none in both. -/
def Matches (f : String → String) (p : String → Prop) (x : Variable → Variable → Prop)
    (s t : Scope) : Prop :=
  ∀ name, p name → Option.Rel x (s.find? name) (t.find? (f name))

variable {f : String → String} {p : String → Prop} {x : Variable → Variable → Prop} {s t : Scope}
  {name : String} {y z : Variable}

theorem Matches.found (h : s.Matches f p x t) (hname : p name) :
    (s.find? name = none ∧ t.find? (f name) = none) ∨
      ∃ y z, s.find? name = some y ∧ t.find? (f name) = some z ∧ x y z := by
  have hfind := h name hname
  generalize s.find? name = y at hfind ⊢
  generalize t.find? (f name) = z at hfind ⊢
  cases hfind with
  | none => exact .inl ⟨rfl, rfl⟩
  | some hyz => exact .inr ⟨_, _, rfl, rfl, hyz⟩

theorem Matches.nil : Matches f p x [] [] := fun _ _ => .none

theorem Matches.cons (hf : Set.InjOn f {name | p name}) (h : s.Matches f p x t) (hname : p name)
    (hyz : x y z) : Matches f p x ((name, y) :: s) ((f name, z) :: t) := by
  intro other hother
  rw [find?_cons, find?_cons]
  by_cases heq : other = name
  · rw [if_pos heq, if_pos (congrArg f heq)]
    exact .some hyz
  · rw [if_neg heq, if_neg fun hsame => heq (hf hother hname hsame)]
    exact h other hother

theorem Matches.replace (hf : Set.InjOn f {name | p name}) (h : s.Matches f p x t) (hname : p name)
    (hyz : x y z) : (s.replace name y).Matches f p x (t.replace (f name) z) := by
  intro other hother
  rw [find?_replace, find?_replace]
  by_cases heq : other = name
  · rw [if_pos heq, if_pos (congrArg f heq)]
    obtain ⟨hs, ht⟩ | ⟨_, _, hs, ht, -⟩ := h.found hname
    · rw [hs, ht]
      exact .none
    · rw [hs, ht]
      exact .some hyz
  · rw [if_neg heq, if_neg fun hsame => heq (hf hother hname hsame)]
    exact h other hother

theorem Matches.isSome_eq (h : s.Matches f p x t) (hname : p name) :
    (t.find? (f name)).isSome = (s.find? name).isSome := by
  obtain ⟨hs, ht⟩ | ⟨_, _, hs, ht, -⟩ := h.found hname
  · rw [hs, ht]
  · rw [hs, ht]
    rfl

/-- What the innermost scopes have goes before what the scopes around them have. -/
theorem Matches.findSome?_cons (h : s.Matches f p x t) (hname : p name) {ss ts : List Scope}
    (hrest : Option.Rel x (ss.findSome? (·.find? name)) (ts.findSome? (·.find? (f name)))) :
    Option.Rel x ((s :: ss).findSome? (·.find? name)) ((t :: ts).findSome? (·.find? (f name))) := by
  obtain ⟨hs, ht⟩ | ⟨_, _, hs, ht, hyz⟩ := h.found hname
  · rw [List.findSome?_cons, List.findSome?_cons, hs, ht]
    exact hrest
  · rw [List.findSome?_cons, List.findSome?_cons, hs, ht]
    exact .some hyz

end Scope

/-! ### Environments -/

namespace Environment

/-- The environments have as many scopes, and these match one by one. -/
def Matches (f : String → String) (p : String → Prop) (x : Variable → Variable → Prop)
    (env env' : Environment) : Prop :=
  List.Forall₂ (Scope.Matches f p x) env.scopes env'.scopes

variable {f : String → String} {p : String → Prop} {x : Variable → Variable → Prop}

theorem rel_findSome? {ss ts : List Scope} (h : List.Forall₂ (Scope.Matches f p x) ss ts)
    {name : String} (hname : p name) :
    Option.Rel x (ss.findSome? (·.find? name)) (ts.findSome? (·.find? (f name))) := by
  induction h with
  | nil => exact .none
  | cons hfirst _ ih => exact hfirst.findSome?_cons hname ih

theorem forall₂_matches_replaceIn (hf : Set.InjOn f {name | p name}) {ss ts : List Scope}
    (h : List.Forall₂ (Scope.Matches f p x) ss ts) {name : String} (hname : p name)
    {y z : Variable} (hyz : x y z) :
    List.Forall₂ (Scope.Matches f p x) (replaceIn name y ss) (replaceIn (f name) z ts) := by
  induction h with
  | nil => exact .nil
  | cons hfirst hrest ih =>
    rw [replaceIn, replaceIn, hfirst.isSome_eq hname]
    split
    · exact .cons (hfirst.replace hf hname hyz) hrest
    · exact .cons hfirst ih

theorem correspondence_matches (hf : Set.InjOn f {name | p name}) :
    Correspondence f p x fun _ => Matches f p x where
  find? h hname := rel_findSome? h hname
  innermost h hname := (List.forall₂_cons.mp h).1 _ hname
  replace h hname hyz := by
    rw [Matches, scopes_replace, scopes_replace]
    exact forall₂_matches_replaceIn hf h hname hyz
  add h hname hyz := by
    obtain ⟨hinnermost, houter⟩ := List.forall₂_cons.mp h
    exact .cons (hinnermost.cons hf hname hyz) houter
  push h := .cons .nil h
  pop {_ env env'} h := by
    obtain ⟨innermost, outer⟩ := env
    obtain ⟨innermost', outer'⟩ := env'
    cases (List.forall₂_cons.mp h).2 with
    | nil => exact h
    | cons hscope hrest => exact .cons hscope hrest

end Environment

/-! ### The same values -/

theorem likeness_eq : Likeness Eq Eq where
  refl _ := rfl
  type_eq := by
    rintro a _ rfl
    rfl
  unary := by
    rintro op a _ a' b' rfl ha hb
    exact Except.ok.inj (ha.symm.trans hb)
  binary := by
    rintro op a₁ _ a₂ _ a b rfl rfl ha hb
    exact Option.some.inj (ha.symm.trans hb)
  signature_eq := by
    rintro y _ rfl
    rfl
  value := by
    rintro y _ rfl
    exact rel_eq_iff.mpr rfl
  declared _ _ := rfl
  stored := by
    rintro y _ a _ rfl rfl -
    rfl

/-- Where the same is printed on the same output, there is room for it in both or in neither. -/
theorem printed_eq (f : String → String) : Printed f Eq Eq := by
  rintro a _ rfl out _ rfl
  rw [Output.write]
  split
  · exact .inl ⟨(), (), _, _, rfl, rfl, rfl, rfl⟩
  · split
    · exact .inl ⟨(), (), _, _, rfl, rfl, rfl, rfl⟩
    · exact .inr ⟨.outputFull, _, _, rfl, rfl, rfl⟩

end EggLang
