import EggLang.Proofs.Matching
import EggLang.Proofs.Transcript

/-! Code without conditionals fails or succeeds whatever the values are. Whether it fails, and how,
depends on the names in scope, on what was declared of them and on which of them have a value. -/

namespace EggLang

/-- One was declared like the other, both have a value of their type or neither has one. -/
structure Variable.Resembles (x y : Variable) : Prop where
  signature_eq : y.signature = x.signature
  isSome_eq : y.value.isSome = x.value.isSome
  typed : x.Typed
  typed' : y.Typed

/-- The environments have as many scopes, and these have the same names one by one, for variables
that resemble each other. -/
def Environment.Resembles (env env' : Environment) : Prop :=
  env.Matches (fun name => name) (fun _ => True) Variable.Resembles env'

/-! ### Values of one type -/

abbrev Value.SameType (v w : Value) : Prop := w.type = v.type

theorem likeness_sameType : Likeness Value.SameType Variable.Resembles where
  refl _ := rfl
  type_eq h := h
  unary := by
    intro op a b a' b' hab ha hb
    have htype := UnaryOp.resultType?_of_apply hb
    rw [hab, UnaryOp.resultType?_of_apply ha] at htype
    exact (Option.some.inj htype).symm
  binary := by
    intro op a₁ b₁ a₂ b₂ a b h₁ h₂ ha hb
    have htype := op.type_on? b₁ b₂
    rw [h₁, h₂, ← op.type_on?, ha, hb] at htype
    exact Option.some.inj htype
  signature_eq h := h.signature_eq
  value := by
    rintro ⟨type, isConstant, a⟩ ⟨type', isConstant', b⟩ ⟨hsignature, hsome, htyped, htyped'⟩
    cases hsignature
    cases a with
    | none =>
      cases b with
      | none => exact .none
      | some b => exact nomatch hsome
    | some a =>
      cases b with
      | none => exact nomatch hsome
      | some b => exact .some ((htyped' b rfl).trans (htyped a rfl).symm)
  declared _ _ := ⟨rfl, rfl, nofun, nofun⟩
  stored := by
    intro y z a b h hab ha
    have htype : z.type = y.type := congrArg Signature.type h.signature_eq
    refine ⟨h.signature_eq, rfl, ?_, ?_⟩
    · rintro _ ⟨⟩
      exact ha
    · rintro _ ⟨⟩
      exact hab.trans (ha.trans htype.symm)

/-- There is room for everything on both outputs. -/
abbrev Output.Unlimited (out out' : Output) : Prop := out.capacity = none ∧ out'.capacity = none

theorem printed_unlimited : Printed (fun name => name) Value.SameType Output.Unlimited := by
  rintro a b - ⟨bytes, _⟩ ⟨bytes', _⟩ ⟨rfl, rfl⟩
  exact .inl ⟨(), (), _, _, rfl, rfl, rfl, rfl, rfl⟩

/-! ### Expressions and statements -/

/-- Machines with room for everything, in environments that resemble each other. -/
abbrev Machine.Resembles : Machine → Machine → Prop :=
  Machine.Related Environment.Resembles Output.Unlimited

theorem correspondence_resembles :
    Correspondence (fun name => name) (fun _ => True) Variable.Resembles
      fun _ => Environment.Resembles :=
  Environment.correspondence_matches fun _ _ _ _ h => h

theorem Expr.lockstep_resembles (e : Expr) :
    Lockstep (fun name => name) Value.SameType Environment.Resembles e.evaluate e.evaluate := by
  have h := e.lockstep likeness_sameType (correspondence_resembles.access 0) fun _ _ => trivial
  rwa [Expr.rename_id] at h

namespace Stmt

open Execution

theorem lockstep_resembles {s : Stmt} (hs : s.Straight) :
    Lockstep (fun name => name) Eq Machine.Resembles s.execute s.execute := by
  have h := s.lockstep likeness_sameType correspondence_resembles printed_unlimited
    (fun _ _ => trivial) (.inl hs) 0
  rwa [rename_id] at h

theorem lockstepAll_resembles {body : List Stmt} (h : ∀ s ∈ body, s.Straight) :
    Lockstep (fun name => name) Eq Machine.Resembles (executeAll body) (executeAll body) := by
  have h := lockstepAll likeness_sameType correspondence_resembles printed_unlimited body
    (fun _ _ => trivial) (.inl h) 0
  rwa [renameAll_id] at h

/-- What is printed behind two runs that go the same way. -/
theorem length_printedAfter {α : Type} {v : α → α → Prop} {x y : Execution α}
    {next : α → Machine → List Value}
    (h : Lockstep (fun name => name) v Machine.Resembles x y)
    (hnext : ∀ a b m m', v a b → m.Resembles m' → (next b m').length = (next a m).length)
    {m m' : Machine} (hm : m.Resembles m') :
    (printedAfter y next m').length = (printedAfter x next m).length := by
  obtain ⟨a, b, m₁, m₁', hx, hy, hab, hm₁⟩ | ⟨e, m₁, m₁', hx, hy, -⟩ := h m m' hm
  · rw [printedAfter_of_ok hx, printedAfter_of_ok hy, hnext a b m₁ m₁' hab hm₁]
  · rw [printedAfter_of_error hx, printedAfter_of_error hy]

mutual

theorem length_transcript {s : Stmt} (hs : s.Straight) {m m' : Machine} (hm : m.Resembles m') :
    (s.transcript m').length = (s.transcript m).length :=
  match s, hs with
  | print value _, .print =>
    length_printedAfter (lockstep_evaluating value.lockstep_resembles) (fun _ _ _ _ _ _ => rfl) hm
  | declare _ _, .declare => rfl
  | assign _ _ _, .assign => rfl
  | block _ _, .block hbody =>
    length_transcriptAll hbody ⟨correspondence_resembles.push (k := 0) hm.environment, hm.output⟩

theorem length_transcriptAll {body : List Stmt} (h : ∀ s ∈ body, s.Straight) {m m' : Machine}
    (hm : m.Resembles m') : (transcriptAll body m').length = (transcriptAll body m).length :=
  match body with
  | [] => rfl
  | s :: rest => by
    obtain ⟨hs, hrest⟩ := List.forall_mem_cons.mp h
    have hbehind : (printedAfter s.execute (fun _ => transcriptAll rest) m').length =
        (printedAfter s.execute (fun _ => transcriptAll rest) m).length :=
      length_printedAfter (lockstep_resembles hs)
        (fun _ _ _ _ _ hm => length_transcriptAll hrest hm) hm
    rw [transcriptAll, List.length_append, List.length_append, length_transcript hs hm, hbehind]

end

end Stmt

/-- Where two machines resemble each other, an expression and statements without conditionals end on
both in the same way: with values of one type, or with one error. The machines that they leave
resemble each other again, and as many values have been printed on both. -/
theorem resembling_runs {m m' : Machine} (h : m.Resembles m') :
    (∀ e : Expr,
      (∃ v v' env env', e.evaluate m.environment = .ok v env ∧
        e.evaluate m'.environment = .ok v' env' ∧ v'.type = v.type ∧ env.Resembles env') ∨
      ∃ error env env', e.evaluate m.environment = .error error env ∧
        e.evaluate m'.environment = .error error env' ∧ env.Resembles env') ∧
    ∀ body : List Stmt, (∀ s ∈ body, s.Straight) →
      ∃ last last', ((Stmt.executeAll body m = .ok () last ∧
          Stmt.executeAll body m' = .ok () last') ∨
        ∃ error, Stmt.executeAll body m = .error error last ∧
          Stmt.executeAll body m' = .error error last') ∧
      last.Resembles last' ∧
      last.output = m.output.withLines (Stmt.transcriptAll body m) ∧
      last'.output = m'.output.withLines (Stmt.transcriptAll body m') ∧
      (Stmt.transcriptAll body m').length = (Stmt.transcriptAll body m).length := by
  refine ⟨fun e => e.lockstep_resembles.same h.environment, fun body hbody => ?_⟩
  have houtput := Stmt.prints_transcriptAll body m h.output.1
  have houtput' := Stmt.prints_transcriptAll body m' h.output.2
  have hlength := Stmt.length_transcriptAll hbody h
  obtain ⟨_, _, last, last', hrun, hrun', -, hlast⟩ | ⟨error, last, last', hrun, hrun', hlast⟩ :=
    (Stmt.lockstepAll_resembles hbody).same h
  · rw [after_of_ok hrun] at houtput
    rw [after_of_ok hrun'] at houtput'
    exact ⟨last, last', .inl ⟨hrun, hrun'⟩, hlast, houtput, houtput', hlength⟩
  · rw [after_of_error hrun] at houtput
    rw [after_of_error hrun'] at houtput'
    exact ⟨last, last', .inr ⟨error, hrun, hrun'⟩, hlast, houtput, houtput', hlength⟩

/-- A machine with a value for `x`. -/
def holding (b : Bool) : Machine :=
  ⟨⟨[("x", ⟨.boolean, false, some (.boolean b)⟩)], []⟩, .empty none⟩

/-- `{ bool y; print(x); print(x | y); }`, where `y` is read without a value. -/
def reading : List Stmt :=
  [.block
    [.declare ⟨⟨"y", .nowhere⟩, .boolean, false, none⟩ .nowhere,
     .print (.var ⟨"x", .nowhere⟩) .nowhere,
     .print (.binary .or (.var ⟨"x", .nowhere⟩) (.var ⟨"y", .nowhere⟩) .nowhere) .nowhere]
    .nowhere]

theorem resembling_runs_reading :
    (holding true).Resembles (holding false) ∧ (∀ s ∈ reading, s.Straight) ∧
    ∃ last last', ((Stmt.executeAll reading (holding true) = .ok () last ∧
        Stmt.executeAll reading (holding false) = .ok () last') ∨
      ∃ error, Stmt.executeAll reading (holding true) = .error error last ∧
        Stmt.executeAll reading (holding false) = .error error last') ∧
    last.Resembles last' ∧
    last.output = (holding true).output.withLines (Stmt.transcriptAll reading (holding true)) ∧
    last'.output = (holding false).output.withLines (Stmt.transcriptAll reading (holding false)) ∧
    (Stmt.transcriptAll reading (holding false)).length =
      (Stmt.transcriptAll reading (holding true)).length := by
  have hvariables : Variable.Resembles ⟨.boolean, false, some (.boolean true)⟩
      ⟨.boolean, false, some (.boolean false)⟩ := by
    refine ⟨rfl, rfl, ?_, ?_⟩ <;> rintro _ ⟨⟩ <;> rfl
  have hmachines : (holding true).Resembles (holding false) :=
    ⟨.cons (.cons (fun _ _ _ _ h => h) .nil trivial hvariables) .nil, rfl, rfl⟩
  have hstraight : ∀ s ∈ reading, s.Straight := by
    refine List.forall_mem_singleton.mpr (.block ?_)
    simp only [List.forall_mem_cons]
    exact ⟨.declare, .print, .print, List.forall_mem_nil _⟩
  exact ⟨hmachines, hstraight, (resembling_runs hmachines).2 reading hstraight⟩

end EggLang
