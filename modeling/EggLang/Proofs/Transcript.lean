import EggLang.Proofs.Run

/-! The values that statements print, in the order in which they print them. Where there is room for
everything, what a run writes is the lines of these values. -/

namespace EggLang

/-! ### Lines -/

namespace Output

/-- The values as they are printed, each on a line of its own. -/
def lines : List Value → ByteArray
  | [] => .empty
  | v :: vs => (v.text ++ "\n").toUTF8 ++ lines vs

/-- The output with the lines of some values behind it. -/
def withLines (out : Output) (vs : List Value) : Output :=
  { out with bytes := out.bytes ++ lines vs }

theorem lines_append (vs ws : List Value) : lines (vs ++ ws) = lines vs ++ lines ws := by
  induction vs with
  | nil => rw [List.nil_append, lines, ByteArray.empty_append]
  | cons v vs ih => rw [List.cons_append, lines, lines, ih, ByteArray.append_assoc]

@[simp] theorem capacity_withLines (out : Output) (vs : List Value) :
    (out.withLines vs).capacity = out.capacity := rfl

@[simp] theorem withLines_nil (out : Output) : out.withLines [] = out := by
  rw [withLines, lines, ByteArray.append_empty]

theorem withLines_append (out : Output) (vs ws : List Value) :
    out.withLines (vs ++ ws) = (out.withLines vs).withLines ws := by
  rw [withLines, withLines, withLines, lines_append, ByteArray.append_assoc]

end Output

/-! ### What is printed -/

namespace Execution

variable {α β : Type}

/-- What `next` prints behind `x`, where `x` succeeds. -/
def printedAfter (x : Execution α) (next : α → Machine → List Value) (m : Machine) : List Value :=
  match x m with
  | .ok a m' => next a m'
  | .error _ _ => []

/-- What is printed in a scope of its own. -/
def printedInside (inside : Machine → List Value) (m : Machine) : List Value :=
  inside { m with environment := m.environment.push }

/-- What is printed on one of two ways. -/
def printedOn (condition : Value) (yes no : Machine → List Value) : Machine → List Value :=
  match condition with
  | .boolean true => yes
  | .boolean false => no
  | _ => fun _ => []

theorem printedAfter_of_ok {x : Execution α} {next : α → Machine → List Value} {m m' : Machine}
    {a : α} (h : x m = .ok a m') : printedAfter x next m = next a m' := by
  rw [printedAfter, h]

theorem printedAfter_of_error {x : Execution α} {next : α → Machine → List Value} {m m' : Machine}
    {e : RuntimeError} (h : x m = .error e m') : printedAfter x next m = [] := by
  rw [printedAfter, h]

/-- Where there is room for everything, `x` writes the lines of `printed`, however it ends. -/
def Prints (x : Execution α) (printed : Machine → List Value) : Prop :=
  ∀ m, m.output.capacity = none → (after x m).output = m.output.withLines (printed m)

theorem prints_of_still {x : Execution α} (h : ∀ m, (after x m).output = m.output) :
    Prints x fun _ => [] := by
  intro m _
  rw [h, Output.withLines_nil]

theorem prints_evaluating (x : Evaluation α) : Prints (evaluating x) fun _ => [] :=
  prints_of_still (output_evaluating x)

theorem prints_printLine (v : Value) : Prints (printLine v.text) fun _ => [v] := by
  rintro ⟨env, bytes, _⟩ rfl
  rw [Output.withLines, Output.lines, Output.lines, ByteArray.append_empty]
  rfl

theorem Prints.bind {x : Execution α} {f : α → Execution β} {printed : Machine → List Value}
    {next : α → Machine → List Value} (hx : Prints x printed) (hf : ∀ a, Prints (f a) (next a)) :
    Prints (x >>= f) fun m => printed m ++ printedAfter x next m := by
  intro m hm
  have hfirst := hx m hm
  cases h : x m with
  | ok a m' =>
    rw [after_of_ok h] at hfirst
    have hm' : m'.output.capacity = none := by rw [hfirst, Output.capacity_withLines, hm]
    show (after (x >>= f) m).output = m.output.withLines (printed m ++ printedAfter x next m)
    rw [after_bind_of_ok h, hf a m' hm', hfirst, printedAfter_of_ok h, Output.withLines_append]
  | error e m' =>
    rw [after_of_error h] at hfirst
    show (after (x >>= f) m).output = m.output.withLines (printed m ++ printedAfter x next m)
    rw [after_of_error (bind_of_error h), hfirst, printedAfter_of_error h, List.append_nil]

theorem Prints.bind_pure {x : Execution α} {b : β} {printed : Machine → List Value}
    (hx : Prints x printed) : Prints (x >>= fun _ => pure b) printed := by
  intro m hm
  have hfirst := hx m hm
  cases h : x m with
  | ok a m' =>
    rw [after_of_ok h] at hfirst
    rwa [after_bind_of_ok h]
  | error e m' =>
    rw [after_of_error h] at hfirst
    rwa [after_of_error (bind_of_error h)]

theorem Prints.inScope {x : Execution Unit} {printed : Machine → List Value}
    (h : Prints x printed) : Prints (inScope x) (printedInside printed) := by
  intro m hm
  have hinside := h { m with environment := m.environment.push } hm
  rw [after] at hinside
  rw [printedInside, ← hinside, after, Execution.inScope]
  cases x { m with environment := m.environment.push } <;> rfl

theorem prints_choose {v : Value} {yes no : Execution Unit}
    {yesPrinted noPrinted : Machine → List Value} (hyes : Prints yes yesPrinted)
    (hno : Prints no noPrinted) : Prints (choose v yes no) (printedOn v yesPrinted noPrinted) := by
  cases v with
  | boolean b =>
    cases b with
    | true => exact hyes
    | false => exact hno
  | number n => exact prints_of_still fun _ => rfl
  | string s => exact prints_of_still fun _ => rfl

end Execution

/-! ### Statements -/

open Execution

namespace Stmt

mutual

/-- The values that a statement prints, run on a machine. -/
def transcript : Stmt → Machine → List Value
  | print value _ => printedAfter (evaluating value.evaluate) fun v _ => [v]
  | declare _ _ => fun _ => []
  | assign _ _ _ => fun _ => []
  | ifElse condition body none _ =>
    printedAfter (evaluating condition.evaluate) fun v =>
      printedOn v (printedInside (transcriptAll body)) fun _ => []
  | ifElse condition body (some otherwise) _ =>
    printedAfter (evaluating condition.evaluate) fun v =>
      printedOn v (printedInside (transcriptAll body)) (printedInside (transcriptAll otherwise))
  | block body _ => printedInside (transcriptAll body)

def transcriptAll : List Stmt → Machine → List Value
  | [] => fun _ => []
  | s :: rest => fun m => s.transcript m ++ printedAfter s.execute (fun _ => transcriptAll rest) m

end

mutual

theorem prints_transcript : (s : Stmt) → Prints s.execute s.transcript
  | print value _ => (prints_evaluating value.evaluate).bind prints_printLine
  | declare d _ => prints_evaluating d.evaluate
  | assign target value span =>
    (prints_evaluating (Expr.assign target value span).evaluate).bind_pure
  | ifElse condition body none _ =>
    (prints_evaluating condition.evaluate).bind fun v =>
      prints_choose (v := v) (prints_transcriptAll body).inScope (prints_of_still fun _ => rfl)
  | ifElse condition body (some otherwise) _ =>
    (prints_evaluating condition.evaluate).bind fun v =>
      prints_choose (v := v) (prints_transcriptAll body).inScope
        (prints_transcriptAll otherwise).inScope
  | block body _ => (prints_transcriptAll body).inScope

/-- Statements write the lines of their transcript, and nothing else. -/
theorem prints_transcriptAll : (body : List Stmt) → Prints (executeAll body) (transcriptAll body)
  | [] => prints_of_still fun _ => rfl
  | s :: rest => (prints_transcript s).bind fun _ => prints_transcriptAll rest

end

end Stmt

end EggLang
