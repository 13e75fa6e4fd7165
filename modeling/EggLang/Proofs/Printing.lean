import EggLang.Program
import EggLang.Proofs.Run

/-! What runs print. With room for any number of bytes, what a run does has nothing to do with what
was printed before it. With room for some number, it does the same up to the line that does not fit,
of which it prints what fits, and that line ends it wherever it is printed. -/

namespace EggLang

/-! ### Writing -/

/-- The first `n` bytes do not depend on what stands behind them. -/
theorem extract_append_of_le {as bs : ByteArray} {n : Nat} (h : n ≤ as.size) :
    (as ++ bs).extract 0 n = as.extract 0 n := by
  have hbehind : bs.extract (0 - as.size) (n - as.size) = .empty := by
    rw [Nat.sub_eq_zero_of_le h, Nat.zero_sub, ByteArray.extract_same]
  rw [ByteArray.extract_append, hbehind, ByteArray.append_empty]

namespace Output

theorem write_of_le {text : String} {bytes : ByteArray} {n : Nat}
    (h : (bytes ++ text.toUTF8).size ≤ n) :
    write text ⟨bytes, some n⟩ = .ok () ⟨bytes ++ text.toUTF8, some n⟩ := by
  rw [write]
  exact if_pos h

theorem write_of_lt {text : String} {bytes : ByteArray} {n : Nat}
    (h : n < (bytes ++ text.toUTF8).size) :
    write text ⟨bytes, some n⟩ =
      .error .outputFull ⟨(bytes ++ text.toUTF8).extract 0 n, some n⟩ := by
  rw [write]
  exact if_neg (Nat.not_le_of_lt h)

/-- It makes no difference in which pieces a text is written. -/
theorem write_append (a b : String) (out : Output) :
    write (a ++ b) out = (do write a; write b : EStateM RuntimeError Output Unit) out := by
  obtain ⟨bytes, capacity⟩ := out
  have hbytes : bytes ++ (a ++ b).toUTF8 = bytes ++ a.toUTF8 ++ b.toUTF8 := by
    show bytes ++ (a ++ b).toByteArray = bytes ++ a.toByteArray ++ b.toByteArray
    rw [String.toByteArray_append, ← ByteArray.append_assoc]
  cases capacity with
  | none =>
    rw [write, hbytes]
    rfl
  | some n =>
    by_cases ha : (bytes ++ a.toUTF8).size ≤ n
    · rw [bind_of_ok (write_of_le ha), write, write, hbytes]
    · have hfull : n < (bytes ++ a.toUTF8).size := Nat.lt_of_not_le ha
      have hall : n < (bytes ++ (a ++ b).toUTF8).size := by
        rw [hbytes, ByteArray.size_append]
        omega
      rw [bind_of_error (write_of_lt hfull), write_of_lt hall, hbytes,
        extract_append_of_le (Nat.le_of_lt hfull)]

end Output

/-! ### Runs -/

namespace Execution

variable {α β : Type}

/-- Run in the environment `env`, `x` prints `printed` behind whatever was printed before, and ends
with `result` in the environment `env'`. -/
def Runs (x : Execution α) (env : Environment) (result : Except RuntimeError α) (env' : Environment)
    (printed : ByteArray) : Prop :=
  ∀ before, x ⟨env, ⟨before, none⟩⟩ =
    match result with
    | .ok a => .ok a ⟨env', ⟨before ++ printed, none⟩⟩
    | .error e => .error e ⟨env', ⟨before ++ printed, none⟩⟩

theorem Runs.pure (a : α) (env : Environment) :
    Runs (pure a : Execution α) env (.ok a) env .empty := fun before => by
  rw [ByteArray.append_empty]
  rfl

theorem Runs.bind {x : Execution α} {f : α → Execution β} {env env' env'' : Environment} {a : α}
    {result : Except RuntimeError β} {printed more : ByteArray}
    (hx : Runs x env (.ok a) env' printed) (hf : Runs (f a) env' result env'' more) :
    Runs (x >>= f) env result env'' (printed ++ more) := fun before => by
  rw [bind_of_ok (hx before), hf, ByteArray.append_assoc]

theorem Runs.bind_error {x : Execution α} {f : α → Execution β} {env env' : Environment}
    {e : RuntimeError} {printed : ByteArray} (hx : Runs x env (.error e) env' printed) :
    Runs (x >>= f) env (.error e) env' printed := fun before => bind_of_error (hx before)

/-- However `x` runs, it runs the same whatever was printed before. -/
def Appends (x : Execution α) : Prop :=
  ∀ env, ∃ result env' printed, Runs x env result env' printed

/-- With room for `n` bytes, of which `before` are printed, `x` runs in the environment `env` as it
does with room for everything, where it prints `printed` and ends with `result` in the environment
`env'`. Where that is too much, it fails, and as much is printed as fits. -/
structure RunsWithin (x : Execution α) (env : Environment) (result : Except RuntimeError α)
    (env' : Environment) (printed before : ByteArray) (n : Nat) : Prop where
  fits : (before ++ printed).size ≤ n → x ⟨env, ⟨before, some n⟩⟩ =
    match result with
    | .ok a => .ok a ⟨env', ⟨before ++ printed, some n⟩⟩
    | .error e => .error e ⟨env', ⟨before ++ printed, some n⟩⟩
  full : n < (before ++ printed).size → ∃ left, x ⟨env, ⟨before, some n⟩⟩ =
    .error .outputFull ⟨left, ⟨(before ++ printed).extract 0 n, some n⟩⟩

/-- Room makes no other difference to `x` than that it may run out. -/
def Confined (x : Execution α) : Prop :=
  ∀ env, ∃ result env' printed, Runs x env result env' printed ∧
    ∀ before n, before.size ≤ n → RunsWithin x env result env' printed before n

theorem Confined.appends {x : Execution α} (hx : Confined x) : Appends x := by
  intro env
  obtain ⟨result, env', printed, hrun, -⟩ := hx env
  exact ⟨result, env', printed, hrun⟩

section

variable {x : Execution α} {f : α → Execution β} {env env' env'' : Environment}
  {printed more before : ByteArray} {n : Nat}

theorem RunsWithin.bind {a : α} {result : Except RuntimeError β}
    (hx : RunsWithin x env (.ok a) env' printed before n)
    (hf : (before ++ printed).size ≤ n →
      RunsWithin (f a) env' result env'' more (before ++ printed) n) :
    RunsWithin (x >>= f) env result env'' (printed ++ more) before n where
  fits h := by
    rw [← ByteArray.append_assoc] at h ⊢
    have hfirst : (before ++ printed).size ≤ n := by
      rw [ByteArray.size_append] at h
      omega
    rw [bind_of_ok (hx.fits hfirst), (hf hfirst).fits h]
  full h := by
    rw [← ByteArray.append_assoc] at h ⊢
    by_cases hfirst : (before ++ printed).size ≤ n
    · obtain ⟨left, hleft⟩ := (hf hfirst).full h
      exact ⟨left, by rw [bind_of_ok (hx.fits hfirst), hleft]⟩
    · have hfull : n < (before ++ printed).size := Nat.lt_of_not_le hfirst
      obtain ⟨left, hleft⟩ := hx.full hfull
      refine ⟨left, ?_⟩
      rw [bind_of_error hleft, extract_append_of_le (Nat.le_of_lt hfull)]

theorem RunsWithin.bind_error {e : RuntimeError}
    (hx : RunsWithin x env (.error e) env' printed before n) :
    RunsWithin (x >>= f) env (.error e) env' printed before n where
  fits h := bind_of_error (hx.fits h)
  full h := by
    obtain ⟨left, hleft⟩ := hx.full h
    exact ⟨left, bind_of_error hleft⟩

/-- What prints nothing does not run out of room. -/
theorem RunsWithin.of_silent {result : Except RuntimeError α} (hbefore : before.size ≤ n)
    (h : x ⟨env, ⟨before, some n⟩⟩ =
      match result with
      | .ok a => .ok a ⟨env', ⟨before, some n⟩⟩
      | .error e => .error e ⟨env', ⟨before, some n⟩⟩) :
    RunsWithin x env result env' .empty before n where
  fits _ := by rwa [ByteArray.append_empty]
  full hfull := by
    rw [ByteArray.append_empty] at hfull
    omega

end

theorem Confined.bind {x : Execution α} {f : α → Execution β} (hx : Confined x)
    (hf : ∀ a, Confined (f a)) : Confined (x >>= f) := by
  intro env
  obtain ⟨result, env', printed, hrun, hwithin⟩ := hx env
  cases result with
  | error e => exact ⟨_, _, _, hrun.bind_error, fun before n h => (hwithin before n h).bind_error⟩
  | ok a =>
    obtain ⟨result, env'', more, hmore, hmoreWithin⟩ := hf a env'
    exact ⟨_, _, _, hrun.bind hmore, fun before n h =>
      (hwithin before n h).bind fun hfirst => hmoreWithin _ n hfirst⟩

theorem confined_pure (a : α) : Confined (pure a : Execution α) := fun env =>
  ⟨.ok a, env, .empty, .pure a env, fun _ _ h => .of_silent h rfl⟩

theorem confined_throw (e : RuntimeError) : Confined (throw e : Execution α) := by
  refine fun env => ⟨.error e, env, .empty, fun before => ?_, fun _ _ h => .of_silent h rfl⟩
  rw [ByteArray.append_empty]
  rfl

theorem confined_evaluating (x : Evaluation α) : Confined (evaluating x) := by
  intro env
  cases h : x env with
  | ok a env' =>
    refine ⟨.ok a, env', .empty, fun before => ?_, fun before n hn => .of_silent hn ?_⟩
    · rw [ByteArray.append_empty, evaluating_of_ok h]
    · rw [evaluating_of_ok h]
  | error e env' =>
    refine ⟨.error e, env', .empty, fun before => ?_, fun before n hn => .of_silent hn ?_⟩
    · rw [ByteArray.append_empty, evaluating_of_error h]
    · rw [evaluating_of_error h]

theorem confined_printLine (text : String) : Confined (printLine text) := by
  refine fun env => ⟨.ok (), env, (text ++ "\n").toUTF8, fun _ => rfl, fun before n _ => ⟨?_, ?_⟩⟩
  · intro h
    rw [printLine, Output.write_of_le h]
  · intro h
    refine ⟨env, ?_⟩
    rw [printLine, Output.write_of_lt h]

theorem Confined.inScope {x : Execution Unit} (hx : Confined x) : Confined (inScope x) := by
  intro env
  obtain ⟨result, env', printed, hrun, hwithin⟩ := hx env.push
  refine ⟨result, env'.pop, printed, fun before => ?_,
    fun before n hn => ⟨fun h => ?_, fun h => ?_⟩⟩
  · rw [Execution.inScope, hrun]
    cases result <;> rfl
  · rw [Execution.inScope, (hwithin before n hn).fits h]
    cases result <;> rfl
  · obtain ⟨left, hleft⟩ := (hwithin before n hn).full h
    exact ⟨left.pop, by rw [Execution.inScope, hleft]⟩

theorem Confined.choose {yes no : Execution Unit} (hyes : Confined yes) (hno : Confined no)
    (condition : Value) : Confined (choose condition yes no) := by
  fun_cases Execution.choose condition yes no with
  | case1 => exact hyes
  | case2 => exact hno
  | case3 => exact confined_throw _

end Execution

open Execution

namespace Stmt

mutual

theorem execute_confined : (s : Stmt) → Confined s.execute
  | print value _ => by
    rw [execute]
    exact (confined_evaluating _).bind fun v => confined_printLine v.text
  | declare d _ => by
    rw [execute]
    exact confined_evaluating _
  | assign target value _ => by
    rw [execute]
    exact (confined_evaluating _).bind fun _ => confined_pure _
  | ifElse condition body none _ => by
    rw [execute]
    exact (confined_evaluating _).bind
      (.choose (executeAll_confined body).inScope (confined_pure _))
  | ifElse condition body (some otherwise) _ => by
    rw [execute]
    exact (confined_evaluating _).bind
      (.choose (executeAll_confined body).inScope (executeAll_confined otherwise).inScope)
  | block body _ => by
    rw [execute]
    exact (executeAll_confined body).inScope

theorem executeAll_confined : (body : List Stmt) → Confined (executeAll body)
  | [] => by
    rw [executeAll]
    exact confined_pure _
  | s :: rest => by
    rw [executeAll]
    exact (execute_confined s).bind fun _ => executeAll_confined rest

end

theorem executeAll_appends (body : List Stmt) : Appends (executeAll body) :=
  (executeAll_confined body).appends

end Stmt

/-- With room for `n` bytes a program does what it does with room for everything, where that many
bytes are enough. Else it prints the first `n` of them and fails for want of room, however it would
end. The lines may be written in any pieces. -/
theorem runProgram_within (text : String) (n : Nat) :
    (runProgram text (some n) =
      let (result, out) := runProgram text none
      if out.bytes.size ≤ n then (result, ⟨out.bytes, some n⟩)
      else (.error (.runtime .outputFull), ⟨out.bytes.extract 0 n, some n⟩)) ∧
    ∀ a b out, Output.write (a ++ b) out =
      (do Output.write a; Output.write b : EStateM RuntimeError Output Unit) out := by
  refine ⟨?_, Output.write_append⟩
  rw [runProgram, runProgram]
  cases parseProgram text with
  | error e => rfl
  | ok body =>
    obtain ⟨result, env, printed, hrun, hwithin⟩ := Stmt.executeAll_confined body .empty
    have hrun := hrun .empty
    have hwithin := hwithin .empty n (Nat.zero_le n)
    show ((outcome (Stmt.executeAll body ⟨.empty, ⟨.empty, some n⟩⟩)).1,
      (outcome (Stmt.executeAll body ⟨.empty, ⟨.empty, some n⟩⟩)).2.output) = _
    dsimp only
    rw [show Machine.initial none = ⟨.empty, ⟨.empty, none⟩⟩ from rfl, hrun]
    by_cases hn : (ByteArray.empty ++ printed).size ≤ n
    · rw [hwithin.fits hn]
      cases result <;> exact (if_pos hn).symm
    · obtain ⟨left, hleft⟩ := hwithin.full (Nat.lt_of_not_le hn)
      rw [hleft]
      cases result <;> exact (if_neg hn).symm

end EggLang
