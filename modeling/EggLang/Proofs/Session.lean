import EggLang.Proofs.Lines
import EggLang.Proofs.Printing

/-! Sessions and programs. What a session writes for a line has nothing to do with what it wrote
before, and a session over lines of statements does what the program that the lines are together
does, up to the first line that fails. -/

namespace EggLang

open Execution

/-- What a session writes for a line of input. -/
structure Answer where
  printed : ByteArray
  reported : String

namespace Answer

/-- The answer to a line that prints `printed` and ends in one of two ways. -/
def ofRun (printed : ByteArray) : Except RuntimeError Unit → Answer
  | .ok () => ⟨printed, ""⟩
  | .error e => ⟨printed, errorLine e.message⟩

/-- The end of the input is not answered. -/
def nothing : Answer := ⟨.empty, ""⟩

/-- What answers print, one after the other. -/
def output (answers : List Answer) : ByteArray :=
  answers.foldr (fun a rest => a.printed ++ rest) .empty

/-- What answers print, each behind its prompt. -/
def transcript (answers : List Answer) : ByteArray :=
  answers.foldr (fun a rest => Session.prompt.toUTF8 ++ a.printed ++ rest) .empty

/-- What answers report, one after the other. -/
def messages (answers : List Answer) : String := String.join (answers.map reported)

theorem output_cons (a : Answer) (rest : List Answer) :
    output (a :: rest) = a.printed ++ output rest := rfl

theorem transcript_cons (a : Answer) (rest : List Answer) :
    transcript (a :: rest) = Session.prompt.toUTF8 ++ a.printed ++ transcript rest := rfl

theorem messages_cons (a : Answer) (rest : List Answer) :
    messages (a :: rest) = a.reported ++ messages rest := String.join_cons

theorem transcript_append (answers more : List Answer) :
    transcript (answers ++ more) = transcript answers ++ transcript more := by
  induction answers with
  | nil => exact ByteArray.empty_append.symm
  | cons a rest ih =>
    simp only [List.cons_append, transcript_cons, ih, ByteArray.append_assoc]

/-- An input that ends without an answer leaves a last prompt. -/
theorem transcript_concat_nothing (answers : List Answer) :
    transcript (answers ++ [nothing]) = transcript answers ++ Session.prompt.toUTF8 := by
  rw [transcript_append, transcript_cons, nothing, ByteArray.append_empty]
  exact congrArg (transcript answers ++ ·) ByteArray.append_empty

theorem messages_append (answers more : List Answer) :
    messages (answers ++ more) = messages answers ++ messages more := by
  rw [messages, List.map_append, String.join_append]
  rfl

theorem messages_eq_empty {answers : List Answer} (h : ∀ a ∈ answers, a.reported = "") :
    messages answers = "" := by
  induction answers with
  | nil => rfl
  | cons a rest ih =>
    rw [List.forall_mem_cons] at h
    rw [messages_cons, h.1, ih h.2]
    rfl

end Answer

namespace Session

/-- A session that has written something. -/
def written (env : Environment) (printed : ByteArray) (reported : String) : Session :=
  ⟨⟨env, ⟨printed, none⟩⟩, reported⟩

/-- What a session writes for its lines of input, up to the one that ends it. Each line is answered
by a session that has not written anything yet, in the environment that the lines before it
leave. -/
def answers (d : Display) (env : Environment) : List ByteArray → List Answer
  | [] => [.nothing]
  | input :: rest =>
    let (s, goesOn) := (written env .empty "").respond d input
    ⟨s.machine.output.bytes, s.errors⟩ ::
      if goesOn then answers d s.machine.environment rest else []

/-! ### What is written for a line -/

/-- From the environment `env`, whatever was written before, `step` writes `a` and leads to
`env'`. -/
def Writes (step : Session → Session) (env env' : Environment) (a : Answer) : Prop :=
  ∀ printed reported, step (written env printed reported) =
    written env' (printed ++ a.printed) (reported ++ a.reported)

theorem writes_nothing (env : Environment) : Writes id env env .nothing := by
  intro printed reported
  rw [Answer.nothing, ByteArray.append_empty, String.append_empty, id]

theorem print_written (env : Environment) (printed : ByteArray) (reported text : String) :
    (written env printed reported).print text = written env (printed ++ text.toUTF8) reported := rfl

theorem writes_print (text : String) (env : Environment) :
    Writes (·.print text) env env ⟨text.toUTF8, ""⟩ := fun printed reported => by
  rw [String.append_empty]
  rfl

theorem writes_report (message : String) (env : Environment) :
    Writes (·.report message) env env ⟨.empty, errorLine message⟩ := fun printed reported => by
  rw [ByteArray.append_empty]
  rfl

theorem Writes.comp {step step' : Session → Session} {env env' env'' : Environment} {a b : Answer}
    (h : Writes step env env' a) (h' : Writes step' env' env'' b) :
    Writes (fun s => step' (step s)) env env'' ⟨a.printed ++ b.printed, a.reported ++ b.reported⟩ :=
  fun printed reported => by
    dsimp only
    rw [h, h', ByteArray.append_assoc, String.append_assoc]

theorem writes_runLine_of_runs {line : List Char} {action : Execution Unit} {env env' : Environment}
    {result : Except RuntimeError Unit} {printed : ByteArray} (h : lineAction line = .ok action)
    (hrun : Runs action env result env' printed) :
    Writes (·.runLine line) env env' (.ofRun printed result) := by
  intro before reported
  dsimp only
  rw [runLine, h]
  dsimp only [written]
  rw [hrun]
  cases result with
  | ok _ => rw [Answer.ofRun, String.append_empty]
  | error e => rfl

theorem lineAction_appends {line : List Char} {action : Execution Unit}
    (h : lineAction line = .ok action) : Appends action := by
  rw [lineAction] at h
  split at h
  · cases hparse : parseProgram (String.ofList line) with
    | error e =>
      rw [hparse] at h
      exact nomatch h
    | ok body =>
      rw [hparse] at h
      cases h
      exact Stmt.executeAll_appends body
  · cases hparse : parseExpression (String.ofList line) with
    | error e =>
      rw [hparse] at h
      exact nomatch h
    | ok e =>
      rw [hparse] at h
      cases h
      exact ((confined_evaluating _).bind fun v : Value => confined_printLine v.text).appends

theorem exists_writes_runLine (line : List Char) (env : Environment) :
    ∃ env' a, Writes (·.runLine line) env env' a := by
  cases h : lineAction line with
  | error e =>
    have hrun : (·.runLine line) = fun s : Session => s.report e.message := by
      funext s
      rw [runLine, h]
    exact ⟨env, _, hrun ▸ writes_report e.message env⟩
  | ok action =>
    obtain ⟨result, env', printed, hrun⟩ := lineAction_appends h env
    exact ⟨env', _, writes_runLine_of_runs h hrun⟩

theorem exists_writes_showLine (d : Display) (line : List Char) (env : Environment) :
    ∃ a, Writes (·.showLine d line) env env a := by
  rcases h : d.render (String.ofList line) with ⟨shown, result⟩
  cases result with
  | ok _ =>
    have hshow : (·.showLine d line) = fun s : Session => s.print shown := by
      funext s
      rw [showLine, h]
    exact ⟨_, hshow ▸ writes_print shown env⟩
  | error e =>
    have hshow : (·.showLine d line) = fun s : Session => (s.print shown).report e.message := by
      funext s
      rw [showLine, h]
    exact ⟨_, hshow ▸ (writes_print shown env).comp (writes_report e.message env)⟩

/-- In the environment `env` a line of input is answered by `a`, whatever was written before it. -/
def Responds (d : Display) (input : ByteArray) (env env' : Environment) (a : Answer)
    (goesOn : Bool) : Prop :=
  ∀ printed reported, (written env printed reported).respond d input =
    (written env' (printed ++ a.printed) (reported ++ a.reported), goesOn)

theorem Writes.responds {step : Session → Session} {env env' : Environment} {a : Answer}
    {d : Display} {input : ByteArray} {goesOn : Bool} (h : Writes step env env' a)
    (hstep : ∀ s, respond s d input = (step s, goesOn)) : Responds d input env env' a goesOn :=
  fun printed reported => by rw [hstep, h]

theorem exists_responds (d : Display) (input : ByteArray) (env : Environment) :
    ∃ env' a goesOn, Responds d input env env' a goesOn := by
  cases hdecode : Script.decode input with
  | error e =>
    exact ⟨_, _, false, (writes_report e.text env).responds fun s => by rw [respond, hdecode]⟩
  | ok text =>
    have hrespond : ∀ s, respond s d input =
        let line := Text.trim text.toList
        if line.isEmpty then (s, true)
        else if line = "exit".toList then (s, false)
        else if d.isOn then (s.showLine d line, true)
        else (s.runLine line, true) := fun s => by rw [respond, hdecode]
    dsimp only at hrespond
    split_ifs at hrespond with hempty hexit hon
    · exact ⟨_, _, true, (writes_nothing env).responds hrespond⟩
    · exact ⟨_, _, false, (writes_nothing env).responds hrespond⟩
    · obtain ⟨a, ha⟩ := exists_writes_showLine d (Text.trim text.toList) env
      exact ⟨_, _, true, ha.responds hrespond⟩
    · obtain ⟨env', a, ha⟩ := exists_writes_runLine (Text.trim text.toList) env
      exact ⟨_, _, true, ha.responds hrespond⟩

/-! ### What is written for an input -/

theorem answers_cons {d : Display} {env env' : Environment} {input : ByteArray} {a : Answer}
    {goesOn : Bool} (h : Responds d input env env' a goesOn) (rest : List ByteArray) :
    answers d env (input :: rest) = a :: if goesOn then answers d env' rest else [] := by
  have hfirst := h .empty ""
  rw [ByteArray.empty_append, String.empty_append] at hfirst
  rw [answers, hfirst]
  rfl

/-- A session prints its answers, each behind a prompt, and reports their messages. -/
theorem exists_converse (d : Display) (inputs : List ByteArray) (env : Environment)
    (printed : ByteArray) (reported : String) : ∃ env',
    converse d (written env printed reported) inputs =
      written env' (printed ++ Answer.transcript (answers d env inputs))
        (reported ++ Answer.messages (answers d env inputs)) := by
  induction inputs generalizing env printed reported with
  | nil =>
    have hprompt : Answer.transcript [.nothing] = prompt.toUTF8 :=
      (Answer.transcript_concat_nothing []).trans ByteArray.empty_append
    have hquiet : Answer.messages [.nothing] = "" := rfl
    exact ⟨env, by rw [converse, print_written, answers, hprompt, hquiet, String.append_empty]⟩
  | cons input rest ih =>
    obtain ⟨env', a, goesOn, h⟩ := exists_responds d input env
    rw [answers_cons h, converse, print_written, h, Answer.transcript_cons, Answer.messages_cons,
      ← ByteArray.append_assoc, ← ByteArray.append_assoc, ← String.append_assoc]
    cases goesOn with
    | true => exact ih env' _ _
    | false =>
      exact ⟨env', congrArg₂ (written env') ByteArray.append_empty.symm String.append_empty.symm⟩

/-! ### Lines of statements -/

/-- A line that a session runs as the statements `body`. -/
structure RunsAs (line : String) (body : List Stmt) : Prop where
  nonempty : Text.trim line.toList ≠ []
  goesOn : Text.trim line.toList ≠ "exit".toList
  statements : isStatementLine (Text.trim line.toList) = true
  parses : parseProgram (String.ofList (Text.trim line.toList)) = .ok body

theorem RunsAs.newline {line : String} {body : List Stmt} (h : RunsAs line body) :
    RunsAs (line ++ "\n") body := by
  have htrim : Text.trim (line ++ "\n").toList = Text.trim line.toList := by
    have hnewline : "\n".toList = ['\n'] := by decide
    rw [String.toList_append, hnewline]
    exact Text.trim_append line.toList (List.forall_mem_singleton.mpr (by decide))
  exact ⟨htrim ▸ h.nonempty, htrim ▸ h.goesOn, htrim ▸ h.statements, htrim ▸ h.parses⟩

theorem exists_runsAs {line : String} (hne : Text.trim line.toList ≠ [])
    (hexit : Text.trim line.toList ≠ "exit".toList)
    (hstatements : isStatementLine (Text.trim line.toList) = true)
    (hparses : (parseProgram (String.ofList (Text.trim line.toList))).isOk = true) :
    ∃ body, RunsAs line body := by
  obtain ⟨body, hbody⟩ := exists_of_isOk hparses
  exact ⟨body, hne, hexit, hstatements, hbody⟩

theorem decode_toUTF8 (text : String) : Script.decode text.toUTF8 = .ok text := by
  have hdecode : String.fromUTF8? text.toUTF8 = some text := by
    rw [String.fromUTF8?]
    exact dif_pos text.isValidUTF8
  rw [Script.decode, hdecode]

theorem RunsAs.responds {line : String} {body : List Stmt} (h : RunsAs line body)
    {env env' : Environment} {result : Except RuntimeError Unit} {printed : ByteArray}
    (hrun : Runs (Stmt.executeAll body) env result env' printed) :
    Responds ⟨false, false⟩ line.toUTF8 env env' (.ofRun printed result) true := by
  have haction : lineAction (Text.trim line.toList) = .ok (Stmt.executeAll body) := by
    rw [lineAction, if_pos h.statements, h.parses]
    rfl
  refine (writes_runLine_of_runs haction hrun).responds fun s => ?_
  rw [respond, decode_toUTF8]
  dsimp only
  rw [if_neg (by simpa using h.nonempty), if_neg h.goesOn]
  rfl

/-- What `x` does from the environment `env` is shared out among answers: they print together what
it prints, or the first that reports anything reports how it fails and it prints what they print up
to that one. -/
def Shares (x : Execution Unit) (env : Environment) (shares : List Answer) : Prop :=
  (∃ env', Runs x env (.ok ()) env' (Answer.output shares) ∧ ∀ a ∈ shares, a.reported = "") ∨
  ∃ e env' before a rest, shares = before ++ a :: rest ∧ (∀ b ∈ before, b.reported = "") ∧
    a.reported = errorLine e.message ∧ Runs x env (.error e) env' (Answer.output (before ++ [a]))

theorem shares_nil (env : Environment) : Shares (pure ()) env [] :=
  .inl ⟨env, .pure () env, List.forall_mem_nil _⟩

theorem Shares.of_error {x y : Execution Unit} {env env' : Environment} {e : RuntimeError}
    {printed : ByteArray} (h : Runs x env (.error e) env' printed) (rest : List Answer) :
    Shares (do x; y) env (.ofRun printed (.error e) :: rest) := by
  refine .inr ⟨e, env', [], _, rest, rfl, List.forall_mem_nil _, rfl, ?_⟩
  rw [List.nil_append, Answer.output_cons, Answer.output, List.foldr_nil, ByteArray.append_empty]
  exact h.bind_error

theorem Shares.cons {x y : Execution Unit} {env env' : Environment} {printed : ByteArray}
    {shares : List Answer} (hx : Runs x env (.ok ()) env' printed) (hy : Shares y env' shares) :
    Shares (do x; y) env (.ofRun printed (.ok ()) :: shares) := by
  obtain ⟨env'', hrun, hquiet⟩ | ⟨e, env'', before, a, rest, rfl, hquiet, hreported, hrun⟩ := hy
  · exact .inl ⟨env'', hx.bind hrun, List.forall_mem_cons.mpr ⟨rfl, hquiet⟩⟩
  · exact .inr ⟨e, env'', _ :: before, a, rest, rfl, List.forall_mem_cons.mpr ⟨rfl, hquiet⟩,
      hreported, hx.bind hrun⟩

/-- A session shares out among its lines what the statements of all of them do. -/
theorem exists_shares {lines : List String} {bodies : List (List Stmt)}
    (h : List.Forall₂ RunsAs lines bodies) (env : Environment) : ∃ shares,
      answers ⟨false, false⟩ env (lines.map String.toUTF8) = shares ++ [.nothing] ∧
      shares.length = lines.length ∧ Shares (Stmt.executeAll bodies.flatten) env shares := by
  induction h generalizing env with
  | nil => exact ⟨[], rfl, rfl, shares_nil env⟩
  | @cons line body lines bodies hline _ ih =>
    -- The session goes on behind a line that fails. The program does not, so that the answers to
    -- the lines behind it are not shares of what it does.
    obtain ⟨result, env', printed, hrun⟩ := Stmt.executeAll_appends body env
    obtain ⟨shares, hanswers, hlength, hshares⟩ := ih env'
    refine ⟨.ofRun printed result :: shares, ?_, congrArg (· + 1) hlength, ?_⟩
    · rw [List.map_cons, answers_cons (hline.responds hrun), if_pos rfl, hanswers, List.cons_append]
    · rw [List.flatten_cons, Stmt.executeAll_append]
      cases result with
      | ok _ => exact .cons hrun hshares
      | error e => exact .of_error hrun shares

theorem exists_bodies {lines : List String}
    (h : ∀ line ∈ lines, '\n' ∉ line.toList ∧ ∃ body, RunsAs line body) :
    ∃ bodies,
      List.Forall₂ (fun line body => '\n' ∉ line.toList ∧ RunsAs line body) lines bodies := by
  induction lines with
  | nil => exact ⟨[], .nil⟩
  | cons line lines ih =>
    rw [List.forall_mem_cons] at h
    obtain ⟨⟨hline, body, hbody⟩, hlines⟩ := h
    obtain ⟨bodies, hbodies⟩ := ih hlines
    exact ⟨body :: bodies, .cons ⟨hline, hbody⟩ hbodies⟩

theorem runsAs_inputs {lines inputs : List String} {bodies : List (List Stmt)}
    (h : List.Forall₂ (fun line input => input = line ∨ input = line ++ "\n") lines inputs)
    (hbodies : List.Forall₂ RunsAs lines bodies) : List.Forall₂ RunsAs inputs bodies := by
  induction h generalizing bodies with
  | nil => exact hbodies
  | cons hinput _ ih =>
    cases hbodies with
    | cons hline hlines =>
      obtain rfl | rfl := hinput
      · exact .cons hline (ih hlines)
      · exact .cons hline.newline (ih hlines)

theorem run_eq (d : Display) (inputs : List ByteArray) :
    (run d inputs).machine.output.bytes =
      banner.toUTF8 ++ Answer.transcript (answers d .empty inputs) ∧
    (run d inputs).errors = Answer.messages (answers d .empty inputs) := by
  obtain ⟨env, h⟩ := exists_converse d inputs .empty (.empty ++ banner.toUTF8) ""
  rw [ByteArray.empty_append, String.empty_append] at h
  have hrun : run d inputs = written env _ _ := h
  rw [hrun]
  exact ⟨rfl, rfl⟩

end Session

/-- A session over lines of statements prints its banner and, behind a prompt each, what it answers
to the lines. It answers them together as the program that they are together: with its output, or up
to the first line that fails with its output, and then with its error. -/
theorem session_runs_program {lines : List String}
    (hlines : ∀ line ∈ lines, '\n' ∉ line.toList ∧ ∃ body, Session.RunsAs line body)
    {stdin : String}
    (hstdin : stdin = String.join (lines.map (· ++ "\n")) ∨ stdin = "\n".intercalate lines)
    (read : Script.Reader) :
    let inputs := CommandLine.lines stdin.toUTF8
    let session := CommandLine.perform read inputs (.run ⟨false, false⟩ none)
    let (result, out) := runProgram ("\n".intercalate lines) none
    ∃ shares, Session.answers ⟨false, false⟩ .empty inputs = shares ++ [.nothing] ∧
      shares.length = lines.length ∧
      session.stdout =
        Session.banner.toUTF8 ++ Answer.transcript shares ++ Session.prompt.toUTF8 ∧
      session.stderr = Answer.messages shares ∧
      ((result = .ok () ∧ Answer.output shares = out.bytes ∧ session.stderr = "") ∨
        ∃ e before a rest, result = .error (.runtime e) ∧ shares = before ++ a :: rest ∧
          (∀ b ∈ before, b.reported = "") ∧ Answer.output (before ++ [a]) = out.bytes ∧
          a.reported = errorLine (ProgramError.runtime e).message) := by
  obtain ⟨bodies, hbodies⟩ := Session.exists_bodies hlines
  obtain ⟨body, hparse, hexecute⟩ := parseProgram_lines (hbodies.imp fun _ _ h => ⟨h.1, h.2.parses⟩)
  have hne : ∀ line ∈ lines, '\n' ∉ line.toList ∧ line ≠ "" := by
    intro line hmem
    obtain ⟨hline, body, hbody⟩ := hlines line hmem
    exact ⟨hline, fun h => hbody.nonempty (by rw [h]; rfl)⟩
  obtain ⟨inputs, hinputs, hread⟩ := CommandLine.exists_lines hne hstdin
  obtain ⟨shares, hanswers, hlength, hshares⟩ := Session.exists_shares
    (Session.runsAs_inputs hread (hbodies.imp fun _ _ h => h.2)) .empty
  obtain ⟨hprinted, hreported⟩ := Session.run_eq ⟨false, false⟩ (inputs.map String.toUTF8)
  rw [hanswers, Answer.transcript_concat_nothing, ← ByteArray.append_assoc] at hprinted
  have hmessages : Answer.messages (shares ++ [.nothing]) = Answer.messages shares :=
    (Answer.messages_append _ _).trans String.append_empty
  rw [hanswers, hmessages] at hreported
  rw [hinputs, runProgram, hparse]
  dsimp only
  rw [hexecute]
  refine ⟨shares, hanswers, hlength.trans hread.length_eq.symm, hprinted, hreported, ?_⟩
  -- The program runs from a machine that has printed nothing, so that it prints the shares alone.
  obtain ⟨env, hrun, hquiet⟩ | ⟨e, env, before, a, rest, rfl, hquiet, herror, hrun⟩ := hshares
  · rw [Machine.initial, Output.empty, hrun .empty, ByteArray.empty_append]
    exact .inl ⟨rfl, rfl, hreported.trans (Answer.messages_eq_empty hquiet)⟩
  · rw [Machine.initial, Output.empty, hrun .empty, ByteArray.empty_append]
    exact .inr ⟨e, before, a, rest, rfl, rfl, hquiet, rfl, herror⟩

/-- Lines of which the second one prints and fails, and the third one is fine again. -/
def failingLines : List String :=
  ["  var n [string] = \"one\"; // kept", "print(n); print(m);\t", "\x7b n = \"two\"; \x7d"]

theorem session_runs_failingLines : ∃ shares before a rest,
    Session.answers ⟨false, false⟩ .empty
        (CommandLine.lines (String.join (failingLines.map (· ++ "\n"))).toUTF8) =
      shares ++ [.nothing] ∧
    shares.length = 3 ∧ shares = before ++ a :: rest ∧ (∀ b ∈ before, b.reported = "") ∧
    Answer.output (before ++ [a]) = "one\n".toUTF8 ∧
    a.reported = errorLine "Variable m was not declared in this scope" := by
  have hlines : ∀ line ∈ failingLines, '\n' ∉ line.toList ∧ ∃ body, Session.RunsAs line body := by
    simp only [failingLines, List.forall_mem_cons]
    refine ⟨⟨?_, Session.exists_runsAs ?_ ?_ ?_ ?_⟩, ⟨?_, Session.exists_runsAs ?_ ?_ ?_ ?_⟩,
      ⟨?_, Session.exists_runsAs ?_ ?_ ?_ ?_⟩, List.forall_mem_nil _⟩ <;> decide +kernel
  have hresult : (runProgram ("\n".intercalate failingLines) none).1 =
      .error (.runtime (.undeclared "m")) := by decide +kernel
  have hout : (runProgram ("\n".intercalate failingLines) none).2.bytes = "one\n".toUTF8 := by
    decide +kernel
  have h := session_runs_program hlines (.inl rfl) fun _ => .error .notFound
  rcases hrun : runProgram ("\n".intercalate failingLines) none with ⟨result, out⟩
  rw [hrun] at h hresult hout
  obtain rfl : result = _ := hresult
  obtain ⟨shares, hanswers, hlength, -, -, ⟨hok, -⟩ | ⟨e, before, a, rest, he, hshares⟩⟩ := h
  · exact nomatch hok
  · cases he
    obtain ⟨hsplit, hquiet, houtput, hreported⟩ := hshares
    exact ⟨shares, before, a, rest, hanswers, hlength, hsplit, hquiet, houtput.trans hout,
      hreported⟩

end EggLang
