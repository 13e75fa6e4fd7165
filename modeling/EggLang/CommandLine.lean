import EggLang.Session

/-! The command line: what its arguments ask for, and what is printed and returned for them. -/

namespace EggLang.CommandLine

/-- What the arguments ask for. -/
inductive Request
  | help
  | version
  | usage
  | run (display : Display) (script : Option String)
deriving DecidableEq, Repr

/-- The arguments read so far: how often each option was given, and the script. -/
structure Given where
  tokens : Nat
  tree : Nat
  script : Option String
deriving DecidableEq, Repr

namespace Given

def nothing : Given := ⟨0, 0, none⟩

/-- The request at the end of the arguments. No option may be given twice. -/
def request (g : Given) : Request :=
  if 1 < g.tokens || 1 < g.tree then .usage
  else .run ⟨decide (g.tokens = 1), decide (g.tree = 1)⟩ g.script

/-- Reads scripts only. There is at most one. -/
def scripts (g : Given) : List String → Request
  | [] => g.request
  | arg :: rest => if g.script.isSome then .usage else scripts { g with script := some arg } rest

/-- Reads arguments from left to right. Help, the version and a bad argument end the reading. -/
def arguments (g : Given) : List String → Request
  | [] => g.request
  | "--tokens" :: rest => arguments { g with tokens := g.tokens + 1 } rest
  | "--ast" :: rest => arguments { g with tree := g.tree + 1 } rest
  | "--help" :: _ => .help
  | "--version" :: _ => .version
  | "--" :: rest => g.scripts rest
  | arg :: rest =>
    match arg.toList with
    | '-' :: 'h' :: _ => .help
    | '-' :: 'V' :: _ => .version
    | '-' :: _ :: _ => .usage
    | _ => if g.script.isSome then .usage else arguments { g with script := some arg } rest

end Given

def parse (args : List String) : Request := Given.nothing.arguments args

def versionText : String := "egg 0.1.0\n"

def usageText : String := "USAGE:\n    egg [OPTIONS] [SCRIPT]\n"

def helpText : String :=
  versionText ++ "Run EggScript programs\n\n" ++ usageText ++
  "\nARGS:\n" ++
  "    <SCRIPT>    Script to run (starts an interactive session if not provided)\n" ++
  "\nOPTIONS:\n" ++
  "        --ast        Print the parsed program as S-expressions instead of running\n" ++
  "    -h, --help       Print help information\n" ++
  "        --tokens     Print the token stream instead of running\n" ++
  "    -V, --version    Print version information\n"

/-- What a run of the command leaves behind. -/
structure Outcome where
  exitCode : UInt8
  stdout : ByteArray
  stderr : String

def Outcome.ofResult (printed : ByteArray) : Except Failure Unit → Outcome
  | .ok () => ⟨0, printed, ""⟩
  | .error e => ⟨e.exitCode, printed, errorLine e.message⟩

/-- Runs or shows a script. -/
def runScript (display : Display) (read : Script.Reader) (path : String) : Outcome :=
  if display.isOn then
    match Script.load read path with
    | .error e => .ofResult .empty (.error e)
    | .ok text =>
      let (shown, result) := display.render text
      .ofResult shown.toUTF8 (result.mapError .program)
  else
    let (result, output) := Script.run read path
    .ofResult output.bytes result

/-- Carries out a request, with the lines of the standard input for a session. -/
def perform (read : Script.Reader) (inputs : List ByteArray) : Request → Outcome
  | .help => ⟨0, helpText.toUTF8, ""⟩
  | .version => ⟨0, versionText.toUTF8, ""⟩
  | .usage => ⟨2, .empty, usageText⟩
  | .run display (some path) => runScript display read path
  | .run display none =>
    let s := Session.run display inputs
    ⟨0, s.machine.output.bytes, s.errors⟩

/-- The lines of an input, each with the newline that ends it. -/
def lines (input : ByteArray) : List ByteArray :=
  let (done, last) := input.data.foldl
    (fun (done, line) byte =>
      if byte = 10 then (done.push (line.push byte), ByteArray.empty) else (done, line.push byte))
    ((#[], .empty) : Array ByteArray × ByteArray)
  if last.isEmpty then done.toList else done.toList ++ [last]

end EggLang.CommandLine
