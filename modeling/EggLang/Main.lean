import EggLang.CommandLine

/-! The command: scripts are read from the file system, and sessions are held on the standard
streams. -/

namespace EggLang.CommandLine

/-- Why a file could not be read. A directory can be opened, so that only reading from it fails, and
the error of reading names no path. -/
def readError : IO.Error → Script.ReadError
  | .noFileOrDirectory .. => .notFound
  | .inappropriateType none _ _ => .isADirectory
  | .inappropriateType (some _) _ _ => .notADirectory
  | .invalidArgument .. => .nulInName
  | e => .other (toString e)

/-- What can be read at the one path that a request names. -/
def reader (path : String) : IO Script.Reader := do
  if Script.isScript path then
    try
      let content ← IO.FS.readBinFile path
      return fun _ => .ok content
    catch e => return fun _ => .error (readError e)
  else return fun _ => .error .notFound

/-- The bytes up to and including the next newline. -/
partial def readLine (line : ByteArray) : IO ByteArray := do
  let next ← (← IO.getStdin).read 1
  if next.isEmpty || next.data.contains 10 then return line ++ next
  readLine (line ++ next)

/-- Writes what a session has to say, and takes it off the session. -/
def flush (s : Session) : IO Session := do
  let output ← IO.getStdout
  output.write s.machine.output.bytes
  output.flush
  (← IO.getStderr).putStr s.errors
  return ⟨{ s.machine with output := .empty none }, ""⟩

/-- Holds a session on the standard streams. -/
partial def converse (display : Display) (s : Session) : IO Unit := do
  let s ← flush (s.print Session.prompt)
  let line ← readLine .empty
  if line.isEmpty then return
  let (s, goesOn) := s.respond display line
  let s ← flush s
  if goesOn then converse display s

/-- Writes an outcome and gives its exit code. -/
def finish (outcome : Outcome) : IO UInt32 := do
  let output ← IO.getStdout
  output.write outcome.stdout
  output.flush
  (← IO.getStderr).putStr outcome.stderr
  return outcome.exitCode.toUInt32

end EggLang.CommandLine

open EggLang EggLang.CommandLine in
def main (args : List String) : IO UInt32 := do
  match parse args with
  | .run display none =>
    converse display (Session.initial.print Session.banner)
    return 0
  | .run display (some path) => finish (runScript display (← reader path) path)
  | request => finish (perform (fun _ => .error .notFound) [] request)
