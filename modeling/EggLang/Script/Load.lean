import EggLang.Program
import EggLang.Script.FileTree
import EggLang.Script.Path

/-! Scripts from their files to their output. How files are read is a parameter. -/

namespace EggLang

/-- What can go wrong between the path of a script and its end. -/
inductive Failure
  | notScript (path : String)
  | unreadable (path : String) (e : Script.ReadError)
  | program (e : ProgramError)
deriving DecidableEq, Repr

namespace Failure

def message : Failure → String
  | notScript path => s!"Expected a .egg file, got {path}"
  | unreadable path e => s!"Could not read {path}: {e.text}"
  | program e => e.message

/-- The exit code of a script that ends with a failure. -/
def exitCode : Failure → UInt8
  | notScript _ | unreadable _ _ => 66
  | program (.runtime _) => 70
  | program _ => 65

end Failure

namespace Script

/-- How the bytes of files are found, by path. -/
abbrev Reader := String → Except ReadError ByteArray

/-- The text of a script. Nothing is read from a path that does not name a script. -/
def load (read : Reader) (path : String) : Except Failure String :=
  if isScript path then ((read path).bind decode).mapError (.unreadable path)
  else .error (.notScript path)

def run (read : Reader) (path : String) : Except Failure Unit × Output :=
  match load read path with
  | .error e => (.error e, .empty none)
  | .ok text =>
    let (result, output) := runProgram text none
    (result.mapError .program, output)

end Script

end EggLang
