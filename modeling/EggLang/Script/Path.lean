/-! Which paths name scripts. Only the name matters, not what is at the path. -/

namespace EggLang.Script

/-- The components of a path, without the empty ones and those that stay in place. -/
def components (path : String) : List String :=
  (path.splitOn "/").filter fun part => part != "" && part != "."

/-- The name a path ends in. A path that ends in a step to the parent has none. -/
def fileName? (path : String) : Option String :=
  match (components path).getLast? with
  | some ".." => none
  | name => name

def extension? (name : String) : Option String :=
  match (name.splitOn ".").reverse with
  | [] | [_] | [_, ""] => none
  | last :: _ => some last

def scriptExtension : String := "egg"

/-- Whether a path names a script. -/
def isScript (path : String) : Bool := (fileName? path).bind extension? == some scriptExtension

end EggLang.Script
