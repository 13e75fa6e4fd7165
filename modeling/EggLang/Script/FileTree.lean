/-! Files and directories below a working directory, and what reading one of them can fail with. -/

namespace EggLang.Script

/-- Why a file cannot be read. -/
inductive ReadError
  | notFound
  | notADirectory
  | isADirectory
  | invalidUtf8
  | nulInName
  | other (reason : String)
deriving DecidableEq, Repr

def ReadError.text : ReadError → String
  | notFound => "No such file or directory (os error 2)"
  | notADirectory => "Not a directory (os error 20)"
  | isADirectory => "Is a directory (os error 21)"
  | invalidUtf8 => "stream did not contain valid UTF-8"
  | nulInName => "file name contained an unexpected NUL byte"
  | other reason => reason

/-- The text that bytes encode. -/
def decode (bytes : ByteArray) : Except ReadError String :=
  match String.fromUTF8? bytes with
  | some text => .ok text
  | none => .error .invalidUtf8

inductive FileTree
  | file (content : ByteArray)
  | directory (entries : List (String × FileTree))

namespace FileTree

def empty : FileTree := directory []

def entries : FileTree → List (String × FileTree)
  | file _ => []
  | directory entries => entries

/-- The tree with a node added at a path of names, and directories on the way to it. A directory
keeps what is in it when it is added once more. -/
def insert (new : FileTree) : List String → FileTree → FileTree
  | [], old =>
    match new, old with
    | directory [], directory entries => directory entries
    | _, _ => new
  | name :: rest, tree =>
    let below := (tree.entries.lookup name).getD empty
    directory ((name, insert new rest below) :: tree.entries.filter (·.1 != name))

/-- The tree with a node added at the end of the steps of a path, which start at the directory named
by `place`. A directory that a step leads back out of is added too. A path that leads out of the
tree adds nothing at its end. -/
def insertAlong (new : FileTree) (place : List String) : List String → FileTree → FileTree
  | [], tree => insert new place tree
  | step :: rest, tree =>
    if step = "" || step = "." then insertAlong new place rest tree
    else if step = ".." then
      if place.isEmpty then tree else insertAlong new place.dropLast rest (insert empty place tree)
    else insertAlong new (place ++ [step]) rest tree

/-- The tree of the given nodes, each with its path. -/
def ofNodes (nodes : List (String × FileTree)) : FileTree :=
  nodes.foldl (fun tree (path, node) => insertAlong node [] (path.splitOn "/") tree) empty

/-- The node at the end of the steps of a path. Every step, an empty one too, is taken from a
directory. `above` holds the directories around the one where the steps start, and nothing is found
around the outermost. -/
def walk (above : List FileTree) (here : FileTree) : List String → Except ReadError FileTree
  | [] => .ok here
  | step :: rest =>
    match here with
    | file _ => .error .notADirectory
    | directory entries =>
      if step = "" || step = "." then walk above here rest
      else if step = ".." then
        match above with
        | [] => .error .notFound
        | parent :: above => walk above parent rest
      else
        match entries.lookup step with
        | none => .error .notFound
        | some node => walk (here :: above) node rest

/-- The bytes of the file at a path. An absolute path leads out of the tree. -/
def read (tree : FileTree) (path : String) : Except ReadError ByteArray :=
  if path.toList.contains '\x00' then .error .nulInName
  else
    match path.splitOn "/" with
    | "" :: _ => .error .notFound
    | steps =>
      match walk [] tree steps with
      | .error e => .error e
      | .ok (file content) => .ok content
      | .ok (directory _) => .error .isADirectory

end FileTree

end EggLang.Script
