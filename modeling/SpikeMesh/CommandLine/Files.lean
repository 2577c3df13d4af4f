set_option autoImplicit false

/-! # Files

The operations on files that commands need, over any monad, and a tree of files kept in memory
that offers them without a disk. -/

namespace SpikeMesh.CommandLine

/-- Why a file cannot be read. -/
inductive ReadError
  | missing
  | isDirectory
  /-- A file stands where a directory is needed. -/
  | notDirectory
  | other (reason : String)
deriving DecidableEq, Repr

/-- The text of the error, as the system words it. -/
def ReadError.message : ReadError → String
  | missing => "No such file or directory (os error 2)"
  | isDirectory => "Is a directory (os error 21)"
  | notDirectory => "Not a directory (os error 20)"
  | other reason => reason

/-- Access to files. Paths are relative to the current directory or absolute. -/
structure FileAccess (m : Type → Type) where
  /-- The absolute path of the current directory. -/
  currentDirectory : m String
  isFile : String → m Bool
  readText : String → m (Except ReadError String)

/-! ## Paths -/

/-- A path within a directory. -/
def joinPath (directory name : String) : String :=
  if directory.isEmpty then name
  else if directory.toList.getLast? == some '/' then directory ++ name
  else directory ++ "/" ++ name

/-- The parts of a path between its slashes. -/
def pathParts (path : String) : List String := path.splitOn "/"

/-- The directories that contain a path given by its parts from the last one back, the nearest
    first. -/
def enclosing : List String → List (List String)
  | [] => [[]]
  | part :: above => (part :: above) :: enclosing above

/-- An absolute path from its parts. -/
def absolutePath (parts : List String) : String := "/" ++ "/".intercalate parts

/-- An absolute path and the directories that contain it, the nearest first. -/
def ancestors (path : String) : List String :=
  let parts := (pathParts path).filter fun part => !part.isEmpty
  (enclosing parts.reverse).map fun reversed => absolutePath reversed.reverse

/-! ## Files in memory -/

/-- Files with their texts, by the parts of their absolute paths, and a current directory. -/
structure FileTree where
  files : List (List String × String)
  current : List String

namespace FileTree

/-- The text of a file. -/
def text? (t : FileTree) (path : List String) : Option String := t.files.lookup path

/-- Whether a path is a directory: the root, the current one, or one that contains something. -/
def isDirectory (t : FileTree) (path : List String) : Bool :=
  path.isPrefixOf t.current || t.files.any fun f => path.isPrefixOf f.1 && path != f.1

/-- Follow the parts of a path from a place on. All but the last place must be directories. -/
def follow (t : FileTree) (place : List String) : List String → Except ReadError (List String)
  | [] => .ok place
  | part :: rest =>
    if t.isDirectory place then
      match part with
      | "" | "." => t.follow place rest
      | ".." => t.follow place.dropLast rest
      | name => t.follow (place ++ [name]) rest
    else if (t.text? place).isSome then .error .notDirectory
    else .error .missing

/-- The place that a path denotes. -/
def resolve (t : FileTree) (path : String) : Except ReadError (List String) :=
  if path.isEmpty then .error .missing
  else if path.toList.head? == some '/' then t.follow [] (pathParts path)
  else t.follow t.current (pathParts path)

/-- Read a file. -/
def readText (t : FileTree) (path : String) : Except ReadError String := do
  let place ← t.resolve path
  match t.text? place with
  | some text => return text
  | none => if t.isDirectory place then throw .isDirectory else throw .missing

/-- Whether a path denotes a file. -/
def isFile (t : FileTree) (path : String) : Bool := (t.readText path).isOk

/-- The tree as access to files. -/
def access (t : FileTree) : FileAccess Id where
  currentDirectory := absolutePath t.current
  isFile := t.isFile
  readText := t.readText

end FileTree

end SpikeMesh.CommandLine
