/-!
# Access to files

What the readers of this library ask of a file system, in a monad of the file system's own: `Id` or
`StateM` for a file tree held as a value, `IO` for the machine the program runs on. Paths are plain
text and are joined as text.
-/

namespace ComputeTopology

/-- `base` and then `name`, with a slash between them unless `base` ends in one or is empty. -/
def joinPath (base name : String) : String :=
  if base.isEmpty || base.toList.getLast? = some '/' then base ++ name else base ++ "/" ++ name

/-- What an operating system answers in place of a file. -/
inductive OsError
  | notFound
  | notDirectory
  | isDirectory
  /-- The file is there but its bytes are no text. -/
  | notText
  | other (message : String)
  deriving DecidableEq

namespace OsError

def message : OsError → String
  | notFound => "No such file or directory (os error 2)"
  | notDirectory => "Not a directory (os error 20)"
  | isDirectory => "Is a directory (os error 21)"
  | notText => "stream did not contain valid UTF-8"
  | other message => message

end OsError

inductive EntryKind
  | file
  | directory
  deriving DecidableEq

structure Files (m : Type → Type) where
  /-- What is at a path, if anything can be found there. -/
  kind : String → m (Option EntryKind)
  readText : String → m (Except OsError String)
  /-- The names in a directory, in no particular order. Single names may fail to be read. -/
  list : String → m (Except OsError (List (Except OsError String)))
  /-- The file at a path can be opened for reading. -/
  opens : String → m Bool
  writeText : String → String → m (Except OsError Unit)

namespace Files

variable {m : Type → Type} [Monad m]

def isDirectory (fs : Files m) (path : String) : m Bool := do
  return (← fs.kind path) = some .directory

end Files

end ComputeTopology
