import ComputeTopology.Files.Access
/-!
# The files of the host

Access to the file system that the program runs on.
-/

namespace ComputeTopology.Files

/-- What the operating system meant. Some calls give its number for the reason, others the negated
number. -/
def hostError : IO.Error → OsError
  | .noFileOrDirectory .. => .notFound
  | .userError _ => .notText
  | .inappropriateType _ number details =>
    if number = 20 || number = -20 then .notDirectory
    else if number = 21 || number = -21 then .isDirectory
    else .other details
  | e => .other (toString e)

def attempt {α : Type} (action : IO α) : IO (Except OsError α) := do
  match ← action.toBaseIO with
  | .ok a => return .ok a
  | .error e => return .error (hostError e)

def hostEntry (path : String) : IO.FS.DirEntry :=
  { root := path, fileName := "" }

def host : Files IO where
  kind path := do
    let place := (hostEntry path).root
    if ← place.isDir then return some .directory
    else if ← place.pathExists then return some .file
    else return none
  readText path := attempt (IO.FS.readFile path)
  list path := do
    return (← attempt (hostEntry path).root.readDir).map fun entries =>
      entries.toList.map fun entry => .ok entry.fileName
  opens path := do
    match ← (IO.FS.Handle.mk path .read).toBaseIO with
    | .ok _ => return true
    | .error _ => return false
  writeText path text := attempt (IO.FS.writeFile path text)

end ComputeTopology.Files
