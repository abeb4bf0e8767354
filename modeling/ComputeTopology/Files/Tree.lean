import ComputeTopology.Files.Access
import ComputeTopology.Text.Blank
/-!
# File trees

A file tree as a value, with the outcome of every access that `Files` knows. A path is followed from
the root of the tree, name by name; every step needs a directory to start from, and so does a slash
at the end of a path. Absolute paths and paths that climb above the root lead out of the tree, where
nothing is found.
-/

namespace ComputeTopology

inductive FileTree
  /-- `none` stands for bytes that are no text. -/
  | file (text : Option String)
  | directory (entries : List (String × FileTree))

namespace FileTree

def empty : FileTree :=
  directory []

def child? (name : String) : FileTree → Option FileTree
  | file _ => none
  | directory entries => entries.lookup name

/-- The tree below a list of names. -/
def at? : FileTree → List String → Option FileTree
  | t, [] => some t
  | t, name :: names => (t.child? name).bind (·.at? names)

/-- The names between the slashes of a path. -/
def steps (path : String) : List String :=
  (Text.fields (· = '/') path.toList).map String.ofList

/-- Follows the steps from the place `here`, which is given from the innermost name outwards. -/
def walk (root : FileTree) : (here : List String) → List String → Except OsError (List String)
  | here, [] => .ok here
  | here, step :: rest =>
    match root.at? here.reverse with
    | some (directory entries) =>
      if step = "" || step = "." then walk root here rest
      else if step = ".." then
        match here with
        | [] => .error .notFound
        | _ :: outer => walk root outer rest
      else if (entries.lookup step).isSome then walk root (step :: here) rest
      else .error .notFound
    | some (file _) => .error .notDirectory
    | none => .error .notFound

/-- The place that a path leads to, as the list of names from the root. -/
def locate (root : FileTree) (path : String) : Except OsError (List String) :=
  match path.toList with
  | [] => .error .notFound
  | '/' :: _ => .error .notFound
  | _ => (walk root [] (steps path)).map List.reverse

def resolve (root : FileTree) (path : String) : Except OsError FileTree := do
  match root.at? (← root.locate path) with
  | some t => .ok t
  | none => .error .notFound

def kind (root : FileTree) (path : String) : Option EntryKind :=
  match root.resolve path with
  | .ok (file _) => some .file
  | .ok (directory _) => some .directory
  | .error _ => none

def readText (root : FileTree) (path : String) : Except OsError String := do
  match ← root.resolve path with
  | file (some text) => .ok text
  | file none => .error .notText
  | directory _ => .error .isDirectory

def list (root : FileTree) (path : String) : Except OsError (List String) := do
  match ← root.resolve path with
  | file _ => .error .notDirectory
  | directory entries => .ok (entries.map (·.1))

/-- The entries with `name` leading to `t`; a new name comes last. -/
def setEntry (name : String) (t : FileTree) : List (String × FileTree) → List (String × FileTree)
  | [] => [(name, t)]
  | (n, old) :: rest =>
    if n = name then (n, t) :: rest else (n, old) :: setEntry name t rest

/-- Puts `t` at the place that a list of names leads to; missing directories are made. -/
def place (t : FileTree) : List String → FileTree → FileTree
  | [], _ => t
  | name :: names, directory entries =>
    directory (setEntry name (place t names ((entries.lookup name).getD empty)) entries)
  | name :: names, file _ => directory [(name, place t names empty)]

/-- Takes away what a list of names leads to. -/
def prune : List String → FileTree → FileTree
  | [], _ => empty
  | [name], directory entries => directory (entries.filter (·.1 ≠ name))
  | name :: names, directory entries =>
    match entries.lookup name with
    | some t => directory (setEntry name (prune names t) entries)
    | none => directory entries
  | _ :: _, file text => file text

/-- A tree with the given contents; each path is a list of names with slashes between them. -/
def addAll (root : FileTree) (contents : List (String × FileTree)) : FileTree :=
  contents.foldl (fun t (path, content) => place content (steps path) t) root

/-- Writes a file, whose directory has to be there. A path that ends in a slash or a dot can only
name a directory, and so nothing is written to it. -/
def writeText (root : FileTree) (path text : String) : Except OsError FileTree := do
  if path.toList.head? = some '/' then .error .notFound
  else
    let names := steps path
    let named := (names.reverse.dropWhile (· = "")).reverse
    let some last := named.getLast? | .error .notFound
    let parent := (← walk root [] named.dropLast).reverse
    match root.at? parent with
    | some (directory entries) =>
      if named ≠ names || last = "." || last = ".." then .error .isDirectory
      else
        match entries.lookup last with
        | some (directory _) => .error .isDirectory
        | _ => .ok (place (file (some text)) (parent ++ [last]) root)
    | some (file _) => .error .notDirectory
    | none => .error .notFound

/-- Access to the tree as it is. -/
def files (root : FileTree) : Files Id where
  kind := root.kind
  readText := root.readText
  list path := (root.list path).map (·.map .ok)
  opens path := (root.kind path).isSome
  writeText _ _ := .error (.other "Read-only file system (os error 30)")

/-- Access to a tree that writing changes. -/
def liveFiles : Files (StateM FileTree) where
  kind path := return (← get).kind path
  readText path := return (← get).readText path
  list path := return ((← get).list path).map (·.map .ok)
  opens path := return ((← get).kind path).isSome
  writeText path text := do
    match (← get).writeText path text with
    | .ok root => set root; return .ok ()
    | .error e => return .error e

end FileTree

end ComputeTopology
