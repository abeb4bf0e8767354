import ComputeTopology.Toml.Basic
/-!
# Tables under construction

While a document is read its tables stay open, since a later header or dotted key may add to them.
How a table came about decides what may still be done to it: a header may name a table once, and
may not name one that dotted keys have made; a dotted key may pass through tables that no header
has named, and may add a value only to a table that dotted keys have made.
-/

namespace ComputeTopology.Toml

inductive Origin
  /-- Named on the way to another table. -/
  | onTheWay
  | header
  | dotted
  deriving DecidableEq

/-- What a key leads to while the document is read. -/
inductive Layer
  /-- A value, inline tables and arrays included; nothing can be added to it. -/
  | closed (value : Toml)
  | table (origin : Origin) (entries : List (String × Layer))
  /-- An array of tables, the last one in front. -/
  | rows (tables : List Layer)

namespace Layer

def root : Layer :=
  table .header []

/-- The entries with `name` leading to `layer`. -/
def setEntry (name : String) (layer : Layer) : List (String × Layer) → List (String × Layer)
  | [] => [(name, layer)]
  | (n, old) :: rest =>
    if n = name then (n, layer) :: rest else (n, old) :: setEntry name layer rest

/-- Changes the table itself, or the last of an array of tables. -/
def change (f : Origin → List (String × Layer) → Option Layer) : Layer → Option Layer
  | closed _ => none
  | table origin entries => f origin entries
  | rows (table origin entries :: earlier) =>
    (f origin entries).map fun last => rows (last :: earlier)
  | rows _ => none

/-- Goes down a path of table names and changes the table at its end; missing ones are made. -/
def descend (f : Origin → List (String × Layer) → Option Layer) : List String → Layer → Option Layer
  | [], layer => layer.change f
  | name :: names, layer =>
    layer.change fun origin entries =>
      (descend f names ((entries.lookup name).getD (table .onTheWay []))).map fun inner =>
        table origin (setEntry name inner entries)

/-- Opens the table that a header names. -/
def openTable (name : String) (origin : Origin) (entries : List (String × Layer)) :
    Option Layer :=
  match entries.lookup name with
  | none => some (table origin (setEntry name (table .header []) entries))
  | some (table .onTheWay inner) =>
    some (table origin (setEntry name (table .header inner) entries))
  | some _ => none

/-- Opens one more row of the array of tables that a header names. -/
def openRow (name : String) (origin : Origin) (entries : List (String × Layer)) : Option Layer :=
  match entries.lookup name with
  | none => some (table origin (setEntry name (rows [table .header []]) entries))
  | some (rows earlier) =>
    some (table origin (setEntry name (rows (table .header [] :: earlier)) entries))
  | some _ => none

/-- A dotted key may go on below this entry. -/
def isPassable : Layer → Bool
  | closed _ => false
  | table origin _ => origin ≠ .header
  | rows _ => true

/-- Adds a value under a key, given its last name and whether names stand before it. -/
def addHere (name : String) (value : Toml) (dotted : Bool) (origin : Origin)
    (entries : List (String × Layer)) : Option Layer :=
  if (origin == .dotted) == dotted && (entries.lookup name).isNone then
    some (table origin (setEntry name (closed value) entries))
  else none

/-- Adds a value under a dotted key, given the names before the last. -/
def addValue (name : String) (value : Toml) (dotted : Bool) : List String → Layer → Option Layer
  | [], layer => layer.change (addHere name value dotted)
  | step :: steps, layer =>
    layer.change fun origin entries =>
      let inner := (entries.lookup step).getD (table .dotted [])
      if inner.isPassable then
        (addValue name value true steps inner).map fun inner =>
          table origin (setEntry step inner entries)
      else none

mutual

/-- The value that has been built. -/
def finish : Layer → Toml
  | closed value => value
  | table _ entries => .table (finishEntries entries)
  | rows tables => .array (finishRows tables).reverse

def finishEntries : List (String × Layer) → List (String × Toml)
  | [] => []
  | (name, layer) :: rest => (name, layer.finish) :: finishEntries rest

def finishRows : List Layer → List Toml
  | [] => []
  | layer :: rest => layer.finish :: finishRows rest

end

end Layer

/-- The table that a list of keys and values makes, if they go together. -/
def tableOfPairs (pairs : List (List String × String × Toml)) : Option Toml :=
  (pairs.foldlM (fun layer (path, name, value) => Layer.addValue name value false path layer)
    Layer.root).map Layer.finish

end ComputeTopology.Toml
