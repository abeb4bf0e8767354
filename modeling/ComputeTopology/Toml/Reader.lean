import ComputeTopology.Toml.Layer
import ComputeTopology.Toml.Quoted
import ComputeTopology.Toml.Scalar
/-!
# Reading TOML

A document is read line by line: blank lines and comments, headers, and keys with values, each value
with all the lines it takes. Arrays may spread over lines and hold comments, inline tables may not.
Arrays and inline tables nest less than `nestingLimit` deep, and no dotted key has as many parts.
-/

namespace ComputeTopology.Toml

def nestingLimit : Nat := 80

def skipSpaces (cs : List Char) : List Char :=
  cs.dropWhile isSpace

/-- The rest of a line that holds nothing more than a comment. -/
def afterComment : List Char → Option (List Char)
  | [] => some []
  | '\n' :: rest => some rest
  | '\r' :: '\n' :: rest => some rest
  | c :: rest => if isPlain c then afterComment rest else none

/-- What follows a line of which nothing but spaces and a comment is left. -/
def afterLine (cs : List Char) : Option (List Char) :=
  match skipSpaces cs with
  | [] => some []
  | '\n' :: rest => some rest
  | '\r' :: '\n' :: rest => some rest
  | '#' :: rest => afterComment rest
  | _ => none

/-- Skips spaces, line ends and comments. -/
def skipBlank (inComment : Bool) : List Char → Option (List Char)
  | [] => some []
  | '\r' :: '\n' :: rest => skipBlank false rest
  | c :: rest =>
    if c = '\n' then skipBlank false rest
    else if inComment then
      if isPlain c then skipBlank true rest else none
    else if isSpace c then skipBlank false rest
    else if c = '#' then skipBlank true rest
    else some (c :: rest)

def isBareKeyChar (c : Char) : Bool :=
  c.isAlphanum || c = '_' || c = '-'

/-- One part of a key. -/
def keyPart (cs : List Char) : Option (String × List Char) :=
  match cs with
  | '"' :: _ => quotedLine cs
  | '\'' :: _ => quotedLine cs
  | _ =>
    match cs.takeWhile isBareKeyChar with
    | [] => none
    | name => some (String.ofList name, cs.dropWhile isBareKeyChar)

/-- The parts of a key with the spaces around them. -/
def keyParts (cs : List Char) : Option (List String × List Char) :=
  match keyPart (skipSpaces cs) with
  | none => none
  | some (part, rest) =>
    match skipSpaces rest with
    | '.' :: rest =>
      if rest.length < cs.length then
        (keyParts rest).map fun (parts, rest) => (part :: parts, rest)
      else none
    | rest => some ([part], rest)
termination_by cs.length

/-- A key as the names before the last one, and the last one. -/
def key (cs : List Char) : Option ((List String × String) × List Char) := do
  let (parts, rest) ← keyParts cs
  let name ← parts.getLast?
  if parts.length < nestingLimit then return ((parts.dropLast, name), rest) else none

/-- The entries of an array from one of them on, or its end. -/
def items (value : List Char → Option (Toml × List Char)) (cs : List Char) :
    Option (List Toml × List Char) :=
  match skipBlank false cs with
  | none => none
  | some (']' :: rest) => some ([], rest)
  | some cs' =>
    (value cs').bind fun (v, rest) =>
      match skipBlank false rest with
      | some (']' :: rest) => some ([v], rest)
      | some (',' :: rest) =>
        if rest.length < cs.length then
          (items value rest).map fun (vs, rest) => (v :: vs, rest)
        else none
      | _ => none
termination_by cs.length

/-- A key with its value. -/
def pair (value : List Char → Option (Toml × List Char)) (cs : List Char) :
    Option ((List String × String × Toml) × List Char) := do
  let ((path, name), rest) ← key cs
  match rest with
  | '=' :: rest =>
    let (v, rest) ← value (skipSpaces rest)
    return ((path, name, v), rest)
  | _ => none

/-- The entries of an inline table from one of them on. -/
def pairs (value : List Char → Option (Toml × List Char)) (cs : List Char) :
    Option (List (List String × String × Toml) × List Char) :=
  (pair value cs).bind fun (p, rest) =>
    match skipSpaces rest with
    | '\x7d' :: rest => some ([p], rest)
    | ',' :: rest =>
      if rest.length < cs.length then
        (pairs value rest).map fun (ps, rest) => (p :: ps, rest)
      else none
    | _ => none
termination_by cs.length

/-- A value in which arrays and inline tables nest at most `depth` deep. -/
def value : (depth : Nat) → List Char → Option (Toml × List Char)
  | depth, '[' :: rest =>
    match depth with
    | 0 => none
    | depth + 1 => (items (value depth) rest).map (·.map .array id)
  | depth, '\x7b' :: rest =>
    match depth with
    | 0 => none
    | depth + 1 =>
      match skipSpaces rest with
      | '\x7d' :: rest => some (.table [], rest)
      | rest => do
        let (entries, rest) ← pairs (value depth) rest
        return (← tableOfPairs entries, rest)
  | _, '"' :: rest => (quoted ('"' :: rest)).map (·.map .string id)
  | _, '\'' :: rest => (quoted ('\'' :: rest)).map (·.map .string id)
  | _, cs => scalar cs

/-- What has been read, and the table to which the next keys belong. -/
structure Draft where
  layer : Layer := .root
  current : List String := []

namespace Draft

def add (d : Draft) (path : List String) (name : String) (v : Toml) : Option Draft :=
  (d.layer.descend (fun origin entries => (Layer.table origin entries).addValue name v false path)
    d.current).map fun layer => { d with layer }

/-- Goes on in the table that a header names; `row` for one more of an array of tables. -/
def enter (d : Draft) (row : Bool) (path : List String) (name : String) : Option Draft :=
  (d.layer.descend (if row then Layer.openRow name else Layer.openTable name) path).map
    fun layer => ⟨layer, path ++ [name]⟩

end Draft

/-- Reads one line, and the further ones that its value takes. -/
def line (d : Draft) (cs : List Char) : Option (Draft × List Char) :=
  match skipSpaces cs with
  | '[' :: '[' :: rest => do
    let ((path, name), rest) ← key rest
    match rest with
    | ']' :: ']' :: rest => return (← d.enter true path name, ← afterLine rest)
    | _ => none
  | '[' :: rest => do
    let ((path, name), rest) ← key rest
    match rest with
    | ']' :: rest => return (← d.enter false path name, ← afterLine rest)
    | _ => none
  | cs =>
    match afterLine cs with
    | some rest => some (d, rest)
    | none => do
      let ((path, name, v), rest) ← pair (value (nestingLimit - 1)) cs
      return (← d.add path name v, ← afterLine rest)

def lines (d : Draft) (cs : List Char) : Option Draft :=
  match cs with
  | [] => some d
  | c :: cs =>
    (line d (c :: cs)).bind fun (d, rest) =>
      if rest.length ≤ cs.length then lines d rest else none
termination_by cs.length
decreasing_by exact Nat.lt_succ_of_le ‹_›

/-- The document that a text holds, if it is TOML. A byte order mark may stand in front. -/
def parse? (text : String) : Option Toml :=
  let cs := match text.toList with
    | '\uFEFF' :: cs => cs
    | cs => cs
  (lines {} cs).map (·.layer.finish)

end ComputeTopology.Toml
