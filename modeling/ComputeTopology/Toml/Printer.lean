import ComputeTopology.Toml.Basic
/-!
# Writing TOML

A string is written in the first notation that shows it without escapes: basic on one line, literal
on one line, basic on several lines, literal on several lines. A string that fits none of them is
written with escapes. An integer beyond 64 bits with a sign cannot be written.
-/

namespace ComputeTopology.Toml

/-- The longest run of `c`. -/
def longestRun (c : Char) (cs : List Char) : Nat :=
  (cs.foldl (fun (best, now) d => if d = c then (max best (now + 1), now + 1) else (best, 0))
    (0, 0)).1

/-- A control character that no notation shows as it is. -/
def needsEscape (c : Char) : Bool :=
  (c.toNat < 0x20 || c.toNat = 0x7F) && c ≠ '\t' && c ≠ '\n'

inductive Notation
  | basic
  | literal
  | basicLines
  | literalLines
  deriving DecidableEq

/-- The notation for a string. -/
def notationOf (cs : List Char) : Notation :=
  let control := cs.any needsEscape
  let backslash := cs.contains '\\'
  let lines := cs.contains '\n'
  if !control && !backslash && longestRun '"' cs = 0 && !lines then .basic
  else if !control && longestRun '\'' cs = 0 && !lines then .literal
  else if !control && !backslash && longestRun '"' cs ≤ 2 then .basicLines
  else if !control && longestRun '\'' cs ≤ 2 then .literalLines
  else if lines then .basicLines
  else .basic

/-- A character of a basic string; one of several lines keeps its line feeds. -/
def escape (lines : Bool) (c : Char) : List Char :=
  if c = '\\' then ['\\', '\\']
  else if c = '\t' then ['\\', 't']
  else if c = '\n' then if lines then [c] else ['\\', 'n']
  else if c = '\r' then ['\\', 'r']
  else if c.toNat = 8 then ['\\', 'b']
  else if c.toNat = 12 then ['\\', 'f']
  else if needsEscape c then
    '\\' :: 'u' :: (List.leftpad 4 '0' (Nat.toDigits 16 c.toNat)).map Char.toUpper
  else [c]

/-- The body of a basic string. A quote is escaped where it would be one more than `allowed` in a
row; `run` counts the quotes right before. -/
def basicBody (lines : Bool) (allowed run : Nat) : List Char → List Char
  | [] => []
  | '"' :: cs =>
    if allowed ≤ run then '\\' :: '"' :: basicBody lines allowed 0 cs
    else '"' :: basicBody lines allowed (run + 1) cs
  | c :: cs => escape lines c ++ basicBody lines allowed 0 cs

def renderString (text : String) : String :=
  let cs := text.toList
  let lineEnd := if cs.contains '\n' then "\n" else ""
  match notationOf cs with
  | .basic => "\"" ++ String.ofList (basicBody false 0 0 cs) ++ "\""
  | .literal => "'" ++ text ++ "'"
  | .basicLines => "\"\"\"" ++ lineEnd ++ String.ofList (basicBody true 2 0 cs) ++ "\"\"\""
  | .literalLines => "'''" ++ lineEnd ++ text ++ "'''"

/-- What a line of a table may hold. -/
inductive Entry
  | text (text : String)
  | number (value : Nat)

def renderEntry : Entry → Option String
  | .text text => some (renderString text)
  | .number n => if n ≤ Int64.maxValue.toInt then some (Text.decimal n) else none

def renderLine (name : String) (e : Entry) : Option String :=
  (renderEntry e).map fun v => name ++ " = " ++ v ++ "\n"

/-- A header and a line for each entry. -/
def renderTable (name : String) (entries : List (String × Entry)) : Option String := do
  let lines ← entries.mapM fun (name, e) => renderLine name e
  return "[" ++ name ++ "]\n" ++ String.join lines

/-- Tables with an empty line between them. -/
def render (tables : List (String × List (String × Entry))) : Option String := do
  let texts ← tables.mapM fun (name, entries) => renderTable name entries
  return "\n".intercalate texts

end ComputeTopology.Toml
