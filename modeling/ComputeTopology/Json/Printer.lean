import ComputeTopology.Json.Basic
/-!
# Writing JSON

One entry per line, two spaces of indentation per level, members in their given order, and an empty
container closed at once. In a string only the quote, the backslash and the control characters
below the space are escaped.
-/

namespace ComputeTopology.Json

def escapeChar (c : Char) : List Char :=
  if c = '"' then ['\\', '"']
  else if c = '\\' then ['\\', '\\']
  else if c = '\n' then ['\\', 'n']
  else if c = '\r' then ['\\', 'r']
  else if c = '\t' then ['\\', 't']
  else if c.toNat = 8 then ['\\', 'b']
  else if c.toNat = 12 then ['\\', 'f']
  else if c.toNat < 0x20 then '\\' :: 'u' :: (Text.hex c.toNat 4).toList
  else [c]

def quote (s : String) : String :=
  "\"" ++ String.ofList (s.toList.flatMap escapeChar) ++ "\""

def indentation (depth : Nat) : String :=
  String.ofList (List.replicate (2 * depth) ' ')

/-- The literal of a string; half of a surrogate pair has no text and is written as an empty one. -/
def quoteText (text : Option String) : String :=
  quote (text.getD "")

mutual

/-- The lines of a value, the first one without its indentation. -/
def pretty (depth : Nat) : Json → String
  | .null => "null"
  | .bool b => if b then "true" else "false"
  | .integer n => Text.int n
  | .real literal => String.ofList literal
  | .string text => quoteText text
  | .array [] => "[]"
  | .array (v :: vs) =>
    "[\n" ++ indentation (depth + 1) ++ pretty (depth + 1) v ++ prettyItems depth vs ++ "\n"
      ++ indentation depth ++ "]"
  | .object [] => "\x7b\x7d"
  | .object ((k, v) :: ms) =>
    "\x7b\n" ++ indentation (depth + 1) ++ quoteText k ++ ": " ++ pretty (depth + 1) v
      ++ prettyMembers depth ms ++ "\n" ++ indentation depth ++ "\x7d"

def prettyItems (depth : Nat) : List Json → String
  | [] => ""
  | v :: vs => ",\n" ++ indentation (depth + 1) ++ pretty (depth + 1) v ++ prettyItems depth vs

def prettyMembers (depth : Nat) : List (Option String × Json) → String
  | [] => ""
  | (k, v) :: ms =>
    ",\n" ++ indentation (depth + 1) ++ quoteText k ++ ": " ++ pretty (depth + 1) v
      ++ prettyMembers depth ms

end

/-- The whole document, without a final line feed. -/
def render (v : Json) : String :=
  pretty 0 v

end ComputeTopology.Json
