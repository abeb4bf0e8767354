import ComputeTopology.Json.Basic
/-!
# TOML documents

The value that a TOML text stands for. Floats and dates are kept as they are written, since nothing
here computes with them.
-/

namespace ComputeTopology

inductive Toml
  | string (text : String)
  | integer (value : Int)
  | float (literal : List Char)
  | boolean (value : Bool)
  | dateTime (literal : List Char)
  | array (items : List Toml)
  | table (entries : List (String × Toml))

namespace Toml

mutual

/-- The value as a JSON document. A date is an object without members: it may stand where a table
is expected, and gives none of its fields. -/
def toJson : Toml → Json
  | .string text => .text text
  | .integer value => .integer value
  | .float literal => .real literal
  | .boolean value => .bool value
  | .dateTime _ => .object []
  | .array items => .array (itemsToJson items)
  | .table entries => .object (entriesToJson entries)

def itemsToJson : List Toml → List Json
  | [] => []
  | v :: vs => v.toJson :: itemsToJson vs

def entriesToJson : List (String × Toml) → List (Option String × Json)
  | [] => []
  | (name, v) :: rest => (some name, v.toJson) :: entriesToJson rest

end

end Toml

end ComputeTopology
