import ComputeTopology.Text.Numeral
/-!
# JSON documents

The value that a JSON text stands for. Two literals are kept although they stand for no value that
the library can use, since a document may hold them in places nobody reads: a number that is not
written as a plain integer, and a string with half of a surrogate pair in it.
-/

namespace ComputeTopology

inductive Json
  | null
  | bool (value : Bool)
  | integer (value : Int)
  /-- A number with a fraction or an exponent, or the literal `-0`. -/
  | real (literal : List Char)
  /-- `none` for a literal that holds half of a surrogate pair and so stands for no text. -/
  | string (text : Option String)
  | array (items : List Json)
  | object (members : List (Option String × Json))

namespace Json

def text (s : String) : Json :=
  .string (some s)

/-- An object with the given members, in order. -/
def ofMembers (members : List (String × Json)) : Json :=
  .object (members.map fun (name, value) => (some name, value))

/-- The first member of this name. -/
def member? (name : String) : Json → Option Json
  | .object members => members.lookup (some name)
  | _ => none

end Json

end ComputeTopology
