import ComputeTopology.Json.Basic
/-!
# Values as JSON

A `Codec` writes a value as JSON and reads it back, refusing what stands for no value of the type.

A record is described by its list of fields. It is written as an object with every field in order.
It is read from an object in which no field occurs twice, whose other members are passed over, and
in which a missing field keeps the value of the record it is read onto; or from an array with the
fields in order, of which only trailing ones may be missing. A `strict` record needs every field.
-/

namespace ComputeTopology

structure Codec (α : Type) where
  write : α → Json
  read : Json → Option α

/-- One field of a record: its name, how it is written, and the record after reading it. -/
structure Field (ρ : Type) where
  name : String
  write : ρ → Json
  read : Json → ρ → Option ρ

namespace Codec

variable {α ρ : Type}

def bool : Codec Bool where
  write := .bool
  read
    | .bool b => some b
    | _ => none

def string : Codec String where
  write := .text
  read
    | .string t => t
    | _ => none

/-- A natural number below `bound`. -/
def readBelow (bound : Nat) : Json → Option Nat
  | .integer (.ofNat n) => if n < bound then some n else none
  | _ => none

def uint8 : Codec UInt8 where
  write n := .integer n.toNat
  read j := (readBelow UInt8.size j).map .ofNat

def uint16 : Codec UInt16 where
  write n := .integer n.toNat
  read j := (readBelow UInt16.size j).map .ofNat

def uint32 : Codec UInt32 where
  write n := .integer n.toNat
  read j := (readBelow UInt32.size j).map .ofNat

def uint64 : Codec UInt64 where
  write n := .integer n.toNat
  read j := (readBelow UInt64.size j).map .ofNat

def int32 : Codec Int32 where
  write n := .integer n.toInt
  read
    | .integer n =>
      if Int32.minValue.toInt ≤ n ∧ n ≤ Int32.maxValue.toInt then some (.ofInt n) else none
    | _ => none

def list (c : Codec α) : Codec (List α) where
  write xs := .array (xs.map c.write)
  read
    | .array items => items.mapM c.read
    | _ => none

/-- `null` for a missing value. -/
def option (c : Codec α) : Codec (Option α) where
  write
    | none => .null
    | some a => c.write a
  read
    | .null => some none
    | j => (c.read j).map some

/-- A choice among named values, written as the name. The name may also stand alone in an object,
with `null` beside it. -/
def choice (names : List (String × α)) (nameOf : α → String) : Codec α where
  write a := .text (nameOf a)
  read
    | .string (some name) => names.lookup name
    | .object [(some name, .null)] => names.lookup name
    | _ => none

/-- A choice among named values and numbers without a name; such a number is written as an object
with the one member `Unknown`. -/
def choiceOrNumber (names : List (String × α)) (nameOf : α → String ⊕ UInt32)
    (unknown : UInt32 → α) : Codec α where
  write a :=
    match nameOf a with
    | .inl name => .text name
    | .inr n => .ofMembers [("Unknown", uint32.write n)]
  read
    | .string (some name) => names.lookup name
    | .object [(some "Unknown", j)] => (uint32.read j).map unknown
    | .object [(some name, .null)] => names.lookup name
    | _ => none

end Codec

namespace Field

variable {α ρ : Type}

def of (name : String) (c : Codec α) (get : ρ → α) (set : α → ρ → ρ) : Field ρ where
  name := name
  write r := c.write (get r)
  read j r := (c.read j).map (set · r)

/-- Reads the fields from the members of an object; a missing one is an error if `strict`. -/
def readMembers (strict : Bool) (members : List (Option String × Json)) :
    List (Field ρ) → ρ → Option ρ
  | [], r => some r
  | f :: fs, r =>
    match members.filter (·.1 == some f.name) with
    | [] => if strict then none else readMembers strict members fs r
    | [(_, j)] => (f.read j r).bind (readMembers strict members fs)
    | _ => none

/-- Reads the fields from the entries of an array; a missing one is an error if `strict`. -/
def readItems (strict : Bool) : List (Field ρ) → List Json → ρ → Option ρ
  | [], [], r => some r
  | [], _ :: _, _ => none
  | _ :: _, [], r => if strict then none else some r
  | f :: fs, j :: js, r => (f.read j r).bind (readItems strict fs js)

end Field

/-- A record read onto `start`. -/
def Codec.record {ρ : Type} (fields : List (Field ρ)) (start : ρ) (strict : Bool := false) :
    Codec ρ where
  write r := .ofMembers (fields.map fun f => (f.name, f.write r))
  read
    | .object members =>
      if members.all (·.1.isSome) then Field.readMembers strict members fields start else none
    | .array items => Field.readItems strict fields items start
    | _ => none

end ComputeTopology
