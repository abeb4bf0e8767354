import ComputeTopology.Json.Codec
import Mathlib.Tactic.Common

/-!
# Members left out of a document

An omission says which members are left out of the objects in a JSON value (`Json.without`), each
by the path that leads to it. Where nothing is left out the value stays as it is
(`Json.without_of_idle`).
-/

namespace ComputeTopology

/-- A step from a JSON value to one that it contains. -/
inductive Step
  | field (name : String)
  | item (index : Nat)
  deriving DecidableEq

/-- Whether the member at the end of a path is left out. -/
abbrev Omission := List Step → Bool

namespace Omission

variable {D : Omission} {name : String}

/-- What is left out of the value of this member. -/
def inside (D : Omission) (name : String) : Omission := fun path => D (.field name :: path)

/-- What is left out of this item of an array. -/
def item (D : Omission) (index : Nat) : Omission := fun path => D (.item index :: path)

def omits (D : Omission) (name : String) : Bool :=
  D [.field name]

/-- The value of a field, or its default if the field is left out. -/
def keep {α : Type} (D : Omission) (name : String) (default value : α) : α :=
  bif D.omits name then default else value

/-- Nothing is left out. -/
def none : Omission := fun _ => false

/-- No member is left out, at any depth. -/
def Idle (D : Omission) : Prop :=
  ∀ path name, D (path ++ [.field name]) = false

theorem idle_none : none.Idle := fun _ _ => rfl

theorem Idle.inside (h : D.Idle) (name : String) : (D.inside name).Idle := fun path =>
  h (.field name :: path)

theorem Idle.item (h : D.Idle) (index : Nat) : (D.item index).Idle := fun path =>
  h (.item index :: path)

theorem Idle.omits (h : D.Idle) (name : String) : D.omits name = false :=
  h [] name

end Omission

namespace Json

mutual

def without (D : Omission) : Json → Json
  | .array items => .array (withoutItems D 0 items)
  | .object members => .object (withoutMembers D members)
  | j => j

def withoutItems (D : Omission) (index : Nat) : List Json → List Json
  | [] => []
  | j :: js => j.without (D.item index) :: withoutItems D (index + 1) js

def withoutMembers (D : Omission) : List (Option String × Json) → List (Option String × Json)
  | [] => []
  | (none, j) :: members => (none, j) :: withoutMembers D members
  | (some name, j) :: members =>
    if D.omits name then withoutMembers D members
    else (some name, j.without (D.inside name)) :: withoutMembers D members

end

mutual

theorem without_of_idle {D : Omission} (h : D.Idle) : ∀ j : Json, j.without D = j
  | .array items => by rw [without, withoutItems_of_idle h]
  | .object members => by rw [without, withoutMembers_of_idle h]
  | .null | .bool _ | .integer _ | .real _ | .string _ => rfl

theorem withoutItems_of_idle {D : Omission} (h : D.Idle) :
    ∀ {index : Nat} (items : List Json), withoutItems D index items = items
  | _, [] => rfl
  | index, j :: js => by rw [withoutItems, without_of_idle (h.item index), withoutItems_of_idle h]

theorem withoutMembers_of_idle {D : Omission} (h : D.Idle) :
    ∀ members : List (Option String × Json), withoutMembers D members = members
  | [] => rfl
  | (none, j) :: members => by rw [withoutMembers, withoutMembers_of_idle h]
  | (some name, j) :: members => by
    rw [withoutMembers, if_neg (by simp [h.omits]), without_of_idle (h.inside name),
      withoutMembers_of_idle h]

end

end Json

end ComputeTopology
