import ComputeTopology.Json.Token
/-!
# Reading JSON

Tokens are put together by a stack of the arrays and objects that are still open. A document is
one value; nothing may follow it, commas stand between entries only, and nesting has no limit.
-/

namespace ComputeTopology.Json

/-- A container that is still open, its entries in reverse. -/
inductive Frame
  | array (items : List Json)
  | object (members : List (Option String × Json))
  /-- An object whose next value belongs to `name`. -/
  | member (members : List (Option String × Json)) (name : Option String)

/-- What may come next. -/
inductive Phase
  | value
  | itemOrClose
  | name
  | nameOrClose
  | colon (name : Option String)
  | commaOrClose
  | ended (document : Json)

structure Assembly where
  open_ : List Frame := []
  phase : Phase := .value

namespace Assembly

/-- Hands a finished value to the innermost open container. -/
def deliver (v : Json) : List Frame → Option Assembly
  | [] => some ⟨[], .ended v⟩
  | .array items :: fs => some ⟨.array (v :: items) :: fs, .commaOrClose⟩
  | .member members name :: fs => some ⟨.object ((name, v) :: members) :: fs, .commaOrClose⟩
  | .object _ :: _ => none

/-- A token where a value is due. -/
def opening (fs : List Frame) : Token → Option Assembly
  | .scalar v => deliver v fs
  | .openArray => some ⟨.array [] :: fs, .itemOrClose⟩
  | .openObject => some ⟨.object [] :: fs, .nameOrClose⟩
  | _ => none

def closing : List Frame → Token → Option Assembly
  | .array items :: fs, .closeArray => deliver (.array items.reverse) fs
  | .object members :: fs, .closeObject => deliver (.object members.reverse) fs
  | _, _ => none

def step (a : Assembly) (t : Token) : Option Assembly :=
  match a.phase, t with
  | .value, t => opening a.open_ t
  | .itemOrClose, .closeArray => closing a.open_ t
  | .itemOrClose, t => opening a.open_ t
  | .nameOrClose, .closeObject => closing a.open_ t
  | .nameOrClose, .scalar (.string k) | .name, .scalar (.string k) => some ⟨a.open_, .colon k⟩
  | .colon k, .colon =>
    match a.open_ with
    | .object members :: fs => some ⟨.member members k :: fs, .value⟩
    | _ => none
  | .commaOrClose, .comma =>
    match a.open_ with
    | .array items :: fs => some ⟨.array items :: fs, .value⟩
    | .object members :: fs => some ⟨.object members :: fs, .name⟩
    | _ => none
  | .commaOrClose, t => closing a.open_ t
  | _, _ => none

end Assembly

def ofTokens? (ts : List Token) : Option Json :=
  (ts.foldlM Assembly.step {}).bind fun a =>
    match a.phase with
    | .ended v => some v
    | _ => none

/-- The document that a text holds, if it is JSON. -/
def parse? (s : String) : Option Json :=
  (tokens s.toList).bind ofTokens?

end ComputeTopology.Json
