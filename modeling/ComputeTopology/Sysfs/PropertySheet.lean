import ComputeTopology.Sysfs.Content
/-!
# Property sheets

A property sheet has a key and a value on each line, apart by blanks; lines with fewer or more than
two words are passed over, and of several lines for one key the last one counts. A key that is
missing reads as zero or as an empty list; a value that is no number is a fault.
-/

namespace ComputeTopology

structure PropertySheet where
  /-- Where the sheet was read, for messages. -/
  path : String
  /-- Later lines first. -/
  entries : List (String × String)

namespace PropertySheet

/-- The key and the value on a line. -/
def entry? (line : List Char) : Option (String × String) :=
  match Text.words line with
  | [key, value] => some (String.ofList key, String.ofList value)
  | _ => none

def parse (path content : String) : PropertySheet where
  path := path
  entries := ((Text.lines content.toList).filterMap entry?).reverse

def read {m : Type → Type} [Monad m] (fs : Files m) (path : String) :
    ExceptT FileFault m PropertySheet := do
  return parse path (← Sysfs.readContent fs path)

def raw? (s : PropertySheet) (key : String) : Option String :=
  s.entries.lookup key

def get (s : PropertySheet) (key : String) : Except FileFault (Option UInt64) :=
  match s.raw? key with
  | none => .ok none
  | some value =>
    match Text.readUInt64? value.toList with
    | some n => .ok (some n)
    | none => .error (.malformed s.path (key ++ ": expected integer, got '" ++ value ++ "'"))

/-- Zero if the key is missing. -/
def uint64 (s : PropertySheet) (key : String) : Except FileFault UInt64 :=
  (s.get key).map (·.getD 0)

/-- The low 32 bits of the value. -/
def uint32 (s : PropertySheet) (key : String) : Except FileFault UInt32 :=
  (s.uint64 key).map (·.toUInt32)

/-- A number between the commas of a list. -/
def listEntry (path key : String) (item : List Char) : Except FileFault UInt32 :=
  match Text.readUInt32? (Text.trim item) with
  | some n => .ok n
  | none =>
    .error (.malformed path (key ++ ": bad list entry '" ++ String.ofList item ++ "'"))

/-- Numbers with commas between them; empty places are passed over. -/
def list (s : PropertySheet) (key : String) : Except FileFault (List UInt32) :=
  match s.raw? key with
  | none => .ok []
  | some value =>
    ((Text.fields (· = ',') value.toList).filter (· ≠ [])).mapM (listEntry s.path key)

end PropertySheet

end ComputeTopology
