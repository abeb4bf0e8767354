import ComputeTopology.Hardware.Processor
import ComputeTopology.Sysfs.Content
/-!
# The processor table

The table is a text of lines with a key and a value, a colon between them. Each line with the key
`processor` begins an entry; `model name` and `apicid` fill in the entry they follow, the last one
of each counts, and an entry without an `apicid` has its number for an APIC id. What stands before
the first entry, and lines without a colon, are passed over.
-/

namespace ComputeTopology.ProcessorTable

/-- The trimmed key and value of a line. -/
def keyValue? (line : List Char) : Option (List Char × List Char) :=
  (Text.cutAt? ':' line).map fun (key, value) => (Text.trim key, Text.trim value)

def number (path key : String) (value : List Char) : Except FileFault UInt32 :=
  match Text.readUInt32? value with
  | some n => .ok n
  | none =>
    .error (.malformed path (key ++ ": expected integer, got '" ++ String.ofList value ++ "'"))

/-- The entries after one more line; the last entry is in front. -/
def addLine (path : String) (entries : List Processor) (line : List Char) :
    Except FileFault (List Processor) :=
  match keyValue? line with
  | none => .ok entries
  | some (key, value) =>
    if key = "processor".toList then
      (number path "processor" value).map fun n => ⟨n, n, ""⟩ :: entries
    else
      match entries with
      | [] => .ok []
      | current :: earlier =>
        if key = "model name".toList then
          .ok ({ current with model := String.ofList value } :: earlier)
        else if key = "apicid".toList then
          (number path "apicid" value).map fun n => { current with apicId := n } :: earlier
        else .ok entries

def parse (path content : String) : Except FileFault (List Processor) :=
  ((Text.lines content.toList).foldlM (addLine path) []).map List.reverse

def read {m : Type → Type} [Monad m] (fs : Files m) (path : String) :
    ExceptT FileFault m (List Processor) := do
  ExceptT.mk (pure (parse path (← Sysfs.readContent fs path)))

end ComputeTopology.ProcessorTable
