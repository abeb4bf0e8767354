import ComputeTopology.Sysfs.Fault
import ComputeTopology.Text.Numeral
/-!
# The content of a file

A file of the driver's tree is read whole and trimmed. A path with nothing to be found is a fault
of its own; some readers take it for an answer.
-/

namespace ComputeTopology.Sysfs

variable {m : Type → Type} [Monad m]

def readContent (fs : Files m) (path : String) : ExceptT FileFault m String := do
  match ← fs.kind path with
  | none => throw (.missing path)
  | some _ =>
    match ← fs.readText path with
    | .ok text => return String.ofList (Text.trim text.toList)
    | .error cause => throw (.unreadable path cause)

def expectedInteger (path content : String) : FileFault :=
  .malformed path ("expected integer, got '" ++ content ++ "'")

/-- A number of 64 bits that fills a file. -/
def readUInt64 (fs : Files m) (path : String) : ExceptT FileFault m UInt64 := do
  let content ← readContent fs path
  match Text.readUInt64? content.toList with
  | some n => return n
  | none => throw (expectedInteger path content)

/-- A number of 32 bits that fills a file. -/
def readUInt32 (fs : Files m) (path : String) : ExceptT FileFault m UInt32 := do
  let content ← readContent fs path
  match Text.readUInt32? content.toList with
  | some n => return n
  | none => throw (expectedInteger path content)

end ComputeTopology.Sysfs
