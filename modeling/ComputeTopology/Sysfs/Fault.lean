import ComputeTopology.Fault
import ComputeTopology.Files.Access
/-!
# Faults in the driver's files

Why a file of the driver's tree could not be read. To a survey each of them is a resource that is
unavailable: the file's path, with the whole message as the detail.
-/

namespace ComputeTopology

inductive FileFault
  | unreadable (path : String) (cause : OsError)
  | malformed (path detail : String)
  | missing (path : String)
  deriving DecidableEq

namespace FileFault

def path : FileFault → String
  | unreadable path _ => path
  | malformed path _ => path
  | missing path => path

def message : FileFault → String
  | unreadable path cause => "failed to read " ++ path ++ ": " ++ cause.message
  | malformed path detail => "failed to parse value from " ++ path ++ ": " ++ detail
  | missing path => "sysfs path not found: " ++ path

def toFault (e : FileFault) : Fault :=
  .unavailable e.path e.message

end FileFault

end ComputeTopology
