import ComputeTopology.Sysfs.Fault
import ComputeTopology.Text.Numeral
/-!
# Numbered directories

The directories of a listing whose names are a fixed text and then a number, by increasing number.
Files and other names are passed over; a name that could not be read spoils the whole listing.
-/

namespace ComputeTopology.Sysfs

/-- What follows `lead` in a text that begins with it. -/
def afterLead? : (lead : List Char) → List Char → Option (List Char)
  | [], cs => some cs
  | _ :: _, [] => none
  | a :: lead, c :: cs => if a = c then afterLead? lead cs else none

/-- The number in a name that begins with `lead`. -/
def numberIn? (lead name : String) : Option UInt32 :=
  (afterLead? lead.toList name.toList).bind Text.readUInt32?

variable {m : Type → Type} [Monad m]

/-- The numbered directories in the order of the listing, with their paths. -/
def pickNumbered (fs : Files m) (directory lead : String) :
    List (Except OsError String) → ExceptT FileFault m (List (UInt32 × String))
  | [] => return []
  | .error cause :: _ => throw (.unreadable directory cause)
  | .ok name :: rest => do
    let path := joinPath directory name
    match numberIn? lead name with
    | none => pickNumbered fs directory lead rest
    | some n =>
      if ← fs.isDirectory path then
        return (n, path) :: (← pickNumbered fs directory lead rest)
      else pickNumbered fs directory lead rest

def numberedEntries (fs : Files m) (directory lead : String)
    (listing : List (Except OsError String)) : ExceptT FileFault m (List (UInt32 × String)) := do
  return (← pickNumbered fs directory lead listing).mergeSort fun a b => a.1 ≤ b.1

/-- The numbered directories in `directory`. -/
def numberedDirectories (fs : Files m) (directory lead : String) :
    ExceptT FileFault m (List (UInt32 × String)) := do
  match ← fs.list directory with
  | .ok listing => numberedEntries fs directory lead listing
  | .error cause => throw (.unreadable directory cause)

end ComputeTopology.Sysfs
