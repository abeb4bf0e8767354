import ComputeTopology.Backoff
import ComputeTopology.Layout
import ComputeTopology.Toml.Printer
import ComputeTopology.Toml.Reader
/-!
# Settings

The layout and the backoff, as a settings file gives them: two tables `paths` and `retry`, in which
every key may be missing and then has its usual value.
-/

namespace ComputeTopology

structure Settings where
  layout : Layout := {}
  backoff : Backoff := {}
  deriving DecidableEq, Inhabited

inductive SettingsFault
  | unreadable (path : String) (cause : OsError)
  /-- The text is no TOML, or has values of other types. -/
  | unparsable
  /-- A number that TOML cannot write. -/
  | unwritable
  deriving DecidableEq

def SettingsFault.message : SettingsFault → String
  | unreadable path cause =>
    "configuration error: cannot read config '" ++ path ++ "': " ++ cause.message
  | unparsable => "configuration error: TOML parse error"
  | unwritable => "configuration error: TOML serialise error"

namespace Settings

def codec : Codec Settings :=
  .record [
    .of "paths" Layout.codec (·.layout) fun x s => { s with layout := x },
    .of "retry" Backoff.codec (·.backoff) fun x s => { s with backoff := x }] {}

/-- Of an array in place of a table with `width` fields, the entries that belong to fields. -/
def cutSurplus (width : Nat) : Json → Json
  | .array items => .array (items.take width)
  | j => j

/-- The settings in a document. A table may be given as an array of its fields, and entries beyond
the last field are passed over. -/
def ofDocument (document : Toml) : Option Settings :=
  match document.toJson with
  | .object members =>
    codec.read <| .object <| members.map fun (name, j) =>
      if name = some "paths" then (name, cutSurplus 5 j)
      else if name = some "retry" then (name, cutSurplus 3 j)
      else (name, j)
  | _ => none

def ofToml (text : String) : Except SettingsFault Settings :=
  match (Toml.parse? text).bind ofDocument with
  | some s => .ok s
  | none => .error .unparsable

/-- The two tables with all their lines. -/
def tables (s : Settings) : List (String × List (String × Toml.Entry)) :=
  [("paths", [
      ("kfd_topology", .text s.layout.topology),
      ("system_nodes", .text s.layout.memoryNodes),
      ("system_cpus", .text s.layout.processors),
      ("cpuinfo", .text s.layout.processorTable),
      ("dri", .text s.layout.renderDevices)]),
    ("retry", [
      ("max_attempts", .number s.backoff.maxAttempts.toNat),
      ("initial_backoff_ms", .number s.backoff.initialDelay.toNat),
      ("max_backoff_ms", .number s.backoff.maxDelay.toNat)])]

def toToml (s : Settings) : Except SettingsFault String :=
  match Toml.render s.tables with
  | some text => .ok text
  | none => .error .unwritable

variable {m : Type → Type} [Monad m]

def read (fs : Files m) (path : String) : m (Except SettingsFault Settings) := do
  match ← fs.readText path with
  | .ok text => return ofToml text
  | .error cause => return .error (.unreadable path cause)

end Settings

end ComputeTopology
