import ComputeTopology.CommandLine.Arguments
import ComputeTopology.Json.Printer
import ComputeTopology.Json.Reader
import ComputeTopology.Replay
import ComputeTopology.Report.Listing
import ComputeTopology.Report.WeightMatrix
import ComputeTopology.Settings
import ComputeTopology.Sysfs.Machine
/-!
# The program

What a command line does, given access to files and a way to wait: the text it prints, the report
of its failure, and its exit code, which is 0 for success, 1 for a failure and 2 for a command line
that asks for nothing the program does.
-/

namespace ComputeTopology.CommandLine

structure Outcome where
  code : UInt32 := 0
  printed : String := ""
  reported : String := ""
  deriving DecidableEq

/-- What went wrong: a message of its own, or what the program was at and the cause. -/
structure Failure where
  message : String
  cause : Option String := none
  deriving DecidableEq

namespace Failure

/-- The text with every line moved in by four. -/
def moveIn (text : String) : String :=
  "    " ++ String.ofList (text.toList.flatMap fun c => if c = '\n' then "\n    ".toList else [c])

def report (f : Failure) : String :=
  "Error: " ++ f.message ++
    match f.cause with
    | none => "\n"
    | some cause => "\n\nCaused by:\n" ++ moveIn cause ++ "\n"

end Failure

def version : String :=
  "kfd-topo 0.1.0\n"

def usage : String :=
  "Inspect and capture the KFD CPU/GPU topology\n\n"
    ++ "Usage: kfd-topo [OPTIONS] <COMMAND>\n\n"
    ++ "Commands:\n"
    ++ "  show        Take a snapshot and print it [--json] [--replay FILE]\n"
    ++ "  links       Print the link weight matrix [--replay FILE]\n"
    ++ "  generation  Print the current topology generation counter\n"
    ++ "  capture     Write the live topology as replayable JSON --output FILE\n\n"
    ++ "Options:\n"
    ++ "  -c, --config FILE  A TOML file with paths and retry policy\n"
    ++ "  -v, --verbose      Accepted for scripts that ask for more logging\n"
    ++ "  -h, --help         Print help\n"
    ++ "  -V, --version      Print version\n"

variable {m : Type → Type} [Monad m]

/-- The settings in a file, or the usual ones. -/
def settingsFrom (fs : Files m) : Option String → ExceptT Failure m Settings
  | none => return {}
  | some path => do
    match ← ExceptT.lift (Settings.read fs path) with
    | .ok settings => return settings
    | .error e => throw ⟨"loading config " ++ path, e.message⟩

def readCapture (fs : Files m) (path : String) : ExceptT Failure m Capture := do
  match ← fs.readText path with
  | .error cause => throw ⟨"reading replay file " ++ path, cause.message⟩
  | .ok text =>
    match (Json.parse? text).bind Capture.codec.read with
    | some capture => return capture
    | none => throw ⟨"parsing replay file " ++ path, some "not a captured topology"⟩

/-- Surveys the driver's tree. -/
def surveyTree (fs : Files m) (wait : UInt64 → m Unit) (settings : Settings) :
    m (Except Fault (Snapshot × Tally)) := do
  let survey := Survey.settled settings.backoff
  let (found, _) ← (survey.run (Sysfs.machine fs settings.layout wait)).run []
  return found.bind fun
    | some found => .ok found
    | none => .error (.inconsistent settings.backoff.attempts)

/-- A snapshot of the machine, or of the capture in a file. -/
def survey (fs : Files m) (wait : UInt64 → m Unit) (settings : Settings)
    (replay : Option String) : ExceptT Failure m (Snapshot × Tally) := do
  let found ←
    match replay with
    | some path => do pure ((← readCapture fs path).survey settings.backoff)
    | none => ExceptT.lift (surveyTree fs wait settings)
  match found with
  | .ok found => return found
  | .error e => throw ⟨"taking topology snapshot", e.message⟩

/-- What a task prints. -/
def perform (fs : Files m) (wait : UInt64 → m Unit) (settings : Settings) :
    Task → ExceptT Failure m String
  | .listing json replay => do
    let (snapshot, tally) ← survey fs wait settings replay
    if json then return (Snapshot.codec.write snapshot).render ++ "\n"
    else return Listing.render snapshot tally
  | .weights replay => do
    let (snapshot, _) ← survey fs wait settings replay
    return WeightMatrix.render snapshot
  | .generation => do
    let (generation, _) ← ExceptT.lift (Sysfs.answer fs settings.layout [] .generation)
    match generation with
    | .ok generation => return Text.decimal generation.toNat ++ "\n"
    | .error e => throw ⟨e.message, none⟩
  | .capture output => do
    let (snapshot, _) ← survey fs wait settings none
    let text := (Capture.codec.write (.ofSnapshot snapshot)).render
    match ← fs.writeText output text with
    | .ok () => return snapshot.summary ++ "\nWritten to " ++ output ++ "\n"
    | .error cause => throw ⟨"writing " ++ output, cause.message⟩

/-- Runs the program on its arguments. -/
def run (fs : Files m) (wait : UInt64 → m Unit) (arguments : List String) : m Outcome := do
  match parse? arguments with
  | none => return { code := 2, reported := usage }
  | some .help => return { printed := usage }
  | some .version => return { printed := version }
  | some (.run path task) =>
    match ← (do perform fs wait (← settingsFrom fs path) task : ExceptT Failure m String).run with
    | .ok text => return { printed := text }
    | .error failure => return { code := 1, reported := failure.report }

end ComputeTopology.CommandLine
