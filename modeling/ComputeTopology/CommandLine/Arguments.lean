/-!
# Arguments

    kfd-topo [-c FILE] [-v]... show [--json] [--replay FILE]
                             | links [--replay FILE]
                             | generation
                             | capture -o FILE

Arguments are read from left to right. The first word names the task, and what follows belongs to
it. The options `-c` and `-v` may stand before or behind the task's name, and of two settings files
the one behind the name counts. Within either part no other option than `-v` may stand twice.

A value follows its option as the next argument, which then must not look like an option itself, or
is attached: `--config=FILE`, `-cFILE` or `-c=FILE`. It is never empty. One-letter options may be
run together, as in `-vvc FILE`. Nothing may follow the argument `--`. Help and version are given
as soon as they are asked for, whatever comes after them.
-/

namespace ComputeTopology.CommandLine

inductive Task
  | listing (json : Bool) (replay : Option String)
  | weights (replay : Option String)
  | generation
  | capture (output : String)
  deriving DecidableEq

/-- What a command line asks for. -/
inductive Request
  | run (settings : Option String) (task : Task)
  | help
  | version
  deriving DecidableEq

/-- The part of the command line that an argument stands in. -/
inductive Part
  /-- Before the task's name. -/
  | program
  | listing
  | weights
  | generation
  | capture
  /-- Behind the word `help`, which takes at most one word more. -/
  | help (full : Bool)
  deriving DecidableEq

inductive Flag
  | settings
  | verbose
  | json
  | replay
  | output
  | help
  | version
  deriving DecidableEq

namespace Flag

def ofName? (name : String) : Option Flag :=
  [("config", settings), ("verbose", verbose), ("json", json), ("replay", replay),
    ("output", output), ("help", help), ("version", version)].lookup name

def ofLetter? (letter : Char) : Option Flag :=
  [('c', settings), ('v', verbose), ('o', output), ('h', help), ('V', version)].lookup letter

def takesValue : Flag → Bool
  | settings | replay | output => true
  | verbose | json | help | version => false

end Flag

namespace Part

/-- The part that a word opens. -/
def ofWord? (word : String) : Option Part :=
  [("show", listing), ("links", weights), ("generation", generation), ("capture", capture),
    ("help", help false)].lookup word

def allows (p : Part) : Flag → Bool
  | .settings | .verbose | .help => true
  | .version => p = program
  | .json => p = listing
  | .replay => p = listing || p = weights
  | .output => p = capture

end Part

/-- The options of one part. -/
structure Options where
  settings : Option String := none
  json : Bool := false
  replay : Option String := none
  output : Option String := none
  deriving DecidableEq

/-- Why no more arguments are read. -/
inductive Stop
  | misuse
  | asked (request : Request)
  deriving DecidableEq

structure Parser where
  part : Part := .program
  /-- The settings file named before the task. -/
  outer : Option String := none
  options : Options := {}
  /-- The option whose value is the next argument. -/
  awaiting : Option Flag := none
  /-- The argument `--` has been read. -/
  closed : Bool := false
  deriving DecidableEq

/-- Fills in a value that was not given before. -/
def once (old : Option String) (value : String) : Except Stop (Option String) :=
  if old.isSome || value.isEmpty then .error .misuse else .ok (some value)

namespace Parser

/-- Takes in an option without a value. -/
def takeFlag (p : Parser) : Flag → Except Stop Parser
  | .help => .error (.asked .help)
  | .version => .error (.asked .version)
  | .json =>
    if p.options.json then .error .misuse
    else .ok { p with options := { p.options with json := true } }
  | _ => .ok p

/-- Takes in an option with its value. -/
def takeValue (p : Parser) (value : String) : Flag → Except Stop Parser
  | .settings => do
    return { p with options := { p.options with settings := ← once p.options.settings value } }
  | .replay => do
    return { p with options := { p.options with replay := ← once p.options.replay value } }
  | .output => do
    return { p with options := { p.options with output := ← once p.options.output value } }
  | _ => .error .misuse

/-- Takes in an option; a value that is not attached is awaited. -/
def takeOption (p : Parser) (flag : Option Flag) (attached : Option String) :
    Except Stop Parser :=
  match flag with
  | none => .error .misuse
  | some flag =>
    if ! p.part.allows flag then .error .misuse
    else if flag.takesValue then
      match attached with
      | some value => p.takeValue value flag
      | none => .ok { p with awaiting := some flag }
    else if attached.isSome then .error .misuse
    else p.takeFlag flag

/-- The value attached to a one-letter option by what follows the letter. -/
def attached? : List Char → Option String
  | [] => none
  | '=' :: value => some (String.ofList value)
  | value => some (String.ofList value)

/-- Takes in one-letter options that are run together. -/
def takeLetters (p : Parser) : List Char → Except Stop Parser
  | [] => .ok p
  | letter :: rest =>
    match Flag.ofLetter? letter with
    | none => .error .misuse
    | some flag =>
      if flag.takesValue then p.takeOption (some flag) (attached? rest)
      else do takeLetters (← p.takeOption (some flag) none) rest

/-- Takes in an option with a long name, given without its two dashes. -/
def takeLong (p : Parser) (argument : List Char) : Except Stop Parser :=
  let name := Flag.ofName? (String.ofList (argument.takeWhile (· ≠ '=')))
  match argument.dropWhile (· ≠ '=') with
  | [] => p.takeOption name none
  | _ :: value => p.takeOption name (some (String.ofList value))

/-- Takes in an argument that is no option: the task's name, or the subject of `help`. -/
def takeWord (p : Parser) (word : String) : Except Stop Parser :=
  match p.part, Part.ofWord? word with
  | .program, some part =>
    .ok { p with part, outer := p.options.settings, options := {} }
  | _, _ => .error .misuse

def take (p : Parser) (argument : String) : Except Stop Parser :=
  if p.closed then .error .misuse
  else if let .help full := p.part then
    if full || (Part.ofWord? argument).isNone then .error .misuse
    else .ok { p with part := .help true }
  else
    match argument.toList, p.awaiting with
    | '-' :: _ :: _, some _ => .error .misuse
    | _, some flag => { p with awaiting := none }.takeValue argument flag
    | ['-', '-'], none => .ok { p with closed := true }
    | '-' :: '-' :: rest, none => p.takeLong rest
    | '-' :: letter :: rest, none => p.takeLetters (letter :: rest)
    | _, none => p.takeWord argument

/-- What the arguments read so far ask for. -/
def finish (p : Parser) : Except Stop Request :=
  if p.awaiting.isSome then .error .misuse
  else
    let run (task : Task) : Except Stop Request := .ok (.run (p.options.settings <|> p.outer) task)
    match p.part with
    | .program => .error .misuse
    | .help _ => .ok .help
    | .listing => run (.listing p.options.json p.options.replay)
    | .weights => run (.weights p.options.replay)
    | .generation => run .generation
    | .capture =>
      match p.options.output with
      | some output => run (.capture output)
      | none => .error .misuse

end Parser

/-- What a command line asks for, or `none` if it is not one of this program's. -/
def parse? (arguments : List String) : Option Request :=
  match (arguments.foldlM Parser.take {}).bind Parser.finish with
  | .ok request => some request
  | .error (.asked request) => some request
  | .error .misuse => none

end ComputeTopology.CommandLine
