import ComputeTopology.Sysfs.ProcessorCaches
import ComputeTopology.Sysfs.ProcessorTable
import ComputeTopology.Sysfs.Records
/-!
# The driver's tree as a machine

The driver lists its nodes as numbered directories. A node is exposed if it is no GPU or its render
device can be opened; exposed nodes are numbered without gaps, in the order of the driver's numbers.
The exposure, a list of driver's numbers, is the machine's state: a probe for the platform builds it
anew, all other probes translate their index by it, and a link to a node that is not exposed counts
as not supported.

The exposure is kept as soon as it is built, even if the platform's own numbers then turn out to be
malformed.
-/

namespace ComputeTopology

/-- The driver's numbers of the exposed nodes, by index. -/
abbrev Exposure := List UInt32

namespace Exposure

def number (e : Exposure) (i : UInt32) : Except Fault UInt32 :=
  match e[i.toNat]? with
  | some id => .ok id
  | none => .error (.unavailable ("node " ++ Text.decimal i.toNat) "no such node")

/-- The index of the first node with this number. -/
def index? (e : Exposure) (id : UInt32) : Option UInt32 :=
  (e.idxOf? id).map .ofNat

end Exposure

namespace Sysfs

variable {m : Type → Type} [Monad m] (fs : Files m) (layout : Layout)

def nodeFile (layout : Layout) (id : UInt32) (name : String) : String :=
  joinPath (joinPath layout.nodes (Text.decimal id.toNat)) name

/-- The property sheet of an entry in one of a node's tables. -/
def entryFile (layout : Layout) (id : UInt32) (table : String) (i : UInt32) : String :=
  joinPath (joinPath (nodeFile layout id table) (Text.decimal i.toNat)) "properties"

/-- The GPU id of a node, zero if it has no such file. -/
def readGpuId (id : UInt32) : ExceptT FileFault m UInt32 :=
  ExceptT.mk do
    match ← (readUInt64 fs (nodeFile layout id "gpu_id")).run with
    | .ok n => return .ok n.toUInt32
    | .error (.missing _) => return .ok 0
    | .error e => return .error e

def isExposed (id : UInt32) : ExceptT FileFault m Bool := do
  if (← readGpuId fs layout id) = 0 then return true
  else
    let sheet ← PropertySheet.read fs (nodeFile layout id "properties")
    let minor ← ExceptT.mk (pure (sheet.uint32 "drm_render_minor"))
    fs.opens (joinPath layout.renderDevices ("renderD" ++ Text.decimal minor.toNat))

def readExposure : ExceptT FileFault m Exposure := do
  if ← fs.isDirectory layout.nodes then
    let numbered ← numberedDirectories fs layout.nodes ""
    (numbered.map (·.1)).filterM (isExposed fs layout)
  else throw (.missing layout.nodes)

/-- The platform, and the exposure after reading it. -/
def readPlatform (e : Exposure) : m (Except FileFault Platform × Exposure) := do
  let built : ExceptT FileFault m (PropertySheet × Exposure) := do
    let sheet ← PropertySheet.read fs (joinPath layout.topology "system_properties")
    return (sheet, ← readExposure fs layout)
  match ← built.run with
  | .error fault => return (.error fault, e)
  | .ok (sheet, e) => return (sheet.platform (.ofNat e.length), e)

/-- Reads a property sheet as a record. -/
def readSheet {α : Type} (path : String) (record : PropertySheet → Except FileFault α) :
    ExceptT FileFault m α := do
  let sheet ← PropertySheet.read fs path
  ExceptT.mk (pure (record sheet))

def readReport (id : UInt32) : ExceptT FileFault m Report := do
  let sheet ← PropertySheet.read fs (nodeFile layout id "properties")
  let gpuId ← readGpuId fs layout id
  ExceptT.mk (pure (sheet.report gpuId))

/-- The link that a sheet describes for node `i` with the driver's number `id`. -/
def linkOfSheet (e : Exposure) (i id : UInt32) (s : PropertySheet) :
    Except Fault (Option Link) := do
  let source ← (s.uint32 "node_from").mapError FileFault.toFault
  if source ≠ id then
    .error <| .unavailable s.path
      ("node_from " ++ Text.decimal source.toNat ++ " does not match node "
        ++ Text.decimal id.toNat)
  else
    match e.index? (← (s.uint32 "node_to").mapError FileFault.toFault) with
    | none => .ok none
    | some target => ((s.link i target).mapError FileFault.toFault).map some

def readLink (e : Exposure) (i id index : UInt32) (peer : Bool) :
    m (Except Fault (Option Link)) := do
  let path := entryFile layout id (if peer then "p2p_links" else "io_links") index
  match ← (PropertySheet.read fs path).run with
  | .ok sheet => return linkOfSheet e i id sheet
  | .error (.missing _) => return .ok none
  | .error fault => return .error fault.toFault

/-- Reads what belongs to node `i`, given its driver's number. -/
def ofNode {α : Type} (e : Exposure) (i : UInt32)
    (read : UInt32 → ExceptT FileFault m α) : m (Except Fault α) := do
  match e.number i with
  | .error fault => return .error fault
  | .ok id => return (← (read id).run).mapError FileFault.toFault

def ofTree {α : Type} (read : ExceptT FileFault m α) : m (Except Fault α) := do
  return (← read.run).mapError FileFault.toFault

/-- The answer to a probe, and the exposure after it. -/
def answer (e : Exposure) : (p : Probe) → m (Except Fault p.Answer × Exposure)
  | .generation => do
    let generation ← ofTree (readUInt64 fs (joinPath layout.topology "generation_id"))
    return (generation.map (·.toUInt32), e)
  | .platform => do
    let (platform, e) ← readPlatform fs layout e
    return (platform.mapError FileFault.toFault, e)
  | .report i => return (← ofNode e i (readReport fs layout), e)
  | .bank i b =>
    return (← ofNode e i fun id =>
      readSheet fs (entryFile layout id "mem_banks" b) (·.memoryBank), e)
  | .cache i c =>
    return (← ofNode e i fun id =>
      readSheet fs (entryFile layout id "caches" c) (·.cache), e)
  | .link i index peer => do
    match e.number i with
    | .error fault => return (.error fault, e)
    | .ok id => return (← readLink fs layout e i id index peer, e)
  | .processors => return (← ofTree (ProcessorTable.read fs layout.processorTable), e)
  | .processorCaches i table => return (← ofTree (readProcessorCaches fs layout i table), e)

def machine (wait : UInt64 → m Unit) : Machine (StateT Exposure m) where
  answer p := fun e => answer fs layout e p
  wait ms := StateT.lift (wait ms)

end Sysfs

end ComputeTopology
