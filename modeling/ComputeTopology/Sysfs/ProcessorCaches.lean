import ComputeTopology.Hardware.Cache
import ComputeTopology.Layout
import ComputeTopology.Sysfs.Content
import ComputeTopology.Sysfs.Numbered
import ComputeTopology.Sysfs.ProcessorSet
/-!
# Caches of processors

A CPU node for which the driver reports no caches takes them from its processors: the directories
`cpu<M>/cache/index<K>` of its memory node or, for node 0 of a machine without memory nodes, of the
tree of all processors. A cache that several processors share is listed once, under the first
processor of its list.
-/

namespace ComputeTopology.Sysfs

/-- A size with the suffix `K` or `M`, or in bytes, in units of 1024 bytes. -/
def readSizeKb? (cs : List Char) : Option UInt32 :=
  let cs := Text.trim cs
  match cs.getLast? with
  | some 'K' => Text.readUInt32? cs.dropLast
  | some 'M' =>
    (Text.readUInt32? cs.dropLast).bind fun n =>
      if n.toNat * 1024 < UInt32.size then some (n * 1024) else none
  | _ => (Text.readUInt32? cs).map (· / 1024)

/-- What a cache of this type holds. -/
def kindsOfType (type : String) : CacheKinds :=
  let held :=
    if type = "Data" then CacheKinds.dataBit
    else if type = "Instruction" then CacheKinds.instructionBit
    else if type = "Unified" then CacheKinds.dataBit ||| CacheKinds.instructionBit
    else 0
  ⟨held ||| CacheKinds.cpuBit⟩

variable {m : Type → Type} [Monad m]

/-- Reads a file whose whole content `parse` takes; `what` names the content in a fault. -/
def readWith {α : Type} (fs : Files m) (path what : String) (parse : List Char → Option α) :
    ExceptT FileFault m α := do
  let content ← readContent fs path
  match parse content.toList with
  | some a => return a
  | none => throw (.malformed path ("bad " ++ what ++ " '" ++ content ++ "'"))

/-- The cache in an index directory of processor `cpu`, unless it belongs to another processor. -/
def readIndex (fs : Files m) (table : List Processor) (cpu : UInt32) (directory : String) :
    ExceptT FileFault m (Option Cache) := do
  let file (name : String) : String := joinPath directory name
  let owner ← readWith fs (file "shared_cpu_list") "CPU list" ProcessorSet.firstOfList?
  if owner ≠ cpu then return none
  let type ← readContent fs (file "type")
  let sizeKb ← readWith fs (file "size") "cache size" readSizeKb?
  let sharing ← readWith fs (file "shared_cpu_map") "CPU mask" ProcessorSet.ofMask?
  let level ← readUInt32 fs (file "level")
  let lineSize ← readUInt32 fs (file "coherency_line_size")
  let linesPerTag ← readUInt32 fs (file "physical_line_partition")
  let associativity ← readUInt32 fs (file "ways_of_associativity")
  return some {
    processorIdLow := Processor.apicIdOf table cpu
    level, sizeKb, lineSize, linesPerTag, associativity
    kinds := kindsOfType type
    siblings := ProcessorSet.siblings table sharing }

/-- The caches of one processor's directory. -/
def readProcessor (fs : Files m) (table : List Processor) (cpu : UInt32) (directory : String) :
    ExceptT FileFault m (List Cache) := do
  let caches := joinPath directory "cache"
  if ← fs.isDirectory caches then
    let indices ← numberedDirectories fs caches "index"
    return (← indices.mapM fun (_, index) => readIndex fs table cpu index).filterMap id
  else return []

/-- The directory with the processors of a node, if there is one. -/
def processorDirectory (fs : Files m) (layout : Layout) (node : UInt32) : m (Option String) := do
  let own := joinPath layout.memoryNodes ("node" ++ Text.decimal node.toNat)
  if ← fs.isDirectory own then return some own
  else if node = 0 then return some layout.processors
  else return none

/-- The caches of a node, by processor and then by index. -/
def readProcessorCaches (fs : Files m) (layout : Layout) (node : UInt32)
    (table : List Processor) : ExceptT FileFault m (List Cache) := do
  match ← ExceptT.lift (processorDirectory fs layout node) with
  | none => return []
  | some directory =>
    let cpus ← numberedDirectories fs directory "cpu"
    return (← cpus.mapM fun (cpu, path) => readProcessor fs table cpu path).flatten

end ComputeTopology.Sysfs
