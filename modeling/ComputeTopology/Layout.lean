import ComputeTopology.Files.Access
import ComputeTopology.Json.Codec
/-!
# Layout

Where the trees and files are that a topology is read from.
-/

namespace ComputeTopology

structure Layout where
  /-- The driver's tree. -/
  topology : String := "/sys/devices/virtual/kfd/kfd/topology"
  /-- The tree of memory nodes, with the processors of each. -/
  memoryNodes : String := "/sys/devices/system/node"
  /-- The tree of all processors, for a machine without memory nodes. -/
  processors : String := "/sys/devices/system/cpu"
  processorTable : String := "/proc/cpuinfo"
  /-- The directory of the render devices. -/
  renderDevices : String := "/dev/dri"
  deriving DecidableEq, Inhabited

namespace Layout

/-- A path below another root than the usual one. -/
def rebase (root path : String) : String :=
  joinPath root (String.ofList (path.toList.dropWhile (· = '/')))

/-- The usual layout below `root`. -/
def under (root : String) : Layout :=
  let usual : Layout := {}
  { topology := rebase root usual.topology
    memoryNodes := rebase root usual.memoryNodes
    processors := rebase root usual.processors
    processorTable := rebase root usual.processorTable
    renderDevices := rebase root usual.renderDevices }

/-- The directory of the driver's nodes. -/
def nodes (l : Layout) : String :=
  joinPath l.topology "nodes"

def codec : Codec Layout :=
  .record [
    .of "kfd_topology" .string (·.topology) fun x l => { l with topology := x },
    .of "system_nodes" .string (·.memoryNodes) fun x l => { l with memoryNodes := x },
    .of "system_cpus" .string (·.processors) fun x l => { l with processors := x },
    .of "cpuinfo" .string (·.processorTable) fun x l => { l with processorTable := x },
    .of "dri" .string (·.renderDevices) fun x l => { l with renderDevices := x }] {}

end Layout

end ComputeTopology
