import ComputeTopology.Fault
import ComputeTopology.Hardware.Node
import ComputeTopology.Hardware.Platform
/-!
# Snapshots

A whole topology as it was under one generation: the platform and the nodes in the order of their
indices. Questions that name a node outside the snapshot are answered by a fault which quotes the
platform's node count.
-/

namespace ComputeTopology

structure Snapshot where
  platform : Platform
  nodes : List Node
  generation : UInt32
  deriving DecidableEq, Inhabited

namespace Snapshot

def node (s : Snapshot) (i : UInt32) : Except Fault Node :=
  match s.nodes[i.toNat]? with
  | some n => .ok n
  | none => .error (.invalidNode i s.platform.nodes)

/-- The first link from `source` to `target`, if both are there. -/
def linkBetween? (s : Snapshot) (source target : UInt32) : Option Link :=
  s.nodes[source.toNat]?.bind (·.linkTo? target)

/-- The indices of the nodes that `pick` picks. -/
def indicesWhere (pick : Node → Bool) (nodes : List Node) : List Nat :=
  nodes.zipIdx.filterMap fun (n, i) => if pick n then some i else none

def gpuNodes (s : Snapshot) : List Nat :=
  indicesWhere (·.isGpu) s.nodes

def cpuNodes (s : Snapshot) : List Nat :=
  indicesWhere (! ·.isGpu) s.nodes

def totalLinks (s : Snapshot) : Nat :=
  (s.nodes.flatMap (·.links)).length

def totalIndirectLinks (s : Snapshot) : Nat :=
  (s.nodes.flatMap (·.indirectLinks)).length

/-- One line, such as `Topology gen 7: 3 nodes (1 CPU, 2 GPU), 6 links (2 indirect)`. -/
def summary (s : Snapshot) : String :=
  let gpus := s.gpuNodes.length
  "Topology gen " ++ Text.decimal s.generation.toNat ++ ": "
    ++ Text.decimal s.nodes.length ++ " nodes ("
    ++ Text.decimal (s.nodes.length - gpus) ++ " CPU, " ++ Text.decimal gpus ++ " GPU), "
    ++ Text.decimal s.totalLinks ++ " links ("
    ++ Text.decimal s.totalIndirectLinks ++ " indirect)"

def codec : Codec Snapshot :=
  .record [
    .of "system" Platform.codec (·.platform) fun x s => { s with platform := x },
    .of "nodes" (.list Node.codec) (·.nodes) fun x s => { s with nodes := x },
    .of "generation" .uint32 (·.generation) fun x s => { s with generation := x }]
    ⟨{}, [], 0⟩ true

end Snapshot

end ComputeTopology
