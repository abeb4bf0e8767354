import ComputeTopology.Json.Codec
/-!
# The platform

The summary of a whole machine: how many nodes it has and which platform it is.
-/

namespace ComputeTopology

structure Platform where
  nodes : UInt32 := 0
  oem : UInt32 := 0
  id : UInt32 := 0
  revision : UInt32 := 0
  deriving DecidableEq, Inhabited

def Platform.codec : Codec Platform :=
  .record [
    .of "num_nodes" .uint32 (·.nodes) fun x p => { p with nodes := x },
    .of "platform_oem" .uint32 (·.oem) fun x p => { p with oem := x },
    .of "platform_id" .uint32 (·.id) fun x p => { p with id := x },
    .of "platform_rev" .uint32 (·.revision) fun x p => { p with revision := x }] {}

end ComputeTopology
