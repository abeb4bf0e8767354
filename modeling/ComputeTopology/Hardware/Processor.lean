import ComputeTopology.Json.Codec
/-!
# Processors

A logical processor as the processor table lists it: its number, its APIC id, and the name of its
model. A node is named after the processor that carries the id of the node's first core.
-/

namespace ComputeTopology

structure Processor where
  number : UInt32 := 0
  apicId : UInt32 := 0
  model : String := ""
  deriving DecidableEq, Inhabited

namespace Processor

/-- The APIC id of processor `number`: that of its first entry, or the number itself. -/
def apicIdOf (table : List Processor) (number : UInt32) : UInt32 :=
  ((table.find? (·.number = number)).map (·.apicId)).getD number

def codec : Codec Processor :=
  .record [
    .of "proc_num" .uint32 (·.number) fun x p => { p with number := x },
    .of "apicid" .uint32 (·.apicId) fun x p => { p with apicId := x },
    .of "model_name" .string (·.model) fun x p => { p with model := x }] {}

end Processor

end ComputeTopology
