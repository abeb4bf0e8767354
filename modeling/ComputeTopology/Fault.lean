import ComputeTopology.Text.Numeral
/-!
# Faults

Why a survey, or a question about a snapshot, has no answer.
-/

namespace ComputeTopology

inductive Fault
  /-- There was no room for `what`. -/
  | outOfMemory (what : String)
  | unavailable (resource detail : String)
  | notSupported (resource : String)
  /-- The generation changed in every one of the attempts. -/
  | inconsistent (attempts : UInt32)
  | invalidNode (node nodes : UInt32)
  | noSnapshot
  deriving DecidableEq, Inhabited

namespace Fault

def message : Fault → String
  | outOfMemory what => "out of memory while allocating " ++ what
  | unavailable resource detail => "resource unavailable: " ++ resource ++ ": " ++ detail
  | notSupported resource => "not supported: " ++ resource
  | inconsistent attempts =>
    "topology changed during enumeration (" ++ Text.decimal attempts.toNat ++ " attempts)"
  | invalidNode node nodes =>
    "invalid node " ++ Text.decimal node.toNat ++ ": snapshot has " ++ Text.decimal nodes.toNat
      ++ " nodes"
  | noSnapshot => "no topology snapshot has been taken"

end Fault

end ComputeTopology
