import ComputeTopology.Snapshot
/-!
# The weight matrix

One row per node and one column per node, with the weight of the first link from the row's node to
the column's. An asterisk follows the weight of an indirect link, a dash stands where no link is,
and a node is at distance zero from itself. Cells are moved to the right end of their columns; a
cell as wide as its column touches the one before it.
-/

namespace ComputeTopology.WeightMatrix

def columnWidth : Nat := 7

/-- The entry for one pair of nodes. -/
def mark (s : Snapshot) (source target : Nat) : String :=
  if source = target then "0"
  else
    match s.linkBetween? (.ofNat source) (.ofNat target) with
    | none => "-"
    | some l => Text.decimal l.weight.toNat ++ (if l.isIndirect then "*" else "")

def line (cells : List String) : String :=
  String.join (cells.map (Text.alignRight columnWidth)) ++ "\n"

def header (nodes : Nat) : String :=
  line ("from\\to" :: (List.range nodes).map Text.decimal)

def row (s : Snapshot) (nodes source : Nat) : String :=
  line (Text.decimal source :: (List.range nodes).map (mark s source))

def render (s : Snapshot) : String :=
  let nodes := s.platform.nodes.toNat
  header nodes ++ String.join ((List.range nodes).map (row s nodes))

end ComputeTopology.WeightMatrix
