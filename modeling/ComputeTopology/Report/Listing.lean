import ComputeTopology.Snapshot
import ComputeTopology.Survey.Tally
/-!
# The listing of a snapshot

A banner, the summary and the platform, then every node with its banks, caches and links, and last
what the survey counted.
-/

namespace ComputeTopology.Listing

def banner : List String :=
  ["╔══════════════════════════════════════════════════════╗",
    "║              kfd-topo · System Topology              ║",
    "╚══════════════════════════════════════════════════════╝"]

def number (n : UInt32) : String :=
  Text.decimal n.toNat

/-- A value by its name, or by its number if it has none. -/
def named : String ⊕ UInt32 → String
  | .inl name => name
  | .inr code => "Unknown(" ++ number code ++ ")"

/-- A line about a part of a node. -/
def part (label text : String) : String :=
  "   " ++ label ++ String.ofList (List.replicate (14 - label.length) ' ') ++ text

def platform (p : Platform) : String :=
  "  Platform: oem 0x" ++ Text.hex p.oem.toNat ++ "  id 0x" ++ Text.hex p.id.toNat
    ++ "  rev " ++ number p.revision

def gpu (index : Nat) (p : Profile) : List String :=
  ["  Node " ++ Text.decimal index ++ "  GPU  id " ++ number p.gpuId ++ "  " ++ p.shortName,
    part "SIMDs:" (number p.simds ++ "  (" ++ number p.unitsPerArray ++ " CU/array, "
      ++ number p.xcc ++ " XCC)")]
    ++ if p.hiveId = 0 then [] else [part "XGMI hive:" ("0x" ++ Text.hex p.hiveId.toNat)]

def cpu (index : Nat) (p : Profile) : List String :=
  ["  Node " ++ Text.decimal index ++ "  CPU  " ++ p.productName,
    part "Cores:" (number p.cpuCores)]

def bank (b : MemoryBank) : String :=
  part "Memory:" (named b.heap.name ++ "  " ++ Text.decimal (b.sizeInBytes.toNat / (1024 * 1024))
    ++ " MB")

def cache (c : Cache) : String :=
  part "Cache:" ("L" ++ number c.level ++ "  " ++ number c.sizeKb ++ " KB  " ++ c.kinds.describe)

def linkKind (l : Link) : String :=
  if l.isIndirect then "indirect" else if l.peer then "p2p" else "direct"

def link (l : Link) : String :=
  part "Link:" ("-> " ++ number l.target ++ "  " ++ named l.fabric.name ++ "  weight "
    ++ number l.weight ++ "  (" ++ linkKind l ++ ")")

def node (index : Nat) (n : Node) : List String :=
  (if n.isGpu then gpu index n.profile else cpu index n.profile)
    ++ n.banks.map bank ++ n.caches.map cache ++ n.links.map link ++ [""]

def lines (s : Snapshot) (t : Tally) : List String :=
  banner ++ ["", "  " ++ s.summary, platform s.platform, ""]
    ++ s.nodes.zipIdx.flatMap (fun (n, i) => node i n)
    ++ ["  Pass: " ++ t.summary]

def render (s : Snapshot) (t : Tally) : String :=
  String.join ((lines s t).map (· ++ "\n"))

end ComputeTopology.Listing
