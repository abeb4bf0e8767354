import ComputeTopology.Json.Codec
/-!
# Links

A link leads from one node to another and has a weight; a larger weight is a longer way. A direct
link is one that the machine reports, in the standard table or in the table of peer links. An
indirect link stands for a route over other nodes.
-/

namespace ComputeTopology

/-- The kind of wire a link runs over. -/
inductive Fabric
  | undefined
  | hyperTransport
  | pciExpress
  | amba
  | mipi
  | qpi
  | rapidIo
  | infiniband
  | xgmi
  | xgop
  | gz
  | ethernetRdma
  | otherRdma
  | other
  | unknown (code : UInt32)
  deriving DecidableEq, Inhabited

namespace Fabric

def named : List (String × Fabric) :=
  [("Undefined", undefined), ("HyperTransport", hyperTransport), ("PciExpress", pciExpress),
    ("Amba", amba), ("Mipi", mipi), ("Qpi11", qpi), ("RapidIo", rapidIo),
    ("Infiniband", infiniband), ("Xgmi", xgmi), ("Xgop", xgop), ("Gz", gz),
    ("EthernetRdma", ethernetRdma), ("RdmaOther", otherRdma), ("Other", other)]

def name : Fabric → String ⊕ UInt32
  | undefined => .inl "Undefined"
  | hyperTransport => .inl "HyperTransport"
  | pciExpress => .inl "PciExpress"
  | amba => .inl "Amba"
  | mipi => .inl "Mipi"
  | qpi => .inl "Qpi11"
  | rapidIo => .inl "RapidIo"
  | infiniband => .inl "Infiniband"
  | xgmi => .inl "Xgmi"
  | xgop => .inl "Xgop"
  | gz => .inl "Gz"
  | ethernetRdma => .inl "EthernetRdma"
  | otherRdma => .inl "RdmaOther"
  | other => .inl "Other"
  | unknown code => .inr code

/-- The driver's numbers; 6, 7 and 10 are not in use. -/
def ofCode (code : UInt32) : Fabric :=
  match code.toNat with
  | 0 => undefined
  | 1 => hyperTransport
  | 2 => pciExpress
  | 3 => amba
  | 4 => mipi
  | 5 => qpi
  | 8 => rapidIo
  | 9 => infiniband
  | 11 => xgmi
  | 12 => xgop
  | 13 => gz
  | 14 => ethernetRdma
  | 15 => otherRdma
  | 16 => other
  | _ => unknown code

def codec : Codec Fabric :=
  .choiceOrNumber named name unknown

end Fabric

inductive LinkKind
  | direct
  | indirect
  deriving DecidableEq, Inhabited

namespace LinkKind

def name : LinkKind → String
  | direct => "Direct"
  | indirect => "Indirect"

def codec : Codec LinkKind :=
  .choice [("Direct", direct), ("Indirect", indirect)] name

end LinkKind

structure Link where
  fabric : Fabric := .undefined
  kind : LinkKind := .direct
  /-- Reported in the table of peer links. -/
  peer : Bool := false
  versionMajor : UInt32 := 0
  versionMinor : UInt32 := 0
  source : UInt32 := 0
  target : UInt32 := 0
  weight : UInt32 := 0
  minLatency : UInt32 := 0
  maxLatency : UInt32 := 0
  minBandwidth : UInt32 := 0
  maxBandwidth : UInt32 := 0
  transferSize : UInt32 := 0
  sdmaEngineMask : UInt32 := 0
  flags : UInt32 := 0
  deriving DecidableEq, Inhabited

namespace Link

/-- The link that stands for a route of this fabric and total weight. -/
def route (source target : UInt32) (fabric : Fabric) (weight : UInt32) : Link :=
  { fabric, kind := .indirect, source, target, weight }

def isDirect (l : Link) : Bool :=
  l.kind = .direct

def isIndirect (l : Link) : Bool :=
  l.kind = .indirect

def codec : Codec Link :=
  .record [
    .of "link_type" Fabric.codec (·.fabric) fun x l => { l with fabric := x },
    .of "kind" LinkKind.codec (·.kind) fun x l => { l with kind := x },
    .of "p2p" .bool (·.peer) fun x l => { l with peer := x },
    .of "version_major" .uint32 (·.versionMajor) fun x l => { l with versionMajor := x },
    .of "version_minor" .uint32 (·.versionMinor) fun x l => { l with versionMinor := x },
    .of "node_from" .uint32 (·.source) fun x l => { l with source := x },
    .of "node_to" .uint32 (·.target) fun x l => { l with target := x },
    .of "weight" .uint32 (·.weight) fun x l => { l with weight := x },
    .of "min_latency" .uint32 (·.minLatency) fun x l => { l with minLatency := x },
    .of "max_latency" .uint32 (·.maxLatency) fun x l => { l with maxLatency := x },
    .of "min_bandwidth" .uint32 (·.minBandwidth) fun x l => { l with minBandwidth := x },
    .of "max_bandwidth" .uint32 (·.maxBandwidth) fun x l => { l with maxBandwidth := x },
    .of "rec_transfer_size" .uint32 (·.transferSize) fun x l => { l with transferSize := x },
    .of "rec_sdma_eng_id_mask" .uint32 (·.sdmaEngineMask) fun x l => { l with sdmaEngineMask := x },
    .of "flags" .uint32 (·.flags) fun x l => { l with flags := x }] {}

end Link

end ComputeTopology
