import ComputeTopology.Snapshot
import ComputeTopology.Survey.Basic
/-!
# Captures

A capture is a topology held in memory that answers probes. It is built node by node, read from a
file, or made from a snapshot; from a snapshot it keeps what the machine reported and leaves out
the indirect links, which a survey finds again. The counts in its profiles and platform mean
nothing: a report counts the entries themselves.
-/

namespace ComputeTopology

structure CapturedNode where
  profile : Profile := {}
  banks : List MemoryBank := []
  caches : List Cache := []
  /-- The standard link table; `none` is an entry that is not supported. -/
  links : List (Option Link) := []
  peerLinks : List (Option Link) := []
  /-- The answer to a probe for the caches that the processor table shows. -/
  processorCaches : List Cache := []
  deriving DecidableEq, Inhabited

namespace CapturedNode

def cpu (cores : UInt32) : CapturedNode :=
  { profile := { cpuCores := cores } }

def gpu (id : UInt32) : CapturedNode :=
  { profile := { gpuId := id, simds := 64, xcc := 1 } }

def directLink (target : UInt32) (fabric : Fabric) (weight : UInt32) : Link :=
  { fabric, target, weight }

def addBank (n : CapturedNode) (b : MemoryBank) : CapturedNode :=
  { n with banks := n.banks ++ [b] }

def addCache (n : CapturedNode) (c : Cache) : CapturedNode :=
  { n with caches := n.caches ++ [c] }

def addProcessorCache (n : CapturedNode) (c : Cache) : CapturedNode :=
  { n with processorCaches := n.processorCaches ++ [c] }

/-- Adds an entry to the standard link table; the source is filled in with the node's index. -/
def addLink (n : CapturedNode) (entry : Option Link) : CapturedNode :=
  { n with links := n.links ++ [entry] }

def addPeerLink (n : CapturedNode) (entry : Option Link) : CapturedNode :=
  { n with peerLinks := n.peerLinks ++ [entry] }

def withSource (n : CapturedNode) (source : UInt32) : CapturedNode :=
  let stamp (table : List (Option Link)) : List (Option Link) :=
    table.map (·.map fun l => { l with source })
  { n with links := stamp n.links, peerLinks := stamp n.peerLinks }

def report (n : CapturedNode) : Report :=
  let peers : UInt32 := .ofNat n.peerLinks.length
  { profile :=
      { n.profile with
        banks := .ofNat n.banks.length
        caches := .ofNat n.caches.length
        links := .ofNat n.links.length + peers }
    peersPresent := peers ≠ 0
    peerLinks := peers }

def table (n : CapturedNode) (peer : Bool) : List (Option Link) :=
  if peer then n.peerLinks else n.links

/-- A node with what the machine reported of it. -/
def ofNode (n : Node) : CapturedNode :=
  let reported := n.links.filter (·.isDirect)
  { profile := n.profile
    banks := n.banks
    caches := n.caches
    links := (reported.filter (! ·.peer)).map some
    peerLinks := (reported.filter (·.peer)).map some }

def codec : Codec CapturedNode :=
  .record [
    .of "properties" Profile.codec (·.profile) fun x n => { n with profile := x },
    .of "memory_banks" (.list MemoryBank.codec) (·.banks) fun x n => { n with banks := x },
    .of "caches" (.list Cache.codec) (·.caches) fun x n => { n with caches := x },
    .of "io_links" (.list (.option Link.codec)) (·.links) fun x n => { n with links := x },
    .of "p2p_links" (.list (.option Link.codec)) (·.peerLinks) fun x n => { n with peerLinks := x },
    .of "cpu_caches" (.list Cache.codec) (·.processorCaches)
      fun x n => { n with processorCaches := x }] {}

end CapturedNode

structure Capture where
  generation : UInt32 := 0
  platform : Platform := {}
  nodes : List CapturedNode := []
  processors : List Processor := []
  deriving DecidableEq, Inhabited

namespace Capture

def addNode (c : Capture) (n : CapturedNode) : Capture :=
  { c with nodes := c.nodes ++ [n.withSource (.ofNat c.nodes.length)] }

def addProcessor (c : Capture) (p : Processor) : Capture :=
  { c with processors := c.processors ++ [p] }

def ofSnapshot (s : Snapshot) : Capture where
  generation := s.generation
  platform := s.platform
  nodes := s.nodes.map CapturedNode.ofNode

/-- An entry of one of a node's tables, under its name. -/
def entry {α : Type} (node : UInt32) (kind : String) (table : List α) (i : UInt32) :
    Except Fault α :=
  match table[i.toNat]? with
  | some a => .ok a
  | none =>
    .error <| .unavailable
      ("node " ++ Text.decimal node.toNat ++ " " ++ kind ++ " " ++ Text.decimal i.toNat)
      ("no such " ++ kind)

def node (c : Capture) (i : UInt32) : Except Fault CapturedNode :=
  match c.nodes[i.toNat]? with
  | some n => .ok n
  | none => .error (.unavailable ("node " ++ Text.decimal i.toNat) "no such node")

def answer (c : Capture) : (p : Probe) → Except Fault p.Answer
  | .generation => .ok c.generation
  | .platform => .ok { c.platform with nodes := .ofNat c.nodes.length }
  | .report i => (c.node i).map (·.report)
  | .bank i b => do entry i "bank" (← c.node i).banks b
  | .cache i k => do entry i "cache" (← c.node i).caches k
  | .link i l peer => do entry i "link" ((← c.node i).table peer) l
  | .processors => .ok c.processors
  | .processorCaches i _ => (c.node i).map (·.processorCaches)

/-- A machine whose state is the capture that it answers from at the time. -/
def machine : Machine (StateM Capture) where
  answer p := do return (← get).answer p
  wait _ := return ()

def codec : Codec Capture :=
  .record [
    .of "generation" .uint32 (·.generation) fun x c => { c with generation := x },
    .of "system" Platform.codec (·.platform) fun x c => { c with platform := x },
    .of "nodes" (.list CapturedNode.codec) (·.nodes) fun x c => { c with nodes := x },
    .of "cpus" (.list Processor.codec) (·.processors) fun x c => { c with processors := x }] {}

end Capture

end ComputeTopology
