import ComputeTopology.Hardware.Node
import ComputeTopology.Survey.Tally
/-!
# Routes

Where no direct link joins two nodes, at least one of them a GPU, a route over CPU nodes may. The
host of a GPU is the node at the end of its first PCI Express link that stays within the socket.
A route runs from the source to its host, on to the host of the target, and to the target; a source
or target without a host is itself the node next to the other one's host:

    GPU -- host -- GPU
    GPU -- host -- host -- GPU
    GPU -- host -- CPU
           CPU  -- host -- GPU

Its weight is the sum of the weights of its hops, its fabric that of the middle hop. There is no
route whose weight exceeds 32 bits.

`complete` finds the routes of a node list and then adds them one by one as indirect links, as long
as their node has fewer links than there are other nodes.
-/

namespace ComputeTopology.Route

/-- A heavier link leaves the socket. -/
def socketWeight : UInt32 := 20

/-- The sum of two weights, if it fits. -/
def addWeights? (a b : UInt32) : Option UInt32 :=
  if a.toNat + b.toNat < UInt32.size then some (a + b) else none

/-- The node that a GPU hangs off. -/
def host? (nodes : List Node) (gpu : UInt32) : Option UInt32 := do
  let node ← nodes[gpu.toNat]?
  if node.isGpu then
    let link ← node.links.find? fun l =>
      l.isDirect && l.fabric = .pciExpress && l.weight ≤ socketWeight
    return link.target
  else none

/-- Fabric and weight of the first direct link from `source` to `target`. -/
def hop? (nodes : List Node) (source target : UInt32) : Option (Fabric × UInt32) := do
  let node ← nodes[source.toNat]?
  let link ← node.links.find? fun l => l.isDirect && l.target = target
  return (link.fabric, link.weight)

/-- The node has memory that the CPU can reach. -/
def hasPublicFrame (n : Node) : Bool :=
  n.banks.any (·.heap = .framePublic)

/-- A route may be looked for between these nodes. -/
def eligible (source target : Node) : Bool :=
  (source.isGpu || target.isGpu)
    && (source.profile.hiveId = 0 || source.profile.hiveId ≠ target.profile.hiveId)
    && (!target.isGpu || hasPublicFrame target)

/-- Two hops; the fabric is that of the one that `middle` picks. -/
def overOne? (nodes : List Node) (source via target : UInt32)
    (middle : Fabric → Fabric → Fabric) : Option (Fabric × UInt32) := do
  let (f₁, w₁) ← hop? nodes source via
  let (f₂, w₂) ← hop? nodes via target
  return (middle f₁ f₂, ← addWeights? w₁ w₂)

/-- Three hops. GPUs behind different sockets do not reach each other over QPI. -/
def overTwo? (nodes : List Node) (source via₁ via₂ target : UInt32) :
    Option (Fabric × UInt32) := do
  let (_, w₁) ← hop? nodes source via₁
  let (fabric, w₂) ← hop? nodes via₁ via₂
  if fabric = .qpi && socketWeight < w₂ then none
  else
    let (_, w₃) ← hop? nodes via₂ target
    return (fabric, ← addWeights? (← addWeights? w₁ w₂) w₃)

/-- Fabric and weight of the route from `source` to `target`, if there is one. -/
def find? (nodes : List Node) (source target : UInt32) : Option (Fabric × UInt32) := do
  let a ← nodes[source.toNat]?
  let b ← nodes[target.toNat]?
  if source = target || !eligible a b then none
  else
    match host? nodes source, host? nodes target with
    | some h₁, some h₂ =>
      if h₁ = h₂ then overOne? nodes source h₁ target fun _ f => f
      else overTwo? nodes source h₁ h₂ target
    | some h₁, none => overOne? nodes source h₁ target fun _ f => f
    | none, some h₂ => overOne? nodes source h₂ target fun f _ => f
    | none, none => none

/-- The indirect link for one pair of nodes that has no link yet. -/
def candidate? (nodes : List Node) (source target : UInt32) : Option Link := do
  let node ← nodes[source.toNat]?
  if (node.linkTo? target).isSome then none
  else
    let (fabric, weight) ← find? nodes source target
    return Link.route source target fabric weight

/-- The indirect links for all pairs, by source and then by target. -/
def candidates (nodes : List Node) : List Link :=
  (List.range nodes.length).flatMap fun source =>
    (List.range nodes.length).filterMap fun target =>
      candidate? nodes (.ofNat source) (.ofNat target)

def addLink (n : Node) (l : Link) : Node :=
  { n with links := n.links ++ [l], profile := { n.profile with links := n.profile.links + 1 } }

/-- Adds the link to its node and counts it, unless the node is full. -/
def insert (capacity : Nat) (state : List Node × Tally) (l : Link) : List Node × Tally :=
  match state.1[l.source.toNat]? with
  | none => state
  | some n =>
    if capacity ≤ n.links.length then state
    else (state.1.set l.source.toNat (addLink n l), state.2.countIndirect)

def complete (nodes : List Node) (tally : Tally) : List Node × Tally :=
  (candidates nodes).foldl (insert (nodes.length - 1)) (nodes, tally)

end ComputeTopology.Route
