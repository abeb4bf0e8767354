import ComputeTopology.Route
import ComputeTopology.Snapshot
import ComputeTopology.Survey.Basic
/-!
# One attempt at a snapshot

An attempt reads the generation, the platform, every node in order, and the generation again. It
yields a snapshot only if both readings of the generation agree.

Of a node it reads the report; the processor table, if the node has CPU cores; the memory banks;
the caches, which for a CPU node that reports none are derived from the processor table; the
standard links and then the peer links. The processor table is read at most once in an attempt.
Links stop when the node has one for every other node; an entry that is not supported takes no
place. Routes are added only if no node says that it has peer links.

Room in memory for all that is read is taken to be there: an attempt ends early only with a fault of
a probe, never for want of storage.
-/

namespace ComputeTopology

/-- What an attempt remembers on its way. -/
structure Progress where
  processors : Option (List Processor) := none
  tally : Tally := {}

abbrev Course := StateT Progress Survey

namespace Course

def ask (p : Probe) : Course p.Answer :=
  StateT.lift (Survey.probe p)

def count (f : Tally → Tally) : Course Unit :=
  modify fun s => { s with tally := f s.tally }

/-- The processor table, read at the first use. -/
def processors : Course (List Processor) := do
  match (← get).processors with
  | some table => return table
  | none =>
    let table ← ask .processors
    modify fun s => { s with processors := some table }
    return table

/-- `left` entries of a table, from `index` on. -/
def entries {α : Type} (entry : UInt32 → Course α) : (index left : Nat) → Course (List α)
  | _, 0 => return []
  | index, left + 1 => do
    let a ← entry (.ofNat index)
    return a :: (← entries entry (index + 1) left)

/-- The profile with its names; those of a node with CPU cores come from the processor table. -/
def named (p : Profile) : Course Profile := do
  if p.cpuCores = 0 then return p
  else return p.nameAfter (← processors)

def caches (node : UInt32) (p : Profile) : Course (List Cache) := do
  if p.caches ≠ 0 then entries (fun i => ask (.cache node i)) 0 p.caches.toNat
  else if p.isGpu then return []
  else ask (.processorCaches node (← processors))

/-- Reads `left` entries of a link table from `index` on and puts those found behind `known`, until
there are `capacity` links. -/
def links (node : UInt32) (peer : Bool) (capacity : Nat) :
    (index left : Nat) → (known : List Link) → Course (List Link)
  | _, 0, known => return known
  | index, left + 1, known => do
    if capacity ≤ known.length then return known
    match ← ask (.link node (.ofNat index) peer) with
    | some link =>
      count (·.countLink peer)
      links node peer capacity (index + 1) left (known ++ [{ link with kind := .direct, peer }])
    | none =>
      count (·.countSkipped)
      links node peer capacity (index + 1) left known

/-- The node, and whether it says that it has peer links. -/
def node (nodes : UInt32) (i : UInt32) : Course (Node × Bool) := do
  let report ← ask (.report i)
  let profile ← named report.profile
  let banks ← entries (fun b => ask (.bank i b)) 0 profile.banks.toNat
  let caches ← caches i profile
  let capacity := nodes.toNat - 1
  let standard := profile.links.toNat - report.peerLinks.toNat
  let known ← links i false capacity 0 standard []
  let links ← links i true capacity 0 report.peerLinks.toNat known
  count (·.countNode banks.length caches.length)
  let profile :=
    { profile with caches := .ofNat caches.length, links := .ofNat links.length }
  return (⟨profile, banks, caches, links⟩, report.peersPresent)

end Course

namespace Survey

/-- The snapshot and its tally, or `none` if the generation changed meanwhile. -/
def attempt (number : UInt32) : Survey (Option (Snapshot × Tally)) := do
  let first ← probe .generation
  let platform ← probe .platform
  let (found, progress) ←
    (Course.entries (Course.node platform.nodes) 0 platform.nodes.toNat).run {}
  let read := (found.map (·.1), progress.tally)
  let (nodes, tally) := if found.any (·.2) then read else Route.complete read.1 read.2
  let last ← probe .generation
  if first = last then
    return some (⟨platform, nodes, last⟩, { tally with attempts := number })
  else return none

end Survey

end ComputeTopology
