import ComputeTopology.Proofs.Captured
import ComputeTopology.Proofs.Routed
import ComputeTopology.Proofs.Surveyed

/-!
# What a capture means

A capture has a snapshot of its own (`Capture.meaning`), which can be told from its tables node by
node, without a survey: every node with its banks and caches as they are, its counts those of the
lists whatever its profile says, its names those of its processor, and as many of its links as there
are other nodes; behind them the routes, if no node has a table of peer links. A survey always finds
that snapshot, in its first attempt (`Capture.take_meaning`), as long as 32 bits can count what the
capture holds.
-/

namespace ComputeTopology

/-- 32 bits can count the entries. -/
structure CapturedNode.Fits (n : CapturedNode) : Prop where
  banks : n.banks.length < UInt32.size
  caches : n.caches.length < UInt32.size
  processorCaches : n.processorCaches.length < UInt32.size
  links : n.links.length + n.peerLinks.length < UInt32.size

structure Capture.Fits (c : Capture) : Prop where
  nodes : c.nodes.length < UInt32.size
  tables : ∀ n ∈ c.nodes, n.Fits

instance (n : CapturedNode) : Decidable n.Fits :=
  decidable_of_iff
    (n.banks.length < UInt32.size ∧ n.caches.length < UInt32.size
      ∧ n.processorCaches.length < UInt32.size
      ∧ n.links.length + n.peerLinks.length < UInt32.size)
    ⟨fun ⟨hb, hc, hp, hl⟩ => ⟨hb, hc, hp, hl⟩,
      fun h => ⟨h.banks, h.caches, h.processorCaches, h.links⟩⟩

instance (c : Capture) : Decidable c.Fits :=
  decidable_of_iff (c.nodes.length < UInt32.size ∧ ∀ n ∈ c.nodes, n.Fits)
    ⟨fun ⟨hn, ht⟩ => ⟨hn, ht⟩, fun h => ⟨h.nodes, h.tables⟩⟩

/-- The processor that a node with CPU cores is named after. -/
def Profile.namesake? (p : Profile) (table : List Processor) : Option Processor :=
  if p.cpuCores = 0 then none else table.find? (·.apicId = p.firstCoreId)

namespace CapturedNode

/-- The caches that a survey finds on the node. -/
def shownCaches (n : CapturedNode) : List Cache :=
  if n.caches ≠ [] then n.caches
  else if n.profile.gpuId = 0 then n.processorCaches
  else []

/-- The first `capacity` supported links of the standard table and then of the other one. -/
def shownLinks (n : CapturedNode) (capacity : Nat) : List Link :=
  (found false n.links ++ found true n.peerLinks).take capacity

def nodeWith (n : CapturedNode) (processors : List Processor) (links : List Link) : Node where
  profile := { n.profile with
    banks := .ofNat n.banks.length
    caches := .ofNat n.shownCaches.length
    links := .ofNat links.length
    shortName := (n.profile.namesake? processors).elim n.profile.shortName fun cpu =>
      if n.profile.deviceId = 0 then cpu.model else n.profile.shortName
    productName := (n.profile.namesake? processors).elim n.profile.productName (·.model) }
  banks := n.banks
  caches := n.shownCaches
  links

end CapturedNode

namespace Capture

/-- How many links there is room for on each node. -/
def capacity (c : Capture) : Nat :=
  c.nodes.length - 1

/-- The nodes with their direct links alone. -/
def directNodes (c : Capture) : List Node :=
  c.nodes.map fun n => n.nodeWith c.processors (n.shownLinks c.capacity)

/-- The routes from node `i` for which there is room. -/
def shownRoutes (c : Capture) (i : Nat) (n : CapturedNode) : List Link :=
  if ∀ m ∈ c.nodes, m.peerLinks = [] then
    (Route.routesFrom c.directNodes i).take (c.capacity - (n.shownLinks c.capacity).length)
  else []

def meaning (c : Capture) : Snapshot where
  platform := { c.platform with nodes := .ofNat c.nodes.length }
  nodes := c.nodes.mapIdx fun i n =>
    n.nodeWith c.processors (n.shownLinks c.capacity ++ c.shownRoutes i n)
  generation := c.generation

end Capture

theorem Route.fill_nodeWith (capacity : Nat) (n : CapturedNode) (processors : List Processor)
    (links routes : List Link) : fill capacity (n.nodeWith processors links) routes
      = n.nodeWith processors (links ++ routes.take (capacity - links.length)) := by
  simp [fill, CapturedNode.nodeWith]

theorem Profile.nameAfter_eq (p : Profile) (table : List Processor) :
    (if p.cpuCores = 0 then p else p.nameAfter table) = { p with
      shortName := (p.namesake? table).elim p.shortName fun cpu =>
        if p.deviceId = 0 then cpu.model else p.shortName
      productName := (p.namesake? table).elim p.productName (·.model) } := by
  unfold namesake?
  by_cases hcores : p.cpuCores = 0
  · rw [if_pos hcores, if_pos hcores]
    rfl
  · rw [if_neg hcores, if_neg hcores, nameAfter]
    split <;> rename_i h <;> rw [h] <;> rfl

namespace Capture

variable {c : Capture} {n : CapturedNode} {r : NodeReading} {nodes i : UInt32} {s s' : Progress}
  {es : List Exchange}

theorem Shown.banks_eq (h : c.Shown n r) (hfit : n.banks.length < UInt32.size)
    (hr : r.Along nodes i s es s') : r.banks = n.banks := by
  have hlength : r.banks.length = n.banks.length := by
    rw [hr.banks_length, hr.profile_counts.1, h.report]
    exact UInt32.toNat_ofNat_of_lt' hfit
  rw [h.banks, hlength, List.take_length]

theorem Shown.caches_eq (h : c.Shown n r) (hn : n.Fits) : r.caches = n.shownCaches := by
  have hcount : n.report.profile.caches.toNat = n.caches.length :=
    UInt32.toNat_ofNat_of_lt' hn.caches
  have hzero : n.report.profile.caches = 0 ↔ n.caches = [] := by
    rw [← UInt32.toNat_inj, hcount]
    exact List.length_eq_zero_iff
  unfold CapturedNode.shownCaches
  rcases h.caches with ⟨hne, hlength, htake⟩ | ⟨hnone, hcaches⟩
  · rw [if_pos (mt hzero.2 hne), htake, hlength, hcount, List.take_length]
  · rw [if_neg (not_not.2 (hzero.1 hnone)), hcaches]
    by_cases hgpu : n.profile.gpuId = 0 <;> simp [Profile.isGpu, hgpu]

theorem Shown.links_eq (h : c.Shown n r)
    (hfit : n.links.length + n.peerLinks.length < UInt32.size) (hr : r.Along nodes i s es s') :
    r.links = n.shownLinks (nodes.toNat - 1) := by
  have hpeers : n.report.peerLinks.toNat = n.peerLinks.length :=
    UInt32.toNat_ofNat_of_lt' (by omega)
  have hlinks : n.report.profile.links.toNat = n.links.length + n.peerLinks.length := by
    change (UInt32.ofNat n.links.length + UInt32.ofNat n.peerLinks.length).toNat = _
    rw [← UInt32.ofNat_add]
    exact UInt32.toNat_ofNat_of_lt' hfit
  refine hr.links_eq_take ?_ ?_ h.standard h.peers
  · rw [hr.profile_counts.2.2, h.report, hlinks, hpeers, Nat.add_sub_cancel]
  · rw [h.report, hpeers]

theorem Shown.node_eq (h : c.Shown n r) (hn : n.Fits) (hr : r.Along nodes i s es s') :
    r.node = n.nodeWith c.processors (n.shownLinks (nodes.toNat - 1)) := by
  have hnamed := h.profile
  change r.profile = (if n.report.profile.cpuCores = 0 then n.report.profile
    else n.report.profile.nameAfter c.processors) at hnamed
  rw [Profile.nameAfter_eq] at hnamed
  rw [NodeReading.node, h.banks_eq hn.banks hr, h.caches_eq hn, h.links_eq hn.links hr, hnamed]
  rfl

theorem Shown.peersPresent_eq (h : c.Shown n r)
    (hfit : n.links.length + n.peerLinks.length < UInt32.size) :
    r.report.peersPresent = decide (n.peerLinks ≠ []) := by
  have hpeers : (UInt32.ofNat n.peerLinks.length).toNat = n.peerLinks.length :=
    UInt32.toNat_ofNat_of_lt' (by omega)
  rw [h.report]
  change decide (UInt32.ofNat n.peerLinks.length ≠ 0) = _
  rw [decide_eq_decide, Ne, ← UInt32.toNat_inj, hpeers]
  exact not_congr List.length_eq_zero_iff

theorem Fits.toNat_nodes (hc : c.Fits) : (UInt32.ofNat c.nodes.length).toNat = c.nodes.length :=
  UInt32.toNat_ofNat_of_lt' hc.nodes

/-- Node by node, the reading `r` holds what the capture has. -/
structure Matches (c : Capture) (r : Reading) : Prop where
  length : r.nodes.length = c.nodes.length
  node : ∀ {k : Nat} {rn : NodeReading}, r.nodes[k]? = some rn → ∃ n, c.nodes[k]? = some n
    ∧ rn.node = n.nodeWith c.processors (n.shownLinks c.capacity)
    ∧ rn.report.peersPresent = decide (n.peerLinks ≠ [])

namespace Matches

variable {r : Reading}

theorem map_node (h : Matches c r) : r.nodes.map (·.node) = c.directNodes := by
  refine List.ext_getElem? fun k => ?_
  rw [List.getElem?_map, directNodes, List.getElem?_map]
  rcases hk : r.nodes[k]? with _ | rn
  · have hlt := List.getElem?_eq_none_iff.1 hk
    rw [h.length] at hlt
    rw [List.getElem?_eq_none hlt]
    rfl
  · obtain ⟨n, hn, hnode, -⟩ := h.node hk
    rw [hn, Option.map_some, Option.map_some, hnode]

theorem peersPresent_eq (h : Matches c r) :
    r.peersPresent = decide ¬ ∀ m ∈ c.nodes, m.peerLinks = [] := by
  rw [Bool.eq_iff_iff, decide_eq_true_iff, Reading.peersPresent, List.any_eq_true]
  push Not
  constructor
  · rintro ⟨rn, hrn, hpeers⟩
    obtain ⟨k, hk⟩ := List.getElem?_of_mem hrn
    obtain ⟨n, hn, -, hpresent⟩ := h.node hk
    exact ⟨n, List.mem_of_getElem? hn, by simpa [hpresent] using hpeers⟩
  · rintro ⟨n, hn, hpeers⟩
    obtain ⟨k, hk⟩ := List.getElem?_of_mem hn
    have hlt := (List.getElem?_eq_some_iff.1 hk).1
    rw [← h.length] at hlt
    obtain ⟨m, hm, -, hpresent⟩ := h.node (List.getElem?_eq_getElem hlt)
    obtain rfl : n = m := Option.some.inj (hk.symm.trans hm)
    exact ⟨_, List.getElem_mem hlt, by simpa [hpresent] using hpeers⟩

theorem outcome_fst (h : Matches c r) (hc : c.Fits) (t : Tally) :
    (r.outcome t).1 = c.meaning.nodes := by
  have hlength : c.directNodes.length = c.nodes.length := List.length_map _
  unfold Reading.outcome meaning shownRoutes
  rw [h.map_node, h.peersPresent_eq]
  by_cases hpeers : ∀ m ∈ c.nodes, m.peerLinks = []
  · rw [if_neg (by simpa using hpeers),
      Route.complete_fst_eq (by rw [hlength]; exact Nat.le_of_lt hc.nodes), hlength]
    simp only [if_pos hpeers]
    refine List.ext_getElem? fun i => ?_
    have hnode : c.directNodes[i]?
        = c.nodes[i]?.map fun n => n.nodeWith c.processors (n.shownLinks c.capacity) :=
      List.getElem?_map
    rw [List.getElem?_mapIdx, List.getElem?_mapIdx, hnode, Option.map_map]
    congr 1
    funext n
    exact Route.fill_nodeWith _ _ _ _ _
  · rw [if_pos (by simpa using hpeers)]
    simp only [if_neg hpeers, List.append_nil]
    exact List.ext_getElem? fun i => by simp [directNodes]

end Matches

theorem Fits.eq_meaning (hc : c.Fits) {number : UInt32} {S : Snapshot} {tally : Tally}
    (h : (Survey.attempt number).eval c.answer = .ok (some (S, tally))) :
    S = c.meaning ∧ tally.attempts = number := by
  obtain ⟨r, s, es, hr, hgeneration, hplatform, hnodes, rfl, hcount, hshown⟩ := exists_reading h
  have hcapacity : r.platform.nodes.toNat = c.nodes.length := by
    rw [hcount]
    exact hc.toNat_nodes
  have hmatches : Matches c r := by
    refine ⟨hr.length_nodes.trans hcapacity, fun hk => ?_⟩
    obtain ⟨n, _, _, _, hn, hshown, hal⟩ := hshown hk
    have hfits := hc.tables n (List.mem_of_getElem? hn)
    refine ⟨n, hn, ?_, hshown.peersPresent_eq hfits.links⟩
    rw [hshown.node_eq hfits hal, hcapacity]
    rfl
  refine ⟨?_, rfl⟩
  rcases S with ⟨platform, nodes, generation⟩
  obtain rfl : platform = r.platform := hplatform
  obtain rfl : nodes = _ := hnodes
  obtain rfl : generation = c.generation := hgeneration
  rw [hmatches.outcome_fst hc, hcount]
  rfl

/-- A survey of a capture publishes what the capture means, in its first attempt. -/
theorem take_meaning (hc : c.Fits) (p : Publisher) :
    ∃ tally, p.take machine c = ((.ok (), p.publish c.meaning tally), c) ∧ tally.attempts = 1 := by
  obtain ⟨S, tally, h⟩ := exists_attempt c 1
  obtain ⟨rfl, htally⟩ := hc.eq_meaning h
  exact ⟨tally, take_machine h p, htally⟩

/-- A host with entries that are not supported, more links than there is room for, and counts that
are wrong; and two GPUs. The second processor gives the host its name. -/
def patchy : Capture where
  generation := 6
  nodes := [
    { profile := { cpuCores := 4, banks := 9, caches := 2, links := 1, firstCoreId := 16 }
      links := [none, some { fabric := .pciExpress, kind := .indirect, target := 1, weight := 20 },
        none, some { fabric := .pciExpress, target := 2, weight := 20 }, some { target := 2 }]
      processorCaches := [{ level := 3 }] },
    { profile := { gpuId := 7 }
      banks := [{ heap := .framePublic }]
      links := [some { fabric := .pciExpress, target := 0, weight := 20 }, none] },
    { profile := { gpuId := 8, caches := 5 }
      banks := [{ heap := .framePublic }]
      links := [some { fabric := .pciExpress, target := 0, weight := 20 }] }]
  processors := [{ model := "first" }, { apicId := 16, model := "host" }, { apicId := 16 }]

theorem take_meaning_patchy :
    patchy.Fits
      ∧ patchy.meaning.nodes.map (·.profile.productName) = ["host", "", ""]
      ∧ patchy.meaning.nodes.map (fun n => n.links.map fun l => (l.target, l.kind))
        = [[(1, .direct), (2, .direct)], [(0, .direct), (2, .indirect)],
          [(0, .direct), (1, .indirect)]]
      ∧ ∃ tally, ({} : Publisher).take machine patchy
          = ((.ok (), ({} : Publisher).publish patchy.meaning tally), patchy)
        ∧ tally.attempts = 1 :=
  ⟨by decide, by decide +kernel, by decide +kernel, take_meaning (by decide) {}⟩

end Capture

end ComputeTopology
