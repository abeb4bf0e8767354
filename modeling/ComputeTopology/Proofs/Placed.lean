import ComputeTopology.Proofs.Joined
import ComputeTopology.Proofs.Meaning
import ComputeTopology.Proofs.WellFormed
import Mathlib.Data.List.Nodup
import Mathlib.Data.List.Perm.Subperm

/-!
# There is room for every link

Links that lead from a node to other nodes, and to no node twice, are at most as many as there are
other nodes (`Placed.length_le`), and they stay so when routes to nodes without a link are added
(`Placed.append_routes`). So a survey of a capture whose links are all placed like that loses none
of them, neither a link of the capture nor a route (`Capture.take_keeps`).
-/

namespace ComputeTopology

/-- From node `i` of `count` nodes the links lead to other nodes, and to no node twice. -/
structure Placed (count i : Nat) (links : List Link) : Prop where
  distinct : (links.map (·.target)).Nodup
  target_lt : ∀ l ∈ links, l.target.toNat < count
  target_ne : ∀ l ∈ links, l.target.toNat ≠ i

instance (count i : Nat) (links : List Link) : Decidable (Placed count i links) :=
  decidable_of_iff
    ((links.map (·.target)).Nodup ∧ (∀ l ∈ links, l.target.toNat < count)
      ∧ ∀ l ∈ links, l.target.toNat ≠ i)
    ⟨fun ⟨hd, hlt, hne⟩ => ⟨hd, hlt, hne⟩, fun h => ⟨h.distinct, h.target_lt, h.target_ne⟩⟩

/-- Routes to nodes that no link leads to lead nowhere twice. -/
theorem nodup_append_routes {links routes : List Link} (hlinks : (links.map (·.target)).Nodup)
    (hpairwise : routes.Pairwise fun k l => k.target < l.target)
    (hunlinked : ∀ l ∈ routes, ∀ k ∈ links, k.target ≠ l.target) :
    ((links ++ routes).map (·.target)).Nodup := by
  rw [List.map_append, List.nodup_append]
  refine ⟨hlinks, ?_, fun s hs t ht => ?_⟩
  · exact List.Pairwise.map _ (fun _ _ hlt => UInt32.ne_of_lt hlt) hpairwise
  · obtain ⟨k, hk, rfl⟩ := List.mem_map.1 hs
    obtain ⟨l, hl, rfl⟩ := List.mem_map.1 ht
    exact hunlinked l hl k hk

namespace Placed

variable {count i : Nat} {links : List Link}

theorem nodup_toNat (h : Placed count i links) : (links.map (·.target.toNat)).Nodup := by
  have hinj := h.distinct.map (f := UInt32.toNat) fun _ _ heq => UInt32.toNat_inj.1 heq
  rwa [List.map_map] at hinj

theorem map_toNat_subset (h : Placed count i links) :
    links.map (·.target.toNat) ⊆ (List.range count).erase i := by
  intro target htarget
  obtain ⟨l, hl, rfl⟩ := List.mem_map.1 htarget
  exact (List.mem_erase_of_ne (h.target_ne l hl)).2 (List.mem_range.2 (h.target_lt l hl))

theorem length_le (h : Placed count i links) (hi : i < count) : links.length ≤ count - 1 := by
  have hle := (h.nodup_toNat.subperm h.map_toNat_subset).length_le
  rwa [List.length_map, List.length_erase_of_mem (List.mem_range.2 hi), List.length_range] at hle

/-- A direct link is the first one to its target, as there is no other. -/
theorem first {l : Link} (h : Placed count i links) (hl : l ∈ links) (hdirect : l.kind = .direct) :
    Route.First (fun k => k.kind = .direct ∧ k.target = l.target) links l := by
  obtain ⟨k, hk⟩ := Route.First.exists (P := fun k => k.kind = .direct ∧ k.target = l.target) hl
    ⟨hdirect, rfl⟩
  obtain rfl : k = l := List.inj_on_of_nodup_map h.distinct hk.mem hl hk.prop.2
  exact hk

theorem append_routes {nodes : List Node} {routes : List Link} (h : Placed nodes.length i links)
    (hfrom : ∀ l ∈ routes, Route.FromNode nodes i l)
    (hpairwise : routes.Pairwise fun k l => k.target < l.target)
    (hunlinked : ∀ l ∈ routes, ∀ k ∈ links, k.target ≠ l.target) :
    Placed nodes.length i (links ++ routes) where
  distinct := nodup_append_routes h.distinct hpairwise hunlinked
  target_lt l hl := (List.mem_append.1 hl).elim (h.target_lt l) fun hl => (hfrom l hl).target_lt
  target_ne l hl := (List.mem_append.1 hl).elim (h.target_ne l) fun hl => (hfrom l hl).target_ne

end Placed

/-- The links of both tables as a survey takes them over. -/
def CapturedNode.supported (n : CapturedNode) : List Link :=
  found false n.links ++ found true n.peerLinks

namespace Capture

/-- Every supported link leads to another node of the capture, and no two of a node to the same one,
as far as 32 bits can count nodes and links. -/
structure Orderly (c : Capture) : Prop where
  nodes : c.nodes.length < UInt32.size
  links : ∀ n ∈ c.nodes, n.links.length + n.peerLinks.length < UInt32.size
  placed : ∀ {i : Nat} {n : CapturedNode}, c.nodes[i]? = some n →
    Placed c.nodes.length i n.supported

instance (c : Capture) : Decidable c.Orderly :=
  decidable_of_iff
    (c.nodes.length < UInt32.size
      ∧ (∀ n ∈ c.nodes, n.links.length + n.peerLinks.length < UInt32.size)
      ∧ ∀ i : Fin c.nodes.length, Placed c.nodes.length i (c.nodes.get i).supported)
    ⟨fun ⟨hnodes, hlinks, hplaced⟩ => ⟨hnodes, hlinks, fun h => by
        obtain ⟨hi, rfl⟩ := List.getElem?_eq_some_iff.1 h
        exact hplaced ⟨_, hi⟩⟩,
      fun h => ⟨h.nodes, h.links, fun i => h.placed (List.getElem?_eq_getElem i.2)⟩⟩

/-- No link of the capture is lost in the snapshot. -/
structure Keeps (c : Capture) (S : Snapshot) : Prop where
  length : S.nodes.length = c.nodes.length
  reported : ∀ {i : Nat} {n : CapturedNode}, c.nodes[i]? = some n →
    ∃ n', S.nodes[i]? = some n' ∧ n'.reported = n.supported
  /-- Where no node has a table of peer links, no route is lost either. -/
  routes : (∀ n ∈ c.nodes, n.peerLinks = []) → ∀ {i : Nat} {n' : Node} {target : UInt32}
    {route : Fabric × UInt32}, S.nodes[i]? = some n' →
    (∀ l ∈ n'.reported, l.target ≠ target) →
    Route.find? (S.nodes.map (·.direct)) (.ofNat i) target = some route →
    Link.route (.ofNat i) target route.1 route.2 ∈ n'.links
  placed : ∀ {i : Nat} {n' : Node}, S.nodes[i]? = some n' → Placed S.nodes.length i n'.links

/-- What an attempt at the capture reads. -/
structure Read (c : Capture) (r : Reading) (es : List Exchange) (s : Progress) : Prop where
  along : r.Along es s
  platform : r.platform = { c.platform with nodes := .ofNat c.nodes.length }
  shown : ∀ {k : Nat} {rn : NodeReading}, r.nodes[k]? = some rn → ∃ n s₁ es₁ s₂,
    c.nodes[k]? = some n ∧ c.Shown n rn ∧ rn.Along r.platform.nodes (.ofNat k) s₁ es₁ s₂

variable {c : Capture} {r : Reading} {es : List Exchange} {s : Progress} {S : Snapshot}

theorem exists_read (c : Capture) (p : Publisher) : ∃ (S : Snapshot) (tally : Tally) (r : Reading)
    (es : List Exchange) (s : Progress), p.take machine c = ((.ok (), p.publish S tally), c)
      ∧ c.Read r es s ∧ S.nodes = (r.outcome s.tally).1 := by
  obtain ⟨S, tally, h⟩ := exists_attempt c 1
  obtain ⟨r, s, es, hr, -, -, hnodes, -, hplatform, hshown⟩ := exists_reading h
  exact ⟨S, tally, r, es, s, take_machine h p, ⟨hr, hplatform, hshown⟩, hnodes⟩

theorem Shown.ends_eq {n : CapturedNode} {rn : NodeReading} (h : c.Shown n rn) :
    rn.node.isGpu = n.profile.isGpu ∧ rn.node.profile.hiveId = n.profile.hiveId := by
  change rn.profile.isGpu = _ ∧ rn.profile.hiveId = _
  rw [h.profile]
  by_cases hcores : n.profile.cpuCores = 0
  · rw [if_pos hcores]
    exact ⟨rfl, rfl⟩
  · rw [if_neg hcores, Profile.nameAfter]
    split <;> exact ⟨rfl, rfl⟩

/-- The node was read with all links of the captured one, and with as much of the rest as decides
which routes there are. -/
structure Mirrors (n : CapturedNode) (m : Node) : Prop where
  links : m.links = n.supported
  isGpu : m.isGpu = n.profile.isGpu
  hiveId : m.profile.hiveId = n.profile.hiveId
  banks : n.banks.length < UInt32.size → m.banks = n.banks

namespace Read

theorem length_eq (h : c.Read r es s) (hc : c.Orderly) : r.nodes.length = c.nodes.length := by
  rw [h.along.length_nodes, h.platform]
  exact UInt32.toNat_ofNat_of_lt' hc.nodes

theorem exists_mirrors (h : c.Read r es s) (hc : c.Orderly) {i : Nat} {m : Node}
    (hm : (r.nodes.map (·.node))[i]? = some m) : ∃ n, c.nodes[i]? = some n ∧ Mirrors n m := by
  rw [List.getElem?_map] at hm
  obtain ⟨rn, hrn, rfl⟩ := Option.map_eq_some_iff.1 hm
  obtain ⟨n, _, _, _, hn, hs, hal⟩ := h.shown hrn
  obtain ⟨hgpu, hhive⟩ := hs.ends_eq
  refine ⟨n, hn, ?_, hgpu, hhive, fun hbanks => hs.banks_eq hbanks hal⟩
  -- there is room for the links of both tables, so the cut behind the last place takes all of them
  have hroom := (hc.placed hn).length_le (List.getElem?_eq_some_iff.1 hn).1
  have hcount : r.platform.nodes.toNat = c.nodes.length :=
    h.along.length_nodes.symm.trans (h.length_eq hc)
  change rn.links = n.supported
  rw [hs.links_eq (hc.links n (List.mem_of_getElem? hn)) hal, hcount]
  exact List.take_of_length_le hroom

/-- Every node of the snapshot holds the links of the capture and the routes behind them. -/
theorem exists_links (h : c.Read r es s) (hc : c.Orderly) (hS : S.nodes = (r.outcome s.tally).1)
    {i : Nat} {n' : Node} (hn' : S.nodes[i]? = some n') : ∃ n, c.nodes[i]? = some n
      ∧ n'.links = n.supported ++ r.routes i ∧ n'.reported = n.supported
      ∧ Placed c.nodes.length i n'.links := by
  rw [hS] at hn'
  obtain ⟨rn, hrn, rfl⟩ := h.along.exists_fill hn'
  have hread : (r.nodes.map (·.node))[i]? = some rn.node := by
    rw [List.getElem?_map, hrn]
    rfl
  obtain ⟨n, hn, hmirrors⟩ := h.exists_mirrors hc hread
  have hcount : (r.nodes.map (·.node)).length = c.nodes.length := by
    rw [List.length_map, h.length_eq hc]
  have hfrom : ∀ l ∈ r.routes i, Route.FromNode (r.nodes.map (·.node)) i l := fun l hl =>
    h.along.of_mem_routes (List.getElem?_eq_some_iff.1 hrn).1 hl
  have hall : Placed c.nodes.length i (n.supported ++ r.routes i) := by
    have hown := hc.placed hn
    rw [← hcount] at hown ⊢
    refine hown.append_routes hfrom (h.along.pairwise_routes i) fun l hl k hk => ?_
    exact (hfrom l hl).unlinked _ hread k (hmirrors.links ▸ hk)
  have hroom := hall.length_le (List.getElem?_eq_some_iff.1 hn).1
  have hfill : (Route.fill (r.nodes.length - 1) rn.node (r.routes i)).links
      = n.supported ++ r.routes i := by
    rw [List.length_append] at hroom
    simp only [Route.fill, hmirrors.links, h.length_eq hc]
    rw [List.take_of_length_le (by omega)]
  refine ⟨n, hn, hfill, ?_, hfill ▸ hall⟩
  have hext := (r.outcome_extends s.tally).extend hn' hread
  exact hext.filter_direct.trans (rn.reported_node.trans hmirrors.links)

theorem peersPresent_eq_false (h : c.Read r es s) (hc : c.Orderly)
    (hnone : ∀ n ∈ c.nodes, n.peerLinks = []) : r.peersPresent = false := by
  rw [Reading.peersPresent, List.any_eq_false]
  intro rn hrn
  obtain ⟨k, hk⟩ := List.getElem?_of_mem hrn
  obtain ⟨n, _, _, _, hn, hs, -⟩ := h.shown hk
  have hmem := List.mem_of_getElem? hn
  rw [hs.peersPresent_eq (hc.links n hmem), hnone n hmem]
  decide

theorem keeps (h : c.Read r es s) (hc : c.Orderly) (hS : S.nodes = (r.outcome s.tally).1) :
    c.Keeps S := by
  have hlength : S.nodes.length = c.nodes.length := by
    rw [hS, r.length_outcome, h.length_eq hc]
  refine ⟨hlength, fun {i n} hn => ?_, fun hnone {i n' target route} hn' hunlinked hroute => ?_,
    fun {i n'} hn' => ?_⟩
  · have hi := (List.getElem?_eq_some_iff.1 hn).1
    rw [← hlength] at hi
    have hn' := List.getElem?_eq_getElem hi
    obtain ⟨m, hm, -, hreported, -⟩ := h.exists_links hc hS hn'
    obtain rfl : n = m := Option.some.inj (hn.symm.trans hm)
    exact ⟨_, hn', hreported⟩
  · obtain ⟨n, hn, hlinks, hreported, -⟩ := h.exists_links hc hS hn'
    have hdirect : S.nodes.map (·.direct) = r.nodes.map (·.node) := by
      rw [hS]
      exact r.map_direct_outcome _
    have hi := (List.getElem?_eq_some_iff.1 hn').1
    rw [← List.length_map (·.direct), hdirect] at hi
    have hread := List.getElem?_eq_getElem hi
    obtain ⟨m, hm, hmirrors⟩ := h.exists_mirrors hc hread
    obtain rfl : n = m := Option.some.inj (hn.symm.trans hm)
    rw [hdirect] at hroute
    rw [hreported, ← hmirrors.links] at hunlinked
    rw [hlinks, Reading.routes, h.peersPresent_eq_false hc hnone]
    exact List.mem_append_right _ ((Route.mem_routesFrom_iff_find? h.along.length_le_size hread).2
      ⟨hunlinked, route, hroute, rfl⟩)
  · obtain ⟨_, _, _, _, hall⟩ := h.exists_links hc hS hn'
    rwa [hlength]

end Read

/-- A survey of a capture loses none of its links if every node has room for them all: if each
supported link leads to another node, and no two of a node to the same one. -/
theorem take_keeps (hc : c.Orderly) (p : Publisher) :
    ∃ S tally, p.take machine c = ((.ok (), p.publish S tally), c) ∧ c.Keeps S := by
  obtain ⟨S, tally, r, es, s, htake, hread, hS⟩ := exists_read c p
  exact ⟨S, tally, htake, hread.keeps hc hS⟩

/-- A host and three GPUs, two of which are joined by a link of their own, so that the route to the
third one takes the last place there is on either. -/
def nearlyFull : Capture :=
  let pci (target : UInt32) := some (CapturedNode.directLink target .pciExpress 20)
  let xgmi (target : UInt32) := some (CapturedNode.directLink target .xgmi 15)
  let gpu (id : UInt32) := (CapturedNode.gpu id).addBank { heap := .framePublic }
  { nodes := [
      { CapturedNode.cpu 4 with links := [pci 1, none, pci 2, pci 3] },
      { gpu 7 with links := [none, none, pci 0, xgmi 2] },
      { gpu 8 with links := [xgmi 1, pci 0, none] },
      { gpu 9 with links := [pci 0] }] }

theorem take_keeps_nearlyFull : nearlyFull.Orderly
    ∧ (({} : Publisher).take machine nearlyFull).1.2.current.map (·.snapshot.nodes.map
        (·.links.map fun l => (l.target, l.kind)))
      = some [[(1, .direct), (2, .direct), (3, .direct)],
        [(0, .direct), (2, .direct), (3, .indirect)],
        [(1, .direct), (0, .direct), (3, .indirect)],
        [(0, .direct), (1, .indirect), (2, .indirect)]]
    ∧ ∃ S tally, ({} : Publisher).take machine nearlyFull
        = ((.ok (), ({} : Publisher).publish S tally), nearlyFull) ∧ nearlyFull.Keeps S :=
  ⟨by decide, by decide +kernel, take_keeps (by decide) {}⟩

end Capture

end ComputeTopology
