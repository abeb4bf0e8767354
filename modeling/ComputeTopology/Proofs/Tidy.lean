import ComputeTopology.Proofs.Placed
import ComputeTopology.Proofs.Saturated

/-!
# Tidy node lists

On a tidy node list every link is direct and leads to another node, and no two of a node to the same
one. So there is room for every route: two nodes get an indirect link exactly if they have a route
and no link (`Route.Tidy.joins_complete_iff`), and as many are counted as were looked for
(`Route.Tidy.complete_countsMore`).
-/

namespace ComputeTopology.Route

/-- Direct links alone, at most one from each node to each other one, as far as 32 bits can number
the nodes. -/
structure Tidy (nodes : List Node) : Prop where
  size : nodes.length < UInt32.size
  direct : ∀ n ∈ nodes, ∀ l ∈ n.links, l.kind = .direct
  placed : ∀ {i : Nat} {n : Node}, nodes[i]? = some n → Placed nodes.length i n.links

instance (nodes : List Node) : Decidable (Tidy nodes) :=
  decidable_of_iff
    (nodes.length < UInt32.size ∧ (∀ n ∈ nodes, ∀ l ∈ n.links, l.kind = .direct)
      ∧ ∀ i : Fin nodes.length, Placed nodes.length i (nodes.get i).links)
    ⟨fun ⟨hsize, hdirect, hplaced⟩ => ⟨hsize, hdirect, fun h => by
        obtain ⟨hi, rfl⟩ := List.getElem?_eq_some_iff.1 h
        exact hplaced ⟨_, hi⟩⟩,
      fun h => ⟨h.size, h.direct, fun i => h.placed (List.getElem?_eq_getElem i.2)⟩⟩

/-- There is an indirect link from node `i` to node `j`, of this fabric and weight. -/
def Joins (nodes : List Node) (i j : Nat) (f : Fabric) (w : UInt32) : Prop :=
  ∃ n l, nodes[i]? = some n ∧ l ∈ n.links ∧ l.kind = .indirect
    ∧ l.source.toNat = i ∧ l.target.toNat = j ∧ l.fabric = f ∧ l.weight = w

namespace Tidy

variable {nodes : List Node} {i j : Nat} {n : Node} {f : Fabric} {w : UInt32}

theorem toNat_ofNat (h : Tidy nodes) (hi : i < nodes.length) : (UInt32.ofNat i).toNat = i :=
  toNat_of_lt_length (Nat.le_of_lt h.size) hi

/-- The links of a node and the routes from it are at most as many as the other nodes. -/
theorem length_routesFrom_le (h : Tidy nodes) (hn : nodes[i]? = some n) :
    (routesFrom nodes i).length ≤ nodes.length - 1 - n.links.length := by
  have hle := Nat.le_of_lt h.size
  have hi := (List.getElem?_eq_some_iff.1 hn).1
  have hall : Placed nodes.length i (n.links ++ routesFrom nodes i) :=
    (h.placed hn).append_routes (fun l hl => of_mem_routesFrom hle hi hl)
      (pairwise_routesFrom hle i) fun l hl => (of_mem_routesFrom hle hi hl).unlinked n hn
  have hlength := hall.length_le hi
  rw [List.length_append] at hlength
  omega

theorem links_complete (h : Tidy nodes) (tally : Tally) {n' : Node}
    (hn' : (complete nodes tally).1[i]? = some n') :
    ∃ n, nodes[i]? = some n ∧ n'.links = n.links ++ routesFrom nodes i := by
  rw [complete_getElem? (Nat.le_of_lt h.size)] at hn'
  obtain ⟨n, hn, rfl⟩ := Option.map_eq_some_iff.1 hn'
  refine ⟨n, hn, ?_⟩
  simp only [fill, List.take_of_length_le (h.length_routesFrom_le hn)]

theorem joins_complete_iff (h : Tidy nodes) (tally : Tally) :
    Joins (complete nodes tally).1 i j f w ↔ i < nodes.length ∧ j < nodes.length
      ∧ candidate? nodes (.ofNat i) (.ofNat j)
        = some (Link.route (.ofNat i) (.ofNat j) f w) := by
  constructor
  · rintro ⟨n', l, hn', hl, hkind, -, rfl, rfl, rfl⟩
    obtain ⟨n, hn, hlinks⟩ := h.links_complete tally hn'
    rw [hlinks] at hl
    rcases List.mem_append.1 hl with hl | hl
    · cases hkind.symm.trans (h.direct n (List.mem_of_getElem? hn) l hl)
    · obtain ⟨k, hk, hroute⟩ := List.mem_filterMap.1 hl
      obtain ⟨_, ⟨fabric, weight⟩, -, -, -, rfl⟩ := candidate?_eq_some_iff.1 hroute
      have hj : (Link.route (.ofNat i) (.ofNat k) fabric weight).target.toNat = k :=
        h.toNat_ofNat (List.mem_range.1 hk)
      rw [hj]
      exact ⟨(List.getElem?_eq_some_iff.1 hn).1, List.mem_range.1 hk, hroute⟩
  · rintro ⟨hi, hj, hroute⟩
    have hlt := hi
    rw [← length_complete nodes tally] at hlt
    have hn' := List.getElem?_eq_getElem hlt
    obtain ⟨n, hn, hlinks⟩ := h.links_complete tally hn'
    refine ⟨_, Link.route (.ofNat i) (.ofNat j) f w, hn', ?_, rfl, h.toNat_ofNat hi,
      h.toNat_ofNat hj, rfl, rfl⟩
    rw [hlinks]
    exact List.mem_append_right _ (List.mem_filterMap.2 ⟨j, List.mem_range.2 hj, hroute⟩)

theorem complete_countsMore (h : Tidy nodes) (tally : Tally) :
    CountsMore (complete nodes tally).2 tally (candidates nodes).length := by
  obtain ⟨count, hcount, hmore⟩ :=
    foldl_insert_countsMore (nodes.length - 1) (candidates nodes) (nodes, tally)
  -- the count is that of the links that have come, and all routes have come
  have hall : linkCount (complete nodes tally).1 = linkCount nodes + (candidates nodes).length := by
    have hlength : (candidates nodes).length
        = ((List.range nodes.length).map fun i => (routesFrom nodes i).length).sum :=
      List.length_flatMap
    rw [complete_fst_eq (Nat.le_of_lt h.size),
      linkCount_mapIdx_fill _ (fun i _ => routesFrom nodes i), hlength]
    congr 2
    refine List.ext_getElem? fun i => ?_
    rw [List.getElem?_mapIdx, List.getElem?_map]
    rcases hn : nodes[i]? with _ | n
    · rw [List.getElem?_eq_none (by simpa using hn)]
      rfl
    · have hi := (List.getElem?_eq_some_iff.1 hn).1
      rw [List.getElem?_range hi, Option.map_some, Option.map_some,
        List.take_of_length_le (h.length_routesFrom_le hn)]
  obtain rfl : count = (candidates nodes).length := Nat.add_left_cancel (hcount.symm.trans hall)
  exact hmore

end Tidy

end ComputeTopology.Route
